import TinyScript.Syntax.Tree
import TinyScript.Token.Basic

/-!
The grammar of the language, apart from any way of reading it. A derivation relates a list of
tokens to the tree it stands for. The end of the source is no part of a derivation.
-/

namespace TinyScript.Grammar

/-- The categories of expressions. The operands of each belong to the next one. -/
inductive Category where
  | expression | disjunction | conjunction | equality | comparison | sum | product | unary | primary
deriving DecidableEq

namespace Category

def next : Category → Category
  | expression => disjunction
  | disjunction => conjunction
  | conjunction => equality
  | equality => comparison
  | comparison => sum
  | sum => product
  | product => unary
  | unary => primary
  | primary => primary

/-- The operators that chain operands from the left, with the node each one makes. -/
def chain? : Category → TokenKind → Option (Nat → Expr → Expr → Expr)
  | disjunction, .kwOr => some fun _ => .logical .or
  | conjunction, .kwAnd => some fun _ => .logical .and
  | equality, .equalEqual => some (.binary .eq)
  | equality, .bangEqual => some (.binary .ne)
  | comparison, .less => some (.binary .lt)
  | comparison, .lessEqual => some (.binary .le)
  | comparison, .greater => some (.binary .gt)
  | comparison, .greaterEqual => some (.binary .ge)
  | sum, .plus => some (.binary .add)
  | sum, .minus => some (.binary .sub)
  | _, _ => none

end Category

/-- The operators of products, which group to the right. -/
def factor? : TokenKind → Option BinaryOp
  | .star => some .mul
  | .slash => some .div
  | .percent => some .rem
  | _ => none

def sign? : TokenKind → Option UnaryOp
  | .minus => some .neg
  | .bang => some .not
  | _ => none

inductive Phrase : Category → List Token → Expr → Prop where
  | literal {t : Token} {l : Literal} (ht : t.kind = .number ∨ t.kind = .string)
      (hl : t.literal = some l) : Phrase .primary [t] (.literal l.toValue)
  | true {t : Token} (ht : t.kind = .kwTrue) : Phrase .primary [t] (.literal (.boolean true))
  | false {t : Token} (ht : t.kind = .kwFalse) : Phrase .primary [t] (.literal (.boolean false))
  | null {t : Token} (ht : t.kind = .kwNull) : Phrase .primary [t] (.literal .null)
  | name {t : Token} (ht : t.kind = .identifier) : Phrase .primary [t] (.var ⟨t.lexeme, t.line⟩)
  | group {l r : Token} {w : List Token} {e : Expr} (hl : l.kind = .leftParen)
      (he : Phrase .expression w e) (hr : r.kind = .rightParen) :
      Phrase .primary (l :: w ++ [r]) (.group e)
  | unary {t : Token} {op : UnaryOp} {w : List Token} {e : Expr} (ht : sign? t.kind = some op)
      (he : Phrase .unary w e) : Phrase .unary (t :: w) (.unary op t.line e)
  | product {t : Token} {op : BinaryOp} {u v : List Token} {a b : Expr}
      (ha : Phrase .unary u a) (ht : factor? t.kind = some op) (hb : Phrase .product v b) :
      Phrase .product (u ++ t :: v) (.binary op t.line a b)
  | chain {c : Category} {t : Token} {node : Nat → Expr → Expr → Expr} {u v : List Token}
      {a b : Expr} (ha : Phrase c u a) (ht : c.chain? t.kind = some node)
      (hb : Phrase c.next v b) : Phrase c (u ++ t :: v) (node t.line a b)
  /-- Only a bare variable stands to the left, and the value is no assignment itself. -/
  | assign {t : Token} {x : Ident} {u v : List Token} {e : Expr}
      (hx : Phrase .disjunction u (.var x)) (ht : t.kind = .equal)
      (he : Phrase .disjunction v e) : Phrase .expression (u ++ t :: v) (.assign x e)
  | operand {c : Category} {w : List Token} {e : Expr} (hc : c ≠ .primary)
      (he : Phrase c.next w e) : Phrase c w e

/-- A declaration or an expression, with its semicolon. -/
inductive Simple : List Token → Stmt → Prop where
  | declare {k n q z : Token} {w : List Token} {e : Expr} (hk : k.kind = .kwVar)
      (hn : n.kind = .identifier) (hq : q.kind = .equal) (he : Phrase .expression w e)
      (hz : z.kind = .semicolon) :
      Simple (k :: n :: q :: w ++ [z]) (.declare ⟨n.lexeme, n.line⟩ e)
  | expression {z : Token} {w : List Token} {e : Expr} (he : Phrase .expression w e)
      (hz : z.kind = .semicolon) : Simple (w ++ [z]) (.expression e)

/-- The first clause of a loop, with its semicolon. -/
inductive Initializer : List Token → Option Stmt → Prop where
  | none {z : Token} (hz : z.kind = .semicolon) : Initializer [z] none
  | some {w : List Token} {s : Stmt} (hs : Simple w s) : Initializer w (some s)

/-- The second clause of a loop, without its semicolon. -/
inductive Test : List Token → Expr → Prop where
  | none : Test [] (.literal (.boolean true))
  | some {w : List Token} {e : Expr} (he : Phrase .expression w e) : Test w e

/-- The third clause of a loop. -/
inductive Step : List Token → Option Expr → Prop where
  | none : Step [] none
  | some {w : List Token} {e : Expr} (he : Phrase .expression w e) : Step w (some e)

/-- The tree of a loop with clauses. -/
def loop : Option Stmt → Expr → Option Expr → Stmt → Stmt
  | none, test, none, body => .while test body
  | none, test, some step, body => .while test (.block [body, .expression step])
  | some init, test, none, body => .block [init, .while test body]
  | some init, test, some step, body =>
    .block [init, .while test (.block [body, .expression step])]

mutual

/-- `Statement dangling w s`: an `else` after a dangling statement would belong to an `if` at its
end. The branch in front of an `else` does not dangle, so each `else` belongs to the nearest `if`
that has none. -/
inductive Statement : Bool → List Token → Stmt → Prop where
  | simple {w : List Token} {s : Stmt} (hs : Simple w s) : Statement false w s
  | print {k z : Token} {w : List Token} {e : Expr} (hk : k.kind = .kwPrint)
      (he : Phrase .expression w e) (hz : z.kind = .semicolon) :
      Statement false (k :: w ++ [z]) (.print e)
  | block {l r : Token} {w : List Token} {ss : List Stmt} (hl : l.kind = .leftBrace)
      (hs : Statements w ss) (hr : r.kind = .rightBrace) :
      Statement false (l :: w ++ [r]) (.block ss)
  | ifThen {d : Bool} {k l r : Token} {w u : List Token} {test : Expr} {yes : Stmt}
      (hk : k.kind = .kwIf) (hl : l.kind = .leftParen) (ht : Phrase .expression w test)
      (hr : r.kind = .rightParen) (hy : Statement d u yes) :
      Statement true (k :: l :: w ++ r :: u) (.ifThen test yes)
  | ifElse {d : Bool} {k l r o : Token} {w u v : List Token} {test : Expr} {yes no : Stmt}
      (hk : k.kind = .kwIf) (hl : l.kind = .leftParen) (ht : Phrase .expression w test)
      (hr : r.kind = .rightParen) (hy : Statement false u yes) (ho : o.kind = .kwElse)
      (hn : Statement d v no) :
      Statement d (k :: l :: w ++ r :: u ++ o :: v) (.ifElse test yes no)
  | while {d : Bool} {k l r : Token} {w u : List Token} {test : Expr} {body : Stmt}
      (hk : k.kind = .kwWhile) (hl : l.kind = .leftParen) (ht : Phrase .expression w test)
      (hr : r.kind = .rightParen) (hb : Statement d u body) :
      Statement d (k :: l :: w ++ r :: u) (.while test body)
  | for {d : Bool} {k l z r : Token} {w v x u : List Token} {init : Option Stmt} {test : Expr}
      {step : Option Expr} {body : Stmt} (hk : k.kind = .kwFor) (hl : l.kind = .leftParen)
      (hi : Initializer w init) (ht : Test v test) (hz : z.kind = .semicolon)
      (hx : Step x step) (hr : r.kind = .rightParen) (hb : Statement d u body) :
      Statement d (k :: l :: w ++ v ++ z :: x ++ r :: u) (loop init test step body)

inductive Statements : List Token → List Stmt → Prop where
  | nil : Statements [] []
  | cons {d : Bool} {u v : List Token} {s : Stmt} {ss : List Stmt} (hs : Statement d u s)
      (hr : Statements v ss) : Statements (u ++ v) (s :: ss)

end

/-- What two programs are derived from derives them one after the other. -/
theorem Statements.append {u v : List Token} {ss ts : List Stmt} (h : Statements u ss)
    (h' : Statements v ts) : Statements (u ++ v) (ss ++ ts) := by
  induction ss generalizing u with
  | nil =>
    cases h
    exact h'
  | cons s ss ih =>
    cases h with
    | cons hs hr =>
      rw [List.append_assoc]
      exact .cons hs (ih hr)

end TinyScript.Grammar
