import TinyScript.Proofs.Completeness

/-!
What is read without error has a derivation. A stage holds trees that have been begun; behind each
of them stand the words it was read from. Each part of a stage has a relation to its words, and
reading a token adds the token to the words.
-/

namespace TinyScript

theorem BinaryOp.assignment_lt_level (op : BinaryOp) : Level.assignment < op.level := by
  cases op <;> decide

theorem LogicalOp.assignment_lt_level (op : LogicalOp) : Level.assignment < op.level := by
  cases op <;> decide

namespace Pending

/-- How tight the operand has to be: tighter than the operator, except for products. -/
def needs : Pending → Level
  | unary _ _ => Level.unary
  | binary _ op _ => min (op.level + 1) Level.product
  | logical _ op => op.level + 1
  | assign _ => Level.disjunction
  | group => Level.assignment

theorem needs_le_succ (p : Pending) : p.needs ≤ p.level + 1 := by
  cases p with
  | unary op line => exact Nat.le_succ _
  | binary left op line => exact Nat.min_le_left _ _
  | logical left op | assign target | group => exact Nat.le_refl _

theorem needs_le_product {p : Pending} (h : p.level < Level.unary) : p.needs ≤ Level.product := by
  cases p with
  | unary op line => exact absurd h (Nat.lt_irrefl _)
  | binary left op line => exact Nat.min_le_right _ _
  | logical left op => exact Nat.le_trans (Nat.succ_le_succ op.level_le) (by decide)
  | assign target => exact (by decide : Level.disjunction ≤ Level.product)
  | group => exact (by decide : Level.assignment ≤ Level.product)

theorem needs_le_unary (p : Pending) : p.needs ≤ Level.unary := by
  by_cases h : p.level < Level.unary
  · exact Nat.le_trans (needs_le_product h) (by decide)
  · cases p with
    | unary op line => exact Nat.le_refl _
    | binary left op line => exact absurd (Nat.lt_succ_of_le op.level_le) h
    | logical left op =>
      exact absurd (Nat.lt_of_le_of_lt op.level_le (by decide : Level.conjunction < _)) h
    | assign target => exact absurd (by decide : Level.assignment < Level.unary) h
    | group => exact absurd (by decide : Level.bracket < Level.unary) h

theorem eq_group {p : Pending} (h : p.level < Level.assignment) : p = group := by
  cases p with
  | group => rfl
  | unary op line => exact absurd h (by decide : ¬ Level.unary < Level.assignment)
  | binary left op line | logical left op => exact absurd h (Nat.lt_asymm op.assignment_lt_level)
  | assign target => exact absurd h (Nat.lt_irrefl _)

theorem eq_assign {p : Pending} (h : p.level = Level.assignment) : ∃ x, p = assign x := by
  cases p with
  | assign x => exact ⟨x, rfl⟩
  | unary op line => exact absurd h (by decide : ¬ Level.unary = Level.assignment)
  | binary left op line | logical left op => exact absurd h (Nat.ne_of_gt op.assignment_lt_level)
  | group => exact absurd h (by decide : ¬ Level.bracket = Level.assignment)

end Pending

namespace InfixOp

theorem leftLevel_pos (op : InfixOp) : 0 < op.leftLevel := by
  cases op with
  | binary op => cases op <;> decide
  | logical op => cases op <;> decide

theorem leftLevel_le (op : InfixOp) : op.leftLevel ≤ Level.unary := by
  cases op with
  | binary op => cases op <;> decide
  | logical op => cases op <;> decide

end InfixOp

theorem Stage.expect_eq_ok {t : Token} {kind : TokenKind} {context : String} {next stage : Stage}
    (h : expect t kind context next = .ok stage) : t.kind = kind ∧ next = stage := by
  unfold expect at h
  split at h
  · next ht => exact ⟨ht, Except.ok.inj h⟩
  · cases h

namespace Grammar

open Stage (expect_eq_ok)

namespace Category

theorem level_next {c : Category} (hc : c ≠ primary) : c.next.level = c.level + 1 := by
  cases c <;> first | rfl | exact absurd rfl hc

theorem level_injective {c d : Category} (h : c.level = d.level) : c = d := by
  revert h
  cases c <;> cases d <;> decide

end Category

theorem Phrase.loosen {c d : Category} {w : List Token} {e : Expr} (h : Phrase c w e)
    (hd : d.level ≤ c.level) : Phrase d w e := by
  obtain ⟨n, hn⟩ := Nat.exists_eq_add_of_le hd
  induction n generalizing d with
  | zero => exact Category.level_injective hn ▸ h
  | succ n ih =>
    have hp : d ≠ .primary := by
      rintro rfl
      have : c.level ≤ Category.primary.level := by cases c <;> decide
      omega
    have hnext := Category.level_next hp
    exact .operand hp (ih (by omega) (by omega))

theorem chain?_of_infix {op : InfixOp} {k : TokenKind} (h : InfixOp.ofToken? k = some op) :
    (∃ bop, op = .binary bop ∧ factor? k = some bop) ∨
      ∃ c node, Category.chain? c k = some node := by
  cases k <;> simp [InfixOp.ofToken?, BinaryOp.ofToken?, LogicalOp.ofToken?] at h
  case plus | minus => exact .inr ⟨.sum, _, rfl⟩
  case star | slash | percent => exact .inl ⟨_, h.symm, rfl⟩
  case bangEqual | equalEqual => exact .inr ⟨.equality, _, rfl⟩
  case greater | greaterEqual | less | lessEqual => exact .inr ⟨.comparison, _, rfl⟩
  case kwAnd => exact .inr ⟨.conjunction, _, rfl⟩
  case kwOr => exact .inr ⟨.disjunction, _, rfl⟩

theorem chain?_needs {c : Category} {k : TokenKind} {node : Nat → Expr → Expr → Expr}
    {op : InfixOp} (h : c.chain? k = some node) (hop : InfixOp.ofToken? k = some op) (line : Nat)
    (a : Expr) : c.next.level ≤ (Pending.ofInfix op line a).needs := by
  unfold Category.chain? at h
  split at h
  all_goals first
    | cases hop
      exact Nat.le_refl _
    | cases h

/-- `w` has begun the operators `ps`. Each of them is tight enough to be the right operand of the
one outside it. -/
inductive Begun : List Pending → List Token → Prop where
  | nil : Begun [] []
  | group {l : Token} {ps : List Pending} {w : List Token} (hb : Begun ps w)
      (hl : l.kind = .leftParen) : Begun (.group :: ps) (w ++ [l])
  | unary {t : Token} {op : UnaryOp} {ps : List Pending} {w : List Token} (hb : Begun ps w)
      (ht : sign? t.kind = some op) : Begun (.unary op t.line :: ps) (w ++ [t])
  | product {t : Token} {op : BinaryOp} {ps : List Pending} {w u : List Token} {a : Expr}
      (hb : Begun ps w) (hroom : Pending.Room Level.unary ps) (ha : Phrase .unary u a)
      (ht : factor? t.kind = some op) : Begun (.binary a op t.line :: ps) (w ++ u ++ [t])
  | chain {c : Category} {t : Token} {op : InfixOp} {node : Nat → Expr → Expr → Expr}
      {ps : List Pending} {w u : List Token} {a : Expr} (hb : Begun ps w)
      (hroom : Pending.Room c.level ps) (ha : Phrase c u a) (ht : c.chain? t.kind = some node)
      (hop : InfixOp.ofToken? t.kind = some op) :
      Begun (.ofInfix op t.line a :: ps) (w ++ u ++ [t])
  | assign {t : Token} {x : Ident} {ps : List Pending} {w u : List Token} (hb : Begun ps w)
      (hroom : Pending.Room Level.assignment ps) (hx : Phrase .disjunction u (.var x))
      (ht : t.kind = .equal) : Begun (.assign x :: ps) (w ++ u ++ [t])

theorem Begun.of_group {ps : List Pending} {w : List Token} (h : Begun (.group :: ps) w) :
    ∃ l w', Begun ps w' ∧ l.kind = .leftParen ∧ w = w' ++ [l] := by
  generalize hq : Pending.group :: ps = qs at h
  cases h with
  | group hb hl =>
    cases hq
    exact ⟨_, _, hb, hl, rfl⟩
  | @chain _ _ op =>
    cases op <;> cases hq
  | _ => cases hq

/-- Closing operators moves their words over to the operand. -/
theorem Begun.close {ps : List Pending} {w : List Token} (h : Begun ps w) {c : Category}
    {u : List Token} {e : Expr} (he : Phrase c u e) (hn : ∀ p ∈ ps.head?, p.needs ≤ c.level)
    {m : Level} (hm : 0 < m) (hc : m ≤ c.level) :
    ∃ w' u' c', w ++ u = w' ++ u' ∧ Begun (Pending.close m e ps).2 w' ∧
      Phrase c' u' (Pending.close m e ps).1 ∧ m ≤ c'.level ∧
      Pending.Room m (Pending.close m e ps).2 := by
  induction h generalizing c u e with
  | nil => exact ⟨[], u, c, rfl, .nil, he, hc, by simp [Pending.close, Pending.Room]⟩
  | @group l ps w hb hl ih =>
    have hroom : Pending.Room m (.group :: ps) := Pending.room_cons.2 hm
    rw [Pending.close_of_room hroom]
    exact ⟨_, u, c, rfl, .group hb hl, he, hc, hroom⟩
  | @unary t op ps w hb ht ih =>
    by_cases hle : m ≤ Level.unary
    · rw [Pending.close_cons hle]
      have hphrase : Phrase .unary (t :: u) (.unary op t.line e) :=
        .unary ht (he.loosen (hn _ rfl))
      obtain ⟨w', u', c', hw, h⟩ := ih hphrase (fun p _ => p.needs_le_unary) hle
      exact ⟨w', u', c', by rw [← hw]; simp, h⟩
    · have hroom : Pending.Room m (.unary op t.line :: ps) :=
        Pending.room_cons.2 (Nat.not_le.1 hle)
      rw [Pending.close_of_room hroom]
      exact ⟨_, u, c, rfl, .unary hb ht, he, hc, hroom⟩
  | @product t op ps w v a hb hroom ha ht ih =>
    have hlevel : (Pending.binary a op t.line).level = Level.product := (factor?_eq_some ht).2
    by_cases hle : m ≤ Level.product
    · rw [Pending.close_cons (hlevel ▸ hle)]
      have hneeds : Category.product.level ≤ (Pending.binary a op t.line).needs :=
        Nat.le_min.2 ⟨Nat.le_succ_of_le (Nat.le_of_eq hlevel.symm), Nat.le_refl _⟩
      have hphrase : Phrase .product (v ++ t :: u) (.binary op t.line a e) :=
        .product ha ht (he.loosen (Nat.le_trans hneeds (hn _ rfl)))
      obtain ⟨w', u', c', hw, h⟩ :=
        ih hphrase (fun p hp => Pending.needs_le_product (hroom p hp)) hle
      exact ⟨w', u', c', by rw [← hw]; simp, h⟩
    · have hroom' : Pending.Room m (.binary a op t.line :: ps) :=
        Pending.room_cons.2 (hlevel ▸ Nat.not_le.1 hle)
      rw [Pending.close_of_room hroom']
      exact ⟨_, u, c, rfl, .product hb hroom ha ht, he, hc, hroom'⟩
  | @chain d t op node ps w v a hb hroom ha ht hop ih =>
    obtain ⟨op', hop', hleft, hfloor, hnext, hnode⟩ := chain?_eq_some ht
    obtain rfl : op' = op := Option.some.inj (hop'.symm.trans hop)
    obtain ⟨hlevel, hcomplete⟩ := hnode t.line a
    by_cases hle : m ≤ d.level
    · rw [Pending.close_cons (hlevel ▸ hle), hcomplete]
      have hphrase : Phrase d (v ++ t :: u) (node t.line a e) :=
        .chain ha ht (he.loosen (Nat.le_trans (chain?_needs ht hop t.line a) (hn _ rfl)))
      obtain ⟨w', u', c', hw, h⟩ := ih hphrase
        (fun p hp => Nat.le_trans p.needs_le_succ (hroom p hp)) hle
      exact ⟨w', u', c', by rw [← hw]; simp, h⟩
    · have hroom' : Pending.Room m (.ofInfix op' t.line a :: ps) :=
        Pending.room_cons.2 (hlevel ▸ Nat.not_le.1 hle)
      rw [Pending.close_of_room hroom']
      exact ⟨_, u, c, rfl, .chain hb hroom ha ht hop, he, hc, hroom'⟩
  | @assign t x ps w v hb hroom hx ht ih =>
    by_cases hle : m ≤ Level.assignment
    · rw [Pending.close_cons hle]
      have hphrase : Phrase .expression (v ++ t :: u) (.assign x e) :=
        .assign hx ht (he.loosen (hn _ rfl))
      obtain ⟨w', u', c', hw, h⟩ := ih hphrase
        (fun p hp => Nat.le_trans p.needs_le_succ (hroom p hp)) hle
      exact ⟨w', u', c', by rw [← hw]; simp, h⟩
    · have hroom' : Pending.Room m (.assign x :: ps) := Pending.room_cons.2 (Nat.not_le.1 hle)
      rw [Pending.close_of_room hroom']
      exact ⟨_, u, c, rfl, .assign hb hroom hx ht, he, hc, hroom'⟩

/-- `w` stands in front of the expression. In the first clause of a loop (`header`) only a
declaration or an expression may stand. -/
inductive Aims : (header : Bool) → Purpose → List Token → Prop where
  | print {k : Token} (hk : k.kind = .kwPrint) : Aims false .print [k]
  | initial {b : Bool} {k n q : Token} (hk : k.kind = .kwVar) (hn : n.kind = .identifier)
      (hq : q.kind = .equal) : Aims b (.initial ⟨n.lexeme, n.line⟩) [k, n, q]
  | discard {b : Bool} : Aims b .discard []
  | ifTest {k l : Token} (hk : k.kind = .kwIf) (hl : l.kind = .leftParen) :
      Aims false .ifTest [k, l]
  | whileTest {k l : Token} (hk : k.kind = .kwWhile) (hl : l.kind = .leftParen) :
      Aims false .whileTest [k, l]
  | forTest {k l : Token} {w : List Token} {init : Option Stmt} (hk : k.kind = .kwFor)
      (hl : l.kind = .leftParen) (hi : Initializer w init) :
      Aims false (.forTest init) (k :: l :: w)
  | forStep {k l z : Token} {w v : List Token} {init : Option Stmt} {test : Expr}
      (hk : k.kind = .kwFor) (hl : l.kind = .leftParen) (hi : Initializer w init)
      (ht : Test v test) (hz : z.kind = .semicolon) :
      Aims false (.forStep init test) (k :: l :: w ++ v ++ [z])

/-- `w` has been read of the innermost statement. -/
inductive Within : (header : Bool) → Mode → List Token → Prop where
  | statement : Within false .statement []
  | operand {b : Bool} {purpose : Purpose} {ps : List Pending} {u v : List Token}
      (ha : Aims b purpose u) (hb : Begun ps v) : Within b (.operand ps purpose) (u ++ v)
  | operator {b : Bool} {purpose : Purpose} {ps : List Pending} {u v x : List Token} {e : Expr}
      (ha : Aims b purpose u) (hb : Begun ps v) (he : Phrase .primary x e) :
      Within b (.operator e ps purpose) (u ++ v ++ x)
  | ifParen {k : Token} (hk : k.kind = .kwIf) : Within false .ifParen [k]
  | whileParen {k : Token} (hk : k.kind = .kwWhile) : Within false .whileParen [k]
  | forParen {k : Token} (hk : k.kind = .kwFor) : Within false .forParen [k]
  | forInit {k l : Token} (hk : k.kind = .kwFor) (hl : l.kind = .leftParen) :
      Within false .forInit [k, l]
  | forTest {k l : Token} {w : List Token} {init : Option Stmt} (hk : k.kind = .kwFor)
      (hl : l.kind = .leftParen) (hi : Initializer w init) :
      Within false (.forTest init) (k :: l :: w)
  | forStep {k l z : Token} {w v : List Token} {init : Option Stmt} {test : Expr}
      (hk : k.kind = .kwFor) (hl : l.kind = .leftParen) (hi : Initializer w init)
      (ht : Test v test) (hz : z.kind = .semicolon) :
      Within false (.forStep init test) (k :: l :: w ++ v ++ [z])
  | varName {b : Bool} {k : Token} (hk : k.kind = .kwVar) : Within b .varName [k]
  | varEqual {b : Bool} {k n : Token} (hk : k.kind = .kwVar) (hn : n.kind = .identifier) :
      Within b (.varEqual ⟨n.lexeme, n.line⟩) [k, n]

/-- `w` has opened the enclosing statements. -/
inductive Opened : (header : Bool) → List Enclosing → List Token → Prop where
  | nil : Opened false [] []
  | block {l : Token} {enclosing : List Enclosing} {w u : List Token} {before : List Stmt}
      (ho : Opened false enclosing w) (hl : l.kind = .leftBrace)
      (hs : Statements u before.reverse) : Opened false (.block before :: enclosing) (w ++ l :: u)
  | thenBranch {k l r : Token} {enclosing : List Enclosing} {w u : List Token} {test : Expr}
      (ho : Opened false enclosing w) (hk : k.kind = .kwIf) (hl : l.kind = .leftParen)
      (ht : Phrase .expression u test) (hr : r.kind = .rightParen) :
      Opened false (.thenBranch test :: enclosing) (w ++ (k :: l :: u ++ [r]))
  | elseBranch {k l r o : Token} {enclosing : List Enclosing} {w u v : List Token} {test : Expr}
      {yes : Stmt} (ho : Opened false enclosing w) (hk : k.kind = .kwIf) (hl : l.kind = .leftParen)
      (ht : Phrase .expression u test) (hr : r.kind = .rightParen) (hy : Statement false v yes)
      (he : o.kind = .kwElse) :
      Opened false (.elseBranch test yes :: enclosing) (w ++ (k :: l :: u ++ r :: v ++ [o]))
  | whileBody {k l r : Token} {enclosing : List Enclosing} {w u : List Token} {test : Expr}
      (ho : Opened false enclosing w) (hk : k.kind = .kwWhile) (hl : l.kind = .leftParen)
      (ht : Phrase .expression u test) (hr : r.kind = .rightParen) :
      Opened false (.whileBody test :: enclosing) (w ++ (k :: l :: u ++ [r]))
  | forInit {k l : Token} {enclosing : List Enclosing} {w : List Token}
      (ho : Opened false enclosing w) (hk : k.kind = .kwFor) (hl : l.kind = .leftParen) :
      Opened true (.forInit :: enclosing) (w ++ [k, l])
  | forBody {k l z r : Token} {enclosing : List Enclosing} {w u v x : List Token}
      {init : Option Stmt} {test : Expr} {step : Option Expr} (ho : Opened false enclosing w)
      (hk : k.kind = .kwFor) (hl : l.kind = .leftParen) (hi : Initializer u init)
      (ht : Test v test) (hz : z.kind = .semicolon) (hx : Step x step)
      (hr : r.kind = .rightParen) :
      Opened false (.forBody init test step :: enclosing)
        (w ++ (k :: l :: u ++ v ++ z :: x ++ [r]))

/-- A statement that is complete by itself. -/
def Whole : (header : Bool) → List Token → Stmt → Prop
  | true, w, s => Simple w s
  | false, w, s => Statement false w s

theorem Whole.of_simple {w : List Token} {s : Stmt} (h : Simple w s) (b : Bool) : Whole b w s := by
  cases b with
  | true => exact h
  | false => exact .simple h

/-- `Behind stage w`: the words `w` since the last complete statement of the program have led to
the stage. -/
inductive Behind : Stage → List Token → Prop where
  | inside {b : Bool} {mode : Mode} {enclosing : List Enclosing} {u v w : List Token}
      (ho : Opened b enclosing u) (hm : Within b mode v) (hw : w = u ++ v) :
      Behind (.inside mode enclosing) w
  | finished {b : Bool} {s : Stmt} {enclosing : List Enclosing} {u v w : List Token}
      (ho : Opened b enclosing u) (hs : Whole b v s) (hw : w = u ++ v) :
      Behind (.finished s enclosing) w

/-- A number or a text comes with its value. -/
def Carried (t : Token) : Prop := t.kind = .number ∨ t.kind = .string → t.literal.isSome

theorem phrase_of_leaf {t : Token} {e : Expr} (ht : Carried t) (h : Stage.leaf? t = some e) :
    Phrase .primary [t] e := by
  unfold Stage.leaf? at h
  split at h
  · next hk =>
    obtain ⟨l, hl⟩ := Option.isSome_iff_exists.1 (ht (.inl hk))
    cases h
    rw [hl]
    exact .literal (.inl hk) hl
  · next hk =>
    obtain ⟨l, hl⟩ := Option.isSome_iff_exists.1 (ht (.inr hk))
    cases h
    rw [hl]
    exact .literal (.inr hk) hl
  · next hk => cases h; exact .true hk
  · next hk => cases h; exact .false hk
  · next hk => cases h; exact .null hk
  · next hk => cases h; exact .name hk
  · cases h

section Steps

variable {b : Bool} {purpose : Purpose} {ps : List Pending} {enclosing : List Enclosing}
  {u v w x : List Token} {e : Expr} {t : Token} {stage : Stage}

theorem behind_operand (ho : Opened b enclosing u) (ha : Aims b purpose v) (hb : Begun ps w)
    (ht : Carried t) (h : Stage.operand ps purpose enclosing t = .ok stage) :
    Behind stage (u ++ (v ++ w) ++ [t]) := by
  unfold Stage.operand at h
  split at h
  · next op hop =>
    cases h
    exact .inside ho (.operand ha (.unary hb (sign?_eq _ ▸ hop))) (by simp)
  · split at h
    · next hl =>
      cases h
      exact .inside ho (.operand ha (.group hb hl)) (by simp)
    · split at h
      · next e he =>
        cases h
        exact .inside ho (.operator ha hb (phrase_of_leaf ht he)) (by simp)
      · cases h

theorem behind_fulfil (ho : Opened b enclosing u) (ha : Aims b purpose v)
    (he : Phrase .expression x e) (ht : t.kind = purpose.terminator.1) :
    Behind (purpose.fulfil e enclosing) (u ++ (v ++ x) ++ [t]) := by
  cases ha with
  | print hk => exact .finished ho (.print hk he ht) (by simp)
  | initial hk hn hq =>
    exact .finished ho (Whole.of_simple (.declare hk hn hq he ht) b) (by simp)
  | discard => exact .finished ho (Whole.of_simple (.expression he ht) b) (by simp)
  | ifTest hk hl => exact .inside (.thenBranch ho hk hl he ht) .statement (by simp)
  | whileTest hk hl => exact .inside (.whileBody ho hk hl he ht) .statement (by simp)
  | forTest hk hl hi => exact .inside ho (.forStep hk hl hi (.some he) ht) (by simp)
  | forStep hk hl hi htest hz =>
    exact .inside (.forBody ho hk hl hi htest hz (.some he) ht) .statement (by simp)

theorem behind_ending (ho : Opened b enclosing u) (ha : Aims b purpose v) (hb : Begun ps w)
    (he : Phrase .primary x e) (h : Stage.ending e ps purpose enclosing t = .ok stage) :
    Behind stage (u ++ (v ++ w ++ x) ++ [t]) := by
  obtain ⟨w', x', c, hw, hb', he', hc, hroom⟩ := hb.close he
    (fun p _ => Nat.le_trans p.needs_le_unary (by decide)) (m := Level.assignment) (by decide)
    (by decide)
  have hwords : u ++ (v ++ w ++ x) ++ [t] = u ++ (v ++ (w' ++ x')) ++ [t] := by
    rw [← hw, List.append_assoc v]
  rw [hwords]
  unfold Stage.ending at h
  split at h
  · next e' p ps' hclose =>
    rw [hclose] at hb' he' hroom
    obtain ⟨hr, rfl⟩ := expect_eq_ok h
    obtain rfl := Pending.eq_group (Pending.room_cons.1 hroom)
    obtain ⟨l, w'', hb'', hl, rfl⟩ := hb'.of_group
    have hg : Phrase .primary (l :: x' ++ [t]) (.group e') := .group hl (he'.loosen hc) hr
    exact .inside ho (.operator ha hb'' hg) (by simp)
  · next e' hclose =>
    rw [hclose] at hb' he'
    change Stage.expect t purpose.terminator.1 purpose.terminator.2 _ = _ at h
    obtain ⟨hz, rfl⟩ := expect_eq_ok h
    cases hb'
    exact behind_fulfil ho ha (he'.loosen hc) hz

theorem behind_equals (ho : Opened b enclosing u) (ha : Aims b purpose v) (hb : Begun ps w)
    (he : Phrase .primary x e) (ht : t.kind = .equal)
    (h : Stage.equals e ps purpose enclosing t = .ok stage) :
    Behind stage (u ++ (v ++ w ++ x) ++ [t]) := by
  obtain ⟨w', x', c, hw, hb', he', hc, hroom⟩ := hb.close he
    (fun p _ => Nat.le_trans p.needs_le_unary (by decide)) (m := Level.disjunction) (by decide)
    (by decide)
  unfold Stage.equals at h
  split at h
  · exact behind_ending ho ha hb he h
  · next target ps' hassign hclose =>
    rw [hclose] at hb' he' hroom
    split at h
    · next y hy =>
      cases h
      have hx : target = .var y := by
        unfold Expr.asVariable? at hy
        split at hy <;> simp_all
      subst hx
      have hroom' : Pending.Room Level.assignment ps' := by
        intro p hp
        refine Nat.lt_of_le_of_ne (Nat.le_of_lt_succ (hroom p hp)) fun hl => ?_
        obtain ⟨ps'', rfl⟩ : ∃ ps'', ps' = p :: ps'' := List.head?_eq_some_iff.1 hp
        obtain ⟨y, rfl⟩ := Pending.eq_assign hl
        exact hassign _ _ rfl
      refine .inside ho (.operand ha (.assign hb' hroom' (he'.loosen hc) ht)) ?_
      rw [List.append_assoc v, hw]
      simp
    · cases h

theorem behind_operator (ho : Opened b enclosing u) (ha : Aims b purpose v) (hb : Begun ps w)
    (he : Phrase .primary x e) (h : Stage.operator e ps purpose enclosing t = .ok stage) :
    Behind stage (u ++ (v ++ w ++ x) ++ [t]) := by
  unfold Stage.operator at h
  split at h
  · next op hop =>
    cases h
    obtain ⟨w', x', c, hw, hb', he', hc, hroom⟩ := hb.close he
      (fun p _ => Nat.le_trans p.needs_le_unary (by decide)) (m := op.leftLevel)
      op.leftLevel_pos (Nat.le_succ_of_le op.leftLevel_le)
    have hbegun : Begun (.ofInfix op t.line (Pending.close op.leftLevel e ps).1 ::
        (Pending.close op.leftLevel e ps).2) (w' ++ x' ++ [t]) := by
      rcases chain?_of_infix hop with ⟨bop, rfl, hf⟩ | ⟨d, node, hd⟩
      · have hl : (InfixOp.binary bop).leftLevel = Level.unary := if_pos (factor?_eq_some hf).2
        rw [hl] at hb' he' hc hroom ⊢
        exact .product hb' hroom (he'.loosen hc) hf
      · obtain ⟨op', hop', hl, _⟩ := chain?_eq_some hd
        obtain rfl : op' = op := Option.some.inj (hop'.symm.trans hop)
        rw [hl] at hb' he' hc hroom ⊢
        exact .chain hb' hroom (he'.loosen hc) hd hop
    refine .inside ho (.operand ha hbegun) ?_
    rw [List.append_assoc v, hw]
    simp
  · split at h
    · next ht => exact behind_equals ho ha hb he ht h
    · exact behind_ending ho ha hb he h

theorem behind_statement (ho : Opened false enclosing u) (ht : Carried t)
    (h : Stage.statement enclosing t = .ok stage) : Behind stage (u ++ [t]) := by
  unfold Stage.statement at h
  split at h
  · next hk => cases h; exact .inside ho (.operand (.print hk) .nil) (by simp)
  · next hk => cases h; exact .inside ho (.varName hk) rfl
  · next hk =>
    cases h
    have hnil : Statements [] (List.reverse []) := .nil
    exact .inside (.block ho hk hnil) .statement (by simp)
  · next hk => cases h; exact .inside ho (.ifParen hk) rfl
  · next hk => cases h; exact .inside ho (.whileParen hk) rfl
  · next hk => cases h; exact .inside ho (.forParen hk) rfl
  · next before outer hk =>
    cases h
    cases ho with
    | @block l _ w v _ ho hl hs =>
      exact .finished (b := false) (v := l :: v ++ [t]) ho (.block hl hs hk) (by simp)
  · cases h
  · exact List.append_nil u ▸ behind_operand ho .discard .nil ht h

theorem behind_step {mode : Mode} (ho : Opened b enclosing u) (hm : Within b mode v)
    (ht : Carried t) (h : Stage.step mode enclosing t = .ok stage) :
    Behind stage (u ++ v ++ [t]) := by
  cases hm with
  | statement =>
    rw [List.append_nil]
    exact behind_statement ho ht h
  | operand ha hb => exact behind_operand ho ha hb ht h
  | operator ha hb he => exact behind_operator ho ha hb he h
  | ifParen hk =>
    obtain ⟨hl, rfl⟩ := expect_eq_ok h
    exact .inside ho (.operand (.ifTest hk hl) .nil) (by simp)
  | whileParen hk =>
    obtain ⟨hl, rfl⟩ := expect_eq_ok h
    exact .inside ho (.operand (.whileTest hk hl) .nil) (by simp)
  | forParen hk =>
    obtain ⟨hl, rfl⟩ := expect_eq_ok h
    exact .inside ho (.forInit hk hl) (by simp)
  | @forInit k l hk hl =>
    simp only [Stage.step] at h
    split at h
    · next hz => cases h; exact .inside ho (.forTest hk hl (.none hz)) (by simp)
    · next hv => cases h; exact .inside (.forInit ho hk hl) (.varName hv) rfl
    · have hb := behind_operand (.forInit ho hk hl) .discard .nil ht h
      simpa using hb
  | forTest hk hl hi =>
    simp only [Stage.step] at h
    split at h
    · next hz => cases h; exact .inside ho (.forStep hk hl hi .none hz) (by simp)
    · have hb := behind_operand ho (.forTest hk hl hi) .nil ht h
      simpa using hb
  | forStep hk hl hi htest hz =>
    simp only [Stage.step] at h
    split at h
    · next hr =>
      cases h
      exact .inside (.forBody ho hk hl hi htest hz .none hr) .statement (by simp)
    · have hb := behind_operand ho (.forStep hk hl hi htest hz) .nil ht h
      simpa using hb
  | varName hk =>
    obtain ⟨hn, rfl⟩ := expect_eq_ok h
    exact .inside ho (.varEqual hk hn) (by simp)
  | varEqual hk hn =>
    obtain ⟨hq, rfl⟩ := expect_eq_ok h
    exact .inside ho (.operand (.initial hk hn hq) .nil) (by simp)

end Steps

theorem Statements.snoc {u v : List Token} {ss : List Stmt} {d : Bool} {s : Stmt}
    (hs : Statements u ss) (h : Statement d v s) : Statements (u ++ v) (ss ++ [s]) := by
  have hone : Statements (v ++ []) [s] := .cons h .nil
  rw [List.append_nil] at hone
  exact hs.append hone

/-- What stands behind a settled statement when `k` is the kind of the next token. -/
def BehindSettled (k : TokenKind) (w : List Token) : Stage.Settled → Prop
  | .outermost s => ∃ d, Statement d w s
  | .within mode enclosing => ∃ b u v, w = u ++ v ∧ Opened b enclosing u ∧ Within b mode v
  | .atElse test yes enclosing => k = .kwElse ∧ ∃ w' i l u r v, w = w' ++ (i :: l :: u ++ r :: v) ∧
      Opened false enclosing w' ∧ i.kind = .kwIf ∧ l.kind = .leftParen ∧
      Phrase .expression u test ∧ r.kind = .rightParen ∧ Statement false v yes

/-- A statement that has swallowed an `if` without `else` is not followed by `else`. -/
theorem behind_settle {k : TokenKind} {enclosing : List Enclosing} {u : List Token}
    (ho : Opened false enclosing u) {d : Bool} {v : List Token} {s : Stmt} (hs : Statement d v s)
    (hd : d = true → k ≠ .kwElse) : BehindSettled k (u ++ v) (Stage.settle k s enclosing) := by
  induction enclosing generalizing u d v s with
  | nil =>
    cases ho
    exact ⟨d, hs⟩
  | cons head outer ih =>
    cases ho with
    | block ho hl hbefore =>
      have hall := hbefore.snoc hs
      rw [← List.reverse_cons] at hall
      exact ⟨false, _, [], by simp, .block ho hl hall, .statement⟩
    | @thenBranch i l r _ w x test ho hi hl ht hr =>
      by_cases hk : k = .kwElse
      · have hclosed : d = false := by
          cases d with
          | false => rfl
          | true => exact absurd hk (hd rfl)
        subst hclosed
        rw [Stage.settle, if_pos hk]
        exact ⟨hk, w, i, l, x, r, v, by simp, ho, hi, hl, ht, hr, hs⟩
      · rw [Stage.settle, if_neg hk]
        have h := ih ho (.ifThen hi hl ht hr hs) fun _ => hk
        simpa using h
    | elseBranch ho hi hl ht hr hy he =>
      have h := ih ho (.ifElse hi hl ht hr hy he hs) hd
      rw [Stage.settle]
      simpa using h
    | whileBody ho hk hl ht hr =>
      have h := ih ho (.while hk hl ht hr hs) hd
      rw [Stage.settle]
      simpa using h
    | @forBody i l z r _ w x y q init test step ho hf hl hi ht hz hx hr =>
      have h := ih ho (.for hf hl hi ht hz hx hr hs) hd
      rw [loop_eq_counting] at h
      rw [Stage.settle]
      simpa using h

theorem behind_finished {k : TokenKind} {s : Stmt} {enclosing : List Enclosing} {w : List Token}
    (h : Behind (.finished s enclosing) w) : BehindSettled k w (Stage.settle k s enclosing) := by
  cases h with
  | @finished b _ _ u v _ ho hs hw =>
    subst hw
    cases b with
    | false => exact behind_settle ho hs nofun
    | true =>
      -- the first clause of a loop is complete
      cases ho with
      | forInit ho hk hl => exact ⟨false, _, _, by simp, ho, .forTest hk hl (.some hs)⟩

/-- The words `w` have led to the reading. -/
def Reached (r : Reading) (w : List Token) : Prop :=
  ∃ stage u v, r.stage = some stage ∧ w = u ++ v ∧ Statements u r.statements.reverse ∧
    Behind stage v

theorem reached_proceed {mode : Mode} {enclosing : List Enclosing} {b : Bool} {r : Reading}
    {u v w : List Token} {t : Token} (hu : Statements u r.statements.reverse)
    (ho : Opened b enclosing v) (hm : Within b mode w) (ht : Carried t)
    (h : (r.proceed t (Stage.step mode enclosing t)).errors = []) :
    Reached (r.proceed t (Stage.step mode enclosing t)) (u ++ (v ++ w) ++ [t]) := by
  cases hstep : Stage.step mode enclosing t with
  | ok stage => exact ⟨stage, u, v ++ w ++ [t], rfl, by simp, hu, behind_step ho hm ht hstep⟩
  | error fault =>
    rw [hstep] at h
    cases h

/-- Reading a token without error adds it to the words. -/
theorem reached_feed {r : Reading} {w : List Token} {t : Token} (hr : Reached r w)
    (ht : Carried t) (h : (r.feed t).errors = []) : Reached (r.feed t) (w ++ [t]) := by
  obtain ⟨stage, u, v, hstage, rfl, hu, hv⟩ := hr
  unfold Reading.feed at h ⊢
  rw [hstage] at h ⊢
  cases stage with
  | inside mode enclosing =>
    cases hv with
    | inside ho hm hw =>
      subst hw
      exact reached_proceed hu ho hm ht h
  | finished s enclosing =>
    have hs := behind_finished (k := t.kind) hv
    dsimp only at h ⊢
    cases hsettle : Stage.settle t.kind s enclosing with
    | outermost s' =>
      rw [hsettle] at h hs
      obtain ⟨d, hs⟩ := hs
      have hall := hu.snoc hs
      rw [← List.reverse_cons] at hall
      have hp := reached_proceed (r := ⟨some (.finished s enclosing), s' :: r.statements, r.errors⟩)
        hall .nil .statement ht h
      rw [List.nil_append, List.append_nil] at hp
      exact hp
    | within mode enclosing' =>
      rw [hsettle] at h hs
      obtain ⟨b, x, y, rfl, ho, hm⟩ := hs
      exact reached_proceed hu ho hm ht h
    | atElse test yes enclosing' =>
      rw [hsettle] at hs
      obtain ⟨hk, w', i, l, x, q, y, rfl, ho, hi, hl, htest, hq, hyes⟩ := hs
      exact ⟨_, u, w' ++ (i :: l :: x ++ q :: y) ++ [t], rfl, by simp, hu,
        .inside (.elseBranch ho hi hl htest hq hyes hk) .statement (by simp)⟩

theorem reached_feeds {r : Reading} {w ts : List Token} (hr : Reached r w)
    (ht : ∀ t ∈ ts, Carried t) (h : (r.feeds ts).errors = []) :
    Reached (r.feeds ts) (w ++ ts) := by
  induction ts generalizing r w with
  | nil => exact (List.append_nil w).symm ▸ hr
  | cons t ts ih =>
    obtain ⟨ht, hts⟩ := List.forall_mem_cons.1 ht
    have hfirst := reached_feed hr ht (Reading.errors_nil_of_feeds h)
    rw [List.append_cons]
    exact ih hfirst hts h

theorem reached_start : Reached .start [] :=
  ⟨.start, [], [], rfl, rfl, .nil, .inside .nil .statement rfl⟩

/-- In no mode is the end read as part of a statement. -/
theorem step_eof {e : Token} (he : e.kind = .eof) (mode : Mode) (enclosing : List Enclosing) :
    ∃ fault, Stage.step mode enclosing e = .error fault := by
  have hoperand : ∀ ps purpose enclosing, Stage.operand ps purpose enclosing e =
      .error .expectedExpression := by
    intro ps purpose enclosing
    simp [Stage.operand, Stage.leaf?, he, UnaryOp.ofToken?]
  cases mode with
  | statement =>
    change ∃ fault, Stage.statement enclosing e = .error fault
    unfold Stage.statement
    split
    case h_8 => exact ⟨_, rfl⟩
    case h_9 => exact ⟨_, hoperand ..⟩
    all_goals next hk => simp [he] at hk
  | operand ps purpose => exact ⟨_, hoperand ..⟩
  | operator x ps purpose =>
    have hop : InfixOp.ofToken? e.kind = none := by rw [he]; rfl
    rw [Stage.step, Stage.operator, hop]
    dsimp only
    rw [if_neg (he ▸ by decide), Stage.ending]
    split
    · exact ⟨_, if_neg (he ▸ by decide)⟩
    · have hne : e.kind ≠ purpose.terminator.1 := by
        rcases purpose.terminator_kind with hp | hp <;> rw [he, hp] <;> decide
      exact ⟨_, if_neg hne⟩
  | forInit =>
    rw [Stage.step]
    split
    · next hk => simp [he] at hk
    · next hk => simp [he] at hk
    · exact ⟨_, hoperand ..⟩
  | forTest init => exact ⟨_, (if_neg (he ▸ by decide)).trans (hoperand ..)⟩
  | forStep init test => exact ⟨_, (if_neg (he ▸ by decide)).trans (hoperand ..)⟩
  | ifParen | whileParen | forParen | varName | varEqual x =>
    exact ⟨_, if_neg (he ▸ by decide)⟩

theorem unfinished_eq_nil {e : Token} (he : e.kind = .eof) {mode : Mode}
    {enclosing : List Enclosing} (h : Reading.unfinished mode enclosing e = []) :
    mode = .statement ∧ enclosing = [] := by
  unfold Reading.unfinished at h
  split at h
  · exact ⟨rfl, rfl⟩
  · obtain ⟨fault, hf⟩ := step_eof he mode enclosing
    rw [hf] at h
    cases h

theorem words_eq_nil {b : Bool} {u v : List Token} (ho : Opened b [] u)
    (hm : Within b .statement v) : u = [] ∧ v = [] := by
  cases ho
  cases hm
  exact ⟨rfl, rfl⟩

/-- Reading the end without error completes a program. -/
theorem statements_of_finish {r : Reading} {w : List Token} {e : Token} (hr : Reached r w)
    (he : e.kind = .eof) (h : (r.finish e).errors = []) :
    Statements w (r.finish e).statements.reverse := by
  obtain ⟨stage, u, v, hstage, rfl, hu, hv⟩ := hr
  unfold Reading.finish at h ⊢
  rw [hstage] at h ⊢
  cases stage with
  | inside mode enclosing =>
    obtain ⟨rfl, rfl⟩ := unfinished_eq_nil he (List.append_eq_nil_iff.1 h).1
    cases hv with
    | inside ho hm hw =>
      obtain ⟨rfl, rfl⟩ := words_eq_nil ho hm
      subst hw
      simpa using hu
  | finished s enclosing =>
    have hs := behind_finished (k := e.kind) hv
    dsimp only at h ⊢
    cases hsettle : Stage.settle e.kind s enclosing with
    | outermost s' =>
      rw [hsettle] at hs
      obtain ⟨d, hs⟩ := hs
      simpa using hu.snoc hs
    | within mode enclosing' =>
      rw [hsettle] at h hs
      obtain ⟨rfl, rfl⟩ := unfinished_eq_nil he (List.append_eq_nil_iff.1 h).1
      obtain ⟨b, x, y, rfl, ho, hm⟩ := hs
      obtain ⟨rfl, rfl⟩ := words_eq_nil ho hm
      simpa using hu
    | atElse test yes enclosing' =>
      rw [hsettle] at hs
      exact absurd (he.symm.trans hs.1) (by decide)

/-- What is read without error is a derivation of the program that comes out. -/
theorem statements_of_read {w : List Token} {e : Token} (he : e.kind = .eof)
    (hw : ∀ t ∈ w, Carried t) (h : ((Reading.start.feeds w).finish e).errors = []) :
    Statements w ((Reading.start.feeds w).finish e).statements.reverse :=
  statements_of_finish (reached_feeds reached_start hw (Reading.errors_nil_of_finish h)) he h

end Grammar

end TinyScript
