import TinyScript.Proofs.Lines
import TinyScript.Proofs.Literals
import TinyScript.Proofs.Sexp
import TinyScript.Syntax.Printer

/-!
The printed text of a program is that of its trees of words, and a reader takes the program out of
them again. Whatever stands in the program is in the text, but for the lines.
-/

namespace TinyScript

open Lexical

def Expr.sexp : Expr → Sexp
  | literal v => .word (Fragment.literal v)
  | group e => .form "group" [e.sexp]
  | unary op _ e => .form op.symbol [e.sexp]
  | binary op _ l r => .form op.symbol [l.sexp, r.sexp]
  | logical op l r => .form op.symbol [l.sexp, r.sexp]
  | assign x e => .form "=" [.word x.name, e.sexp]
  | var x => .word x.name

mutual

def Stmt.sexp : Stmt → Sexp
  | .expression e => e.sexp
  | .print e => .form "print" [e.sexp]
  | .declare x e => .form "var" [.word x.name, e.sexp]
  | .block body => .form "block" (sexpsIn body)
  | .ifThen test yes => .form "if" [test.sexp, yes.sexp]
  | .ifElse test yes no => .form "if" [test.sexp, yes.sexp, no.sexp]
  | .while test body => .form "while" [test.sexp, body.sexp]

def sexpsIn : List Stmt → List Sexp
  | [] => []
  | s :: ss => s.sexp :: sexpsIn ss

end

namespace Fragment

/-- What the fragment is written as. -/
def chars : Fragment → List Char
  | text s => s.toList
  | node (.expr e) => e.sexp.chars
  | node (.stmt s) => s.sexp.chars

theorem chars_body (ss : List Stmt) :
    (ss.flatMap fun s => [text " ", stmt s]).flatMap chars ++ [')'] = Sexp.tail (sexpsIn ss) := by
  induction ss with
  | nil => rfl
  | cons s ss ih =>
    rw [sexpsIn, Sexp.tail, ← ih]
    simp [chars, stmt]

/-- Taking a node apart does not change what is written. -/
theorem chars_ofNode (n : Node) : (ofNode n).flatMap chars = chars (node n) := by
  cases n with
  | expr e => cases e <;> simp [ofNode, chars, expr, Expr.sexp, Sexp.chars, Sexp.tail]
  | stmt s =>
    cases s with
    | block body =>
      have hbody := chars_body body
      simp only [ofNode, List.flatMap_append, List.flatMap_cons, List.flatMap_nil, chars,
        Stmt.sexp, Sexp.chars]
      simp [← hbody]
    | _ => simp [ofNode, chars, expr, stmt, Stmt.sexp, Sexp.chars, Sexp.tail]

theorem toList_write (out : String) (work : List Fragment) :
    (write out work).toList = out.toList ++ work.flatMap chars := by
  fun_induction write out work with
  | case1 out => simp
  | case2 out s rest ih =>
    rw [ih, String.toList_append, List.append_assoc]
    rfl
  | case3 out n rest ih => rw [ih, List.flatMap_append, chars_ofNode, List.flatMap_cons]

end Fragment

/-- A program is printed as the text of its trees, each on a line. -/
theorem Program.toList_display (program : List Stmt) :
    (Program.display program).toList = Sexp.lines (sexpsIn program) := by
  rw [display, Fragment.toList_write, String.toList_empty, List.nil_append]
  induction program with
  | nil => rfl
  | cons s ss ih =>
    rw [sexpsIn, Sexp.lines_cons, ← ih]
    simp [Fragment.chars, Fragment.stmt]

namespace Sexp

/-- The leaf that a word is, on line 0. -/
def leaf? (s : String) : Option Expr :=
  match s.toList with
  | [] => none
  | c :: rest => match (Piece.first c rest).1 with
    | .token k l => Stage.leaf? ⟨k, s, l, 0, ⟨0, 0⟩⟩
    | _ => none

/-- The nodes with one operand. -/
def prefixNode? : String → Option (Expr → Expr)
  | "group" => some .group
  | "-" => some (.unary .neg 0)
  | "!" => some (.unary .not 0)
  | _ => none

/-- The nodes with two operands. -/
def infixNode? (head : String) : Option (Expr → Expr → Expr) :=
  ((BinaryOp.all.find? (·.symbol == head)).map fun op => .binary op 0).or
    (([.and, .or].find? (LogicalOp.symbol · == head)).map .logical)

/-- The expression that is written like this, with all of it on line 0. -/
def expr? : Sexp → Option Expr
  | word s => leaf? s
  | form "=" [word x, e] => e.expr?.map (.assign ⟨x, 0⟩)
  | form head [e] => (prefixNode? head).bind fun node => e.expr?.map node
  | form head [l, r] => (infixNode? head).bind fun node => l.expr?.bind fun l => r.expr?.map (node l)
  | _ => none

mutual

/-- The statement that is written like this, with all of it on line 0. -/
def stmt? : Sexp → Option Stmt
  | form "print" [e] => e.expr?.map .print
  | form "var" [word x, e] => e.expr?.map (.declare ⟨x, 0⟩)
  | form "block" body => (stmts? body).map .block
  | form "if" [test, yes] => test.expr?.bind fun test => yes.stmt?.map (.ifThen test)
  | form "if" [test, yes, no] =>
    test.expr?.bind fun test => yes.stmt?.bind fun yes => no.stmt?.map (.ifElse test yes)
  | form "while" [test, body] => test.expr?.bind fun test => body.stmt?.map (.while test)
  | e => e.expr?.map .expression

def stmts? : List Sexp → Option (List Stmt)
  | [] => some []
  | s :: ss => s.stmt?.bind fun s => (stmts? ss).map (s :: ·)

end

/-- The word is a token that is a leaf by itself. -/
def Leaf (s : String) (e : Expr) : Prop := Word s ∧ leaf? s = some e

theorem leaf_of_cut {s : String} {k : TokenKind} {l : Option Literal} {e : Expr}
    (hk : k ≠ .leftParen) (hcut : ∀ rest, Delimited rest → Cut s.toList (.token k l) rest)
    (hleaf : Stage.leaf? ⟨k, s, l, 0, ⟨0, 0⟩⟩ = some e) : Leaf s e := by
  refine ⟨⟨k, l, hk, hcut⟩, ?_⟩
  have halone : Cut s.toList (.token k l) [] := hcut [] nofun
  obtain ⟨c, cs, hs⟩ := List.exists_cons_of_ne_nil halone.ne_nil
  rw [hs] at halone
  have hfirst := first_of_cut halone
  rw [List.append_nil] at hfirst
  simp only [leaf?, hs, hfirst, hleaf]

theorem letters_of_eq {s : String} {c : Char} {cs : List Char} (hs : s.toList = c :: cs)
    (hstart : startsName c) (hgoOn : cs.all continuesName) : Letters s :=
  ⟨c, cs, hs, hstart, List.all_eq_true.1 hgoOn⟩

theorem leaf_letters {s : String} {e : Expr} (hs : Letters s)
    (hleaf : Stage.leaf? ⟨wordKind s, s, none, 0, ⟨0, 0⟩⟩ = some e) : Leaf s e :=
  leaf_of_cut (wordKind_ne_leftParen s) (fun _ hrest => hs.cut hrest) hleaf

theorem word_head {s : String} (h : s ∈ ["group", "print", "var", "block", "if", "while"]) :
    Word s := by
  simp only [List.mem_cons, List.not_mem_nil, or_false] at h
  rcases h with rfl | rfl | rfl | rfl | rfl | rfl
  all_goals exact (letters_of_eq rfl rfl rfl).word

theorem word_unary (op : UnaryOp) : Word op.symbol := by
  cases op with
  | neg => exact word_punctuation (c := '-') (by decide) (by decide)
  | not => exact (word_operator (c := '!') (by decide)).1

theorem word_binary (op : BinaryOp) : Word op.symbol := by
  cases op with
  | add => exact word_punctuation (c := '+') (by decide) (by decide)
  | sub => exact word_punctuation (c := '-') (by decide) (by decide)
  | mul => exact word_punctuation (c := '*') (by decide) (by decide)
  | div => exact word_slash
  | rem => exact word_punctuation (c := '%') (by decide) (by decide)
  | eq => exact (word_operator (c := '=') (by decide)).2
  | ne => exact (word_operator (c := '!') (by decide)).2
  | lt => exact (word_operator (c := '<') (by decide)).1
  | le => exact (word_operator (c := '<') (by decide)).2
  | gt => exact (word_operator (c := '>') (by decide)).1
  | ge => exact (word_operator (c := '>') (by decide)).2

theorem word_logical (op : LogicalOp) : Word op.symbol := by
  cases op with
  | and | or => exact (letters_of_eq rfl rfl rfl).word

theorem word_equal : Word "=" := (word_operator (c := '=') (by decide)).1

end Sexp

/-- A value that a literal of a source can have. -/
def Value.Written : Value → Prop
  | number x => x.isFinite ∧ ∃ whole fraction, x = Decimal.read whole fraction
  | text s => '"' ∉ s.toList
  | _ => True

/-- A name that an identifier of a source can have. -/
def Ident.Written (x : Ident) : Prop := Sexp.Letters x.name ∧ wordKind x.name = .identifier

/-- An expression with the literals and names of a source. -/
def Expr.Written : Expr → Prop
  | literal v => v.Written
  | group e => e.Written
  | unary _ _ e => e.Written
  | binary _ _ l r => l.Written ∧ r.Written
  | logical _ l r => l.Written ∧ r.Written
  | assign x e => x.Written ∧ e.Written
  | var x => x.Written

mutual

def Stmt.Written : Stmt → Prop
  | .expression e => e.Written
  | .print e => e.Written
  | .declare x e => x.Written ∧ e.Written
  | .block body => WrittenIn body
  | .ifThen test yes => test.Written ∧ yes.Written
  | .ifElse test yes no => test.Written ∧ yes.Written ∧ no.Written
  | .while test body => test.Written ∧ body.Written

def WrittenIn : List Stmt → Prop
  | [] => True
  | s :: ss => s.Written ∧ WrittenIn ss

end

open Sexp

theorem Ident.leaf {x : Ident} (h : x.Written) : Leaf x.name (.var (x.mapLines fun _ => 0)) :=
  leaf_letters h.1 (by rw [h.2]; rfl)

theorem Value.leaf {v : Value} (h : v.Written) : Leaf (Fragment.literal v) (.literal v) := by
  cases v with
  | null => exact leaf_letters (letters_of_eq rfl rfl rfl) rfl
  | boolean b =>
    cases b with
    | true | false => exact leaf_letters (letters_of_eq rfl rfl rfl) rfl
  | text s =>
    refine leaf_of_cut (k := .string) (l := some (.text s)) (by decide) (fun rest _ => ?_) rfl
    have hlist : (Fragment.literal (.text s)).toList = '"' :: (s.toList ++ ['"']) := by
      simp [Fragment.literal]
    have hcut : Cut ('"' :: (s.toList ++ ['"'])) _ rest := .text h
    rwa [String.ofList_toList, ← hlist] at hcut
  | number x =>
    obtain ⟨hfinite, whole, fraction, rfl⟩ := h
    obtain ⟨whole', fraction', hne, hwhole, hfraction, htext, hvalue⟩ :=
      Decimal.write_read hfinite
    refine leaf_of_cut (k := .number) (l := some (.number (Decimal.read whole fraction)))
      (by decide) (fun rest hrest => ?_) rfl
    have hlist : (Fragment.literal (.number (Decimal.read whole fraction))).toList =
        Decimal.point whole' fraction' := by
      have hliteral : Fragment.literal (.number (Decimal.read whole fraction)) =
          Decimal.write (Decimal.read whole fraction) := rfl
      rw [hliteral, htext, String.toList_ofList]
    rw [hlist, hvalue]
    exact cut_point hne hwhole hfraction (delimited_stops (by decide) hrest)
      (hrest.head_ne (by decide))

theorem Expr.sound_sexp {e : Expr} (h : e.Written) : e.sexp.Sound := by
  induction e with
  | literal v => exact .word (Value.leaf h).1
  | group e ih => exact .form (word_head (by simp)) (by simpa using ih h)
  | unary op line e ih => exact .form (word_unary op) (by simpa using ih h)
  | binary op line l r ihl ihr =>
    exact .form (word_binary op) (by simpa using ⟨ihl h.1, ihr h.2⟩)
  | logical op l r ihl ihr =>
    exact .form (word_logical op) (by simpa using ⟨ihl h.1, ihr h.2⟩)
  | assign x e ih =>
    exact .form word_equal (by simpa using ⟨.word (Ident.leaf h.1).1, ih h.2⟩)
  | var x => exact .word (Ident.leaf h).1

mutual

theorem Stmt.sound_sexp : ∀ {s : Stmt}, s.Written → s.sexp.Sound
  | .expression _, h => Expr.sound_sexp h
  | .print _, h => .form (word_head (by simp)) (by simpa using Expr.sound_sexp h)
  | .declare _ _, h => .form (word_head (by simp))
      (by simpa using ⟨.word (Ident.leaf h.1).1, Expr.sound_sexp h.2⟩)
  | .block _, h => .form (word_head (by simp)) (sound_sexpsIn h)
  | .ifThen _ _, h => .form (word_head (by simp))
      (by simpa using ⟨Expr.sound_sexp h.1, Stmt.sound_sexp h.2⟩)
  | .ifElse _ _ _, h => .form (word_head (by simp))
      (by simpa using ⟨Expr.sound_sexp h.1, Stmt.sound_sexp h.2.1, Stmt.sound_sexp h.2.2⟩)
  | .while _ _, h => .form (word_head (by simp))
      (by simpa using ⟨Expr.sound_sexp h.1, Stmt.sound_sexp h.2⟩)

theorem sound_sexpsIn : ∀ {ss : List Stmt}, WrittenIn ss → ∀ x ∈ sexpsIn ss, x.Sound
  | [], _ => nofun
  | _ :: _, h => List.forall_mem_cons.2 ⟨Stmt.sound_sexp h.1, sound_sexpsIn h.2⟩

end

theorem prefixNode?_symbol (op : UnaryOp) : prefixNode? op.symbol = some (.unary op 0) := by
  cases op <;> rfl

/-- An operator with two operands is read as such, since no assignment starts with it. -/
theorem infixNode?_binary (op : BinaryOp) :
    infixNode? op.symbol = some (.binary op 0) ∧ op.symbol ≠ "=" := by
  cases op <;> exact ⟨rfl, by decide⟩

theorem infixNode?_logical (op : LogicalOp) :
    infixNode? op.symbol = some (.logical op) ∧ op.symbol ≠ "=" := by
  cases op <;> exact ⟨rfl, by decide⟩

theorem Sexp.expr?_infix {head : String} {node : Expr → Expr → Expr}
    (h : infixNode? head = some node ∧ head ≠ "=") (l r : Sexp) :
    (form head [l, r]).expr? = l.expr?.bind fun l => r.expr?.map (node l) := by
  simp [expr?, h]

/-- The reader finds the expression, but for its lines. -/
theorem Expr.expr?_sexp {e : Expr} (h : e.Written) :
    e.sexp.expr? = some (e.mapLines fun _ => 0) := by
  induction e with
  | literal v => exact (Value.leaf h).2
  | group e ih => simp [sexp, expr?, prefixNode?, ih h, mapLines]
  | unary op line e ih => simp [sexp, expr?, prefixNode?_symbol, ih h, mapLines]
  | binary op line l r ihl ihr =>
    rw [sexp, expr?_infix (infixNode?_binary op), ihl h.1, ihr h.2]
    rfl
  | logical op l r ihl ihr =>
    rw [sexp, expr?_infix (infixNode?_logical op), ihl h.1, ihr h.2]
    rfl
  | assign x e ih => simp [sexp, expr?, ih h.2, mapLines, Ident.mapLines]
  | var x => exact (Ident.leaf h).2

/-- What is written like an expression is read as one. -/
theorem Expr.stmt?_sexp (e : Expr) : e.sexp.stmt? = e.sexp.expr?.map .expression := by
  cases e with
  | literal v => rfl
  | group e => rfl
  | unary op line e => cases op <;> rfl
  | binary op line l r => cases op <;> rfl
  | logical op l r => cases op <;> rfl
  | assign x e => rfl
  | var x => rfl

mutual

/-- The reader finds the statement, but for its lines. -/
theorem Stmt.stmt?_sexp : ∀ {s : Stmt}, s.Written → s.sexp.stmt? = some (s.mapLines fun _ => 0)
  | .expression e, h => by
    rw [Stmt.sexp, Expr.stmt?_sexp, Expr.expr?_sexp h]
    rfl
  | .print e, h => by
    rw [Stmt.sexp, Sexp.stmt?, Expr.expr?_sexp h]
    rfl
  | .declare x e, h => by
    rw [Stmt.sexp, Sexp.stmt?, Expr.expr?_sexp h.2]
    rfl
  | .block body, h => by
    rw [Stmt.sexp, Sexp.stmt?, stmts?_sexpsIn h]
    rfl
  | .ifThen test yes, h => by
    rw [Stmt.sexp, Sexp.stmt?, Expr.expr?_sexp h.1, Stmt.stmt?_sexp h.2]
    rfl
  | .ifElse test yes no, h => by
    rw [Stmt.sexp, Sexp.stmt?, Expr.expr?_sexp h.1, Stmt.stmt?_sexp h.2.1, Stmt.stmt?_sexp h.2.2]
    rfl
  | .while test body, h => by
    rw [Stmt.sexp, Sexp.stmt?, Expr.expr?_sexp h.1, Stmt.stmt?_sexp h.2]
    rfl

theorem stmts?_sexpsIn : ∀ {ss : List Stmt}, WrittenIn ss →
    stmts? (sexpsIn ss) = some (mapLinesIn (fun _ => 0) ss)
  | [], _ => rfl
  | s :: ss, h => by
    rw [sexpsIn, stmts?, Stmt.stmt?_sexp h.1, stmts?_sexpsIn h.2]
    rfl

end

/-- Programs that are printed alike differ in their lines only. -/
theorem Program.eq_of_display {a b : List Stmt} (ha : WrittenIn a) (hb : WrittenIn b)
    (h : display a = display b) : mapLinesIn (fun _ => 0) a = mapLinesIn (fun _ => 0) b := by
  have hlines := congrArg String.toList h
  rw [toList_display, toList_display] at hlines
  have hsame := lines_unique (sound_sexpsIn ha) (sound_sexpsIn hb) hlines
  have hread := stmts?_sexpsIn ha
  rw [hsame, stmts?_sexpsIn hb] at hread
  exact (Option.some.inj hread).symm

end TinyScript
