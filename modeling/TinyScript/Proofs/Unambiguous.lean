import Mathlib.Data.List.Forall2
import TinyScript.Proofs.Printing
import TinyScript.Proofs.Tiling

/-!
Printed programs are unambiguous. Two sources without errors have the same program if and only if
they are printed alike and have the same lines recorded in the same order.
-/

namespace TinyScript

/-- The line that a node records. -/
def Label.line? : Label → Option Nat
  | unary _ line => some line
  | binary _ line => some line
  | assign x => some x.line
  | var x => some x.line
  | declare x => some x.line
  | _ => none

/-- The number of children. -/
def Label.arity : Label → Nat
  | literal _ => 0
  | group => 1
  | unary _ _ => 1
  | binary _ _ => 2
  | logical _ => 2
  | assign _ => 1
  | var _ => 0
  | expression => 1
  | print => 1
  | declare _ => 1
  | block size => size
  | ifThen => 2
  | ifElse => 3
  | .while => 2

/-- The recorded lines, those of a node before those of its children. -/
def Program.lines (program : List Stmt) : List Nat :=
  (outline program).filterMap fun x => x.2.line?

def Expr.lines : Expr → List Nat
  | literal _ => []
  | group e => e.lines
  | unary _ line e => line :: e.lines
  | binary _ line l r => line :: (l.lines ++ r.lines)
  | logical _ l r => l.lines ++ r.lines
  | assign x e => x.line :: e.lines
  | var x => [x.line]

mutual

def Stmt.lines : Stmt → List Nat
  | .expression e => e.lines
  | .print e => e.lines
  | .declare x e => x.line :: e.lines
  | .block body => linesIn body
  | .ifThen test yes => test.lines ++ yes.lines
  | .ifElse test yes no => test.lines ++ (yes.lines ++ no.lines)
  | .while test body => test.lines ++ body.lines

def linesIn : List Stmt → List Nat
  | [] => []
  | s :: ss => s.lines ++ linesIn ss

end

namespace Node

def lines : Node → List Nat
  | expr e => e.lines
  | stmt s => s.lines

theorem lines_body (ss : List Stmt) : (ss.map stmt).flatMap lines = linesIn ss := by
  induction ss with
  | nil => rfl
  | cons s ss ih =>
    rw [List.map_cons, List.flatMap_cons, ih]
    rfl

theorem lines_eq (n : Node) : n.lines = n.label.line?.toList ++ n.children.flatMap lines := by
  cases n with
  | expr e => cases e <;> simp [lines, Expr.lines, label, Label.line?, children]
  | stmt s =>
    cases s with
    | block body =>
      rw [children, lines_body]
      rfl
    | _ => simp [lines, Stmt.lines, label, Label.line?, children]

theorem filterMap_outlineFrom (seen : List (Nat × Label)) (work : List (Nat × Node)) :
    (outlineFrom seen work).filterMap (fun x => x.2.line?) =
      (work.flatMap fun x => x.2.lines).reverse ++ seen.filterMap fun x => x.2.line? := by
  fun_induction outlineFrom seen work with
  | case1 seen => rfl
  | case2 seen depth n rest ih =>
    rw [ih, List.flatMap_append, List.flatMap_map, List.flatMap_cons, lines_eq n]
    cases hline : n.label.line? <;> simp [hline]

end Node

theorem Program.lines_eq (program : List Stmt) : lines program = linesIn program := by
  rw [lines, outline, List.filterMap_reverse, Node.filterMap_outlineFrom, List.filterMap_nil,
    List.append_nil, List.reverse_reverse, ← Node.lines_body, List.flatMap_map, List.flatMap_map]

section Lines

variable {f : Nat → Nat} {r r' : List Nat}

theorem Ident.eq_of_line {x y : Ident} (h : x.mapLines f = y.mapLines f) (hline : x.line = y.line) :
    x = y := by
  obtain ⟨name, line⟩ := x
  obtain ⟨name', line'⟩ := y
  obtain rfl : name = name' := congrArg Ident.name h
  obtain rfl : line = line' := hline
  rfl

/-- What is the same but for its lines is the same if the lines are. -/
theorem Expr.eq_of_lines {e e' : Expr} (h : e.mapLines f = e'.mapLines f)
    (hlines : e.lines ++ r = e'.lines ++ r') : e = e' ∧ r = r' := by
  induction e generalizing e' r r' with
  | literal v =>
    cases e' with
    | literal v' =>
      cases h
      exact ⟨rfl, hlines⟩
    | _ => cases h
  | group e ih =>
    cases e' with
    | group e' =>
      obtain ⟨rfl, hr⟩ := ih (Expr.group.inj h) hlines
      exact ⟨rfl, hr⟩
    | _ => cases h
  | unary op line e ih =>
    cases e' with
    | unary op' line' e' =>
      obtain ⟨rfl, -, he⟩ := Expr.unary.inj h
      obtain ⟨rfl, hrest⟩ := List.cons.inj hlines
      obtain ⟨rfl, hr⟩ := ih he hrest
      exact ⟨rfl, hr⟩
    | _ => cases h
  | binary op line l r ihl ihr =>
    cases e' with
    | binary op' line' l' r' =>
      obtain ⟨rfl, -, hl, hr⟩ := Expr.binary.inj h
      simp only [lines, List.cons_append, List.cons.injEq, List.append_assoc] at hlines
      obtain ⟨rfl, hboth⟩ := hlines
      obtain ⟨rfl, hrest⟩ := ihl hl hboth
      obtain ⟨rfl, hend⟩ := ihr hr hrest
      exact ⟨rfl, hend⟩
    | _ => cases h
  | logical op l r ihl ihr =>
    cases e' with
    | logical op' l' r' =>
      obtain ⟨rfl, hl, hr⟩ := Expr.logical.inj h
      rw [lines, lines, List.append_assoc, List.append_assoc] at hlines
      obtain ⟨rfl, hrest⟩ := ihl hl hlines
      obtain ⟨rfl, hend⟩ := ihr hr hrest
      exact ⟨rfl, hend⟩
    | _ => cases h
  | assign x e ih =>
    cases e' with
    | assign x' e' =>
      obtain ⟨hx, he⟩ := Expr.assign.inj h
      obtain ⟨hline, hrest⟩ := List.cons.inj hlines
      obtain rfl := Ident.eq_of_line hx hline
      obtain ⟨rfl, hr⟩ := ih he hrest
      exact ⟨rfl, hr⟩
    | _ => cases h
  | var x =>
    cases e' with
    | var x' =>
      obtain ⟨hline, hr⟩ := List.cons.inj hlines
      obtain rfl := Ident.eq_of_line (Expr.var.inj h) hline
      exact ⟨rfl, hr⟩
    | _ => cases h

mutual

theorem Stmt.eq_of_lines : ∀ {s s' : Stmt}, s.mapLines f = s'.mapLines f → ∀ {r r' : List Nat},
    s.lines ++ r = s'.lines ++ r' → s = s' ∧ r = r'
  | .expression e, s', h, r, r', hlines => by
    cases s' with
    | expression e' =>
      obtain ⟨rfl, hr⟩ := Expr.eq_of_lines (Stmt.expression.inj h) hlines
      exact ⟨rfl, hr⟩
    | _ => cases h
  | .print e, s', h, r, r', hlines => by
    cases s' with
    | print e' =>
      obtain ⟨rfl, hr⟩ := Expr.eq_of_lines (Stmt.print.inj h) hlines
      exact ⟨rfl, hr⟩
    | _ => cases h
  | .declare x e, s', h, r, r', hlines => by
    cases s' with
    | declare x' e' =>
      obtain ⟨hx, he⟩ := Stmt.declare.inj h
      obtain ⟨hline, hrest⟩ := List.cons.inj hlines
      obtain rfl := Ident.eq_of_line hx hline
      obtain ⟨rfl, hr⟩ := Expr.eq_of_lines he hrest
      exact ⟨rfl, hr⟩
    | _ => cases h
  | .block body, s', h, r, r', hlines => by
    cases s' with
    | block body' =>
      obtain ⟨rfl, hr⟩ := eq_of_linesIn (Stmt.block.inj h) hlines
      exact ⟨rfl, hr⟩
    | _ => cases h
  | .ifThen test yes, s', h, r, r', hlines => by
    cases s' with
    | ifThen test' yes' =>
      obtain ⟨htest, hyes⟩ := Stmt.ifThen.inj h
      rw [Stmt.lines, Stmt.lines, List.append_assoc, List.append_assoc] at hlines
      obtain ⟨rfl, hrest⟩ := Expr.eq_of_lines htest hlines
      obtain ⟨rfl, hr⟩ := Stmt.eq_of_lines hyes hrest
      exact ⟨rfl, hr⟩
    | _ => cases h
  | .ifElse test yes no, s', h, r, r', hlines => by
    cases s' with
    | ifElse test' yes' no' =>
      obtain ⟨htest, hyes, hno⟩ := Stmt.ifElse.inj h
      simp only [Stmt.lines, List.append_assoc] at hlines
      obtain ⟨rfl, hboth⟩ := Expr.eq_of_lines htest hlines
      obtain ⟨rfl, hrest⟩ := Stmt.eq_of_lines hyes hboth
      obtain ⟨rfl, hr⟩ := Stmt.eq_of_lines hno hrest
      exact ⟨rfl, hr⟩
    | _ => cases h
  | .while test body, s', h, r, r', hlines => by
    cases s' with
    | «while» test' body' =>
      obtain ⟨htest, hbody⟩ := Stmt.while.inj h
      rw [Stmt.lines, Stmt.lines, List.append_assoc, List.append_assoc] at hlines
      obtain ⟨rfl, hrest⟩ := Expr.eq_of_lines htest hlines
      obtain ⟨rfl, hr⟩ := Stmt.eq_of_lines hbody hrest
      exact ⟨rfl, hr⟩
    | _ => cases h

theorem eq_of_linesIn : ∀ {ss ss' : List Stmt}, mapLinesIn f ss = mapLinesIn f ss' →
    ∀ {r r' : List Nat}, linesIn ss ++ r = linesIn ss' ++ r' → ss = ss' ∧ r = r'
  | [], ss', h, r, r', hlines => by
    cases ss' with
    | nil => exact ⟨rfl, hlines⟩
    | cons s' ss' => cases h
  | s :: ss, ss', h, r, r', hlines => by
    cases ss' with
    | nil => cases h
    | cons s' ss' =>
      obtain ⟨hs, hss⟩ := List.cons.inj h
      rw [linesIn, linesIn, List.append_assoc, List.append_assoc] at hlines
      obtain ⟨rfl, hrest⟩ := Stmt.eq_of_lines hs hlines
      obtain ⟨rfl, hr⟩ := eq_of_linesIn hss hrest
      exact ⟨rfl, hr⟩

end

end Lines

/-- The literal is not too large for a double. -/
def Literal.Bounded : Literal → Prop
  | number x => x.isInf = false
  | text _ => True

instance : DecidablePred Literal.Bounded
  | .number x => inferInstanceAs (Decidable (x.isInf = false))
  | .text _ => inferInstanceAs (Decidable True)

/-- No literal of the source is infinite. -/
def Scanned.Bounded (r : Scanned) : Prop := ∀ t ∈ r.tokens, ∀ l ∈ t.literal, l.Bounded

instance (r : Scanned) : Decidable r.Bounded :=
  inferInstanceAs (Decidable (∀ t ∈ r.tokens, ∀ l ∈ t.literal, l.Bounded))

theorem eq_iff_zip {α : Type} {xs ys : List α} :
    xs = ys ↔ xs.length = ys.length ∧ ∀ p ∈ xs.zip ys, p.1 = p.2 := by
  rw [← List.forall₂_eq_eq_eq, List.forall₂_iff_zip]
  exact and_congr_right fun _ => ⟨fun h p hp => h hp, fun h _ _ hp => h _ hp⟩

theorem Value.same_iff {v w : Value} (hv : v.Written) : v.same w = true ↔ v = w := by
  cases v with
  | number x =>
    cases w with
    | number y =>
      have hnan : x.isNaN = false := Binary64.not_isNaN_of_isFinite hv.1
      simp only [same, sameNumber, hnan, Bool.false_eq_true, if_false, beq_iff_eq, number.injEq]
      exact ⟨Binary64.eq_of_word, congrArg Binary64.word⟩
    | _ => simp [same]
  | _ => cases w <;> simp [same]

namespace Node

def Written : Node → Prop
  | expr e => e.Written
  | stmt s => s.Written

theorem written_body {ss : List Stmt} (h : WrittenIn ss) : ∀ n ∈ ss.map stmt, n.Written := by
  induction ss with
  | nil => nofun
  | cons s ss ih => exact List.forall_mem_cons.2 ⟨h.1, ih h.2⟩

theorem Written.children {n : Node} (h : n.Written) : ∀ c ∈ n.children, c.Written := by
  cases n with
  | expr e => cases e <;> simp_all [Node.children, Written, Expr.Written]
  | stmt s =>
    cases s with
    | block body => exact written_body h
    | _ => simp_all [Node.children, Written, Stmt.Written]

theorem Written.same_iff {n m : Node} (h : n.Written) :
    n.label.same m.label = true ↔ n.label = m.label := by
  generalize m.label = l
  cases n with
  | expr e =>
    cases e with
    | literal v => cases l <;> simp [label, Label.same, Value.same_iff (v := v) h]
    | _ => cases l <;> simp [label, Label.same]
  | stmt s => cases s <;> cases l <;> simp [label, Label.same]

theorem length_children (n : Node) : n.children.length = n.label.arity := by
  cases n with
  | expr e => cases e <;> rfl
  | stmt s =>
    cases s with
    | block body => exact List.length_map stmt
    | _ => rfl

/-- A node is its label and its children. -/
theorem ext {a b : Node} (hl : a.label = b.label) (hc : a.children = b.children) : a = b := by
  rcases a with e | s
  · rcases b with e' | s'
    · cases e <;> cases e' <;> cases hl <;> simp_all [children]
    · cases e <;> cases s' <;> cases hl
  · rcases b with e' | s'
    · cases s <;> cases e' <;> cases hl
    · cases s <;> cases s' <;> simp_all [label, children]
      -- two blocks
      exact List.map_injective_iff.2 (fun _ _ => Node.stmt.inj) hc

/-- Of nodes with the words of a source, those that are the same are equal. -/
theorem allSame_iff {work : List (Node × Node)} (h : ∀ p ∈ work, p.1.Written) :
    allSame work = true ↔ ∀ p ∈ work, p.1 = p.2 := by
  fun_induction allSame work with
  | case1 => simp
  | case2 a b rest hsame ih =>
    obtain ⟨ha, hrest⟩ := List.forall_mem_cons.1 h
    have hlabel := ha.same_iff.1 hsame
    have hlength : a.children.length = b.children.length := by
      rw [length_children, length_children, hlabel]
    have hzip : (∀ p ∈ a.children.zip b.children, p.1 = p.2) ↔ a = b := by
      constructor
      · intro hp
        exact ext hlabel (eq_iff_zip.2 ⟨hlength, hp⟩)
      · rintro rfl
        exact (eq_iff_zip.1 rfl).2
    rw [ih ?_, List.forall_mem_append, List.forall_mem_cons, hzip]
    intro p hp
    rcases List.mem_append.1 hp with hp | hp
    · exact ha.children p.1 (List.of_mem_zip hp).1
    · exact hrest p hp
  | case3 a b rest hsame =>
    refine iff_of_false Bool.false_ne_true fun hall => hsame ?_
    have ha := (List.forall_mem_cons.1 h).1
    exact ha.same_iff.2 (congrArg label (List.forall_mem_cons.1 hall).1)

end Node

theorem mem_written {ss : List Stmt} (h : WrittenIn ss) : ∀ s ∈ ss, s.Written := by
  induction ss with
  | nil => nofun
  | cons s ss ih => exact List.forall_mem_cons.2 ⟨h.1, ih h.2⟩

/-- Programs of sources are the same if and only if they are equal. -/
theorem Program.same_iff {a b : List Stmt} (ha : WrittenIn a) : same a b = true ↔ a = b := by
  have hwork : ∀ p ∈ (a.zip b).map fun p => (Node.stmt p.1, Node.stmt p.2), p.1.Written := by
    intro p hp
    obtain ⟨q, hq, rfl⟩ := List.mem_map.1 hp
    exact mem_written ha q.1 (List.of_mem_zip hq).1
  rw [same, Bool.and_eq_true, beq_iff_eq, Node.allSame_iff hwork, eq_iff_zip]
  refine and_congr_right fun _ => ⟨fun h p hp => ?_, fun h p hp => ?_⟩
  · exact Node.stmt.inj (h _ (List.mem_map_of_mem hp))
  · obtain ⟨q, hq, rfl⟩ := List.mem_map.1 hp
    exact congrArg Node.stmt (h q hq)

/-- A program is its printed text and its lines. -/
theorem Program.same_iff_display {a b : List Stmt} (ha : WrittenIn a) (hb : WrittenIn b) :
    same a b = true ↔ display a = display b ∧ lines a = lines b := by
  rw [same_iff ha, lines_eq, lines_eq]
  constructor
  · rintro rfl
    exact ⟨rfl, rfl⟩
  · rintro ⟨hdisplay, hlines⟩
    have hrest : linesIn a ++ [] = linesIn b ++ [] := by rw [hlines]
    exact (eq_of_linesIn (eq_of_display ha hb hdisplay) hrest).1

/-- The token has a name or a value that a source can have. -/
structure Token.Written (t : Token) : Prop where
  name : t.kind = .identifier → Ident.Written ⟨t.lexeme, t.line⟩
  value : ∀ l, t.literal = some l → l.toValue.Written

section Tokens

open Lexical

theorem Lexical.name_of_cut {text rest : List Char} {l : Option Literal}
    (h : Cut text (.token .identifier l) rest) (line : Nat) :
    Ident.Written ⟨String.ofList text, line⟩ := by
  have hpunctuation : ∀ x ∈ punctuation, x.2 ≠ .identifier := by decide
  have hoperators : ∀ x ∈ operators, x.2.1 ≠ .identifier ∧ x.2.2 ≠ .identifier := by decide
  generalize hp : Piece.token .identifier l = p at h
  cases h with
  | word hstart hgoOn _ =>
    have hkind := (Piece.token.inj hp).1
    exact ⟨⟨_, _, String.toList_ofList, hstart, hgoOn⟩, hkind.symm⟩
  | punctuation h => exact absurd (Piece.token.inj hp).1.symm (hpunctuation _ h)
  | single h _ => exact absurd (Piece.token.inj hp).1.symm (hoperators _ h).1
  | double h => exact absurd (Piece.token.inj hp).1.symm (hoperators _ h).2
  | _ => cases hp

theorem Lexical.value_of_cut {text rest : List Char} {k : TokenKind} {l : Literal}
    (h : Cut text (.token k (some l)) rest) (hbound : l.Bounded) : l.toValue.Written := by
  cases h with
  | text h => simpa [Literal.toValue, Value.Written] using h
  | whole => exact ⟨Decimal.isFinite_read hbound, _, _, rfl⟩
  | decimal => exact ⟨Decimal.isFinite_read hbound, _, _, rfl⟩

theorem written_words {source : String} (h : (scan source).Bounded) :
    ∀ t ∈ words source, t.Written := by
  intro t ht
  obtain ⟨s, hs, hst⟩ := List.mem_filterMap.1 ht
  obtain ⟨k, l, hpiece, rfl⟩ := Stretch.token?_eq_some hst
  obtain ⟨before, after, -, -, -, hcut⟩ := Stretch.cut_of_mem hs
  rw [hpiece] at hcut
  refine ⟨?_, ?_⟩
  · intro hk
    dsimp only at hk
    rw [hk] at hcut
    exact name_of_cut hcut _
  · intro l' hl'
    dsimp only at hl'
    rw [hl'] at hcut
    have hmem : (⟨k, String.ofList s.text, l, s.after.line, s.span⟩ : Token) ∈
        (scan source).tokens := by
      rw [scan_eq]
      exact List.mem_append_left _ ht
    exact value_of_cut hcut (h _ hmem l' hl')

end Tokens

namespace Grammar

theorem Category.written_chain? {c : Category} {k : TokenKind} {node : Nat → Expr → Expr → Expr}
    (h : c.chain? k = some node) (line : Nat) {a b : Expr} (ha : a.Written) (hb : b.Written) :
    (node line a b).Written := by
  unfold chain? at h
  split at h
  all_goals cases h
  all_goals exact ⟨ha, hb⟩

theorem Phrase.written {c : Category} {w : List Token} {e : Expr} (h : Phrase c w e)
    (hw : ∀ t ∈ w, t.Written) : e.Written := by
  induction h with
  | literal ht hl => exact (hw _ List.mem_cons_self).value _ hl
  | true ht => trivial
  | false ht => trivial
  | null ht => trivial
  | name ht => exact (hw _ List.mem_cons_self).name ht
  | group hl _ hr ih => exact ih fun t ht => hw t (by simp [ht])
  | unary ht _ ih => exact ih fun t ht => hw t (by simp [ht])
  | product _ ht _ iha ihb =>
    exact ⟨iha fun t ht => hw t (by simp [ht]), ihb fun t ht => hw t (by simp [ht])⟩
  | chain _ ht _ iha ihb =>
    exact Category.written_chain? ht _ (iha fun t ht => hw t (by simp [ht]))
      (ihb fun t ht => hw t (by simp [ht]))
  | assign _ ht _ ihx ihe =>
    exact ⟨ihx fun t ht => hw t (by simp [ht]), ihe fun t ht => hw t (by simp [ht])⟩
  | operand hc _ ih => exact ih hw

theorem Simple.written {w : List Token} {s : Stmt} (h : Simple w s) (hw : ∀ t ∈ w, t.Written) :
    s.Written := by
  cases h with
  | declare hk hn hq he hz =>
    exact ⟨(hw _ (by simp)).name hn, he.written fun t ht => hw t (by simp [ht])⟩
  | expression he hz => exact he.written fun t ht => hw t (by simp [ht])

theorem Test.written {w : List Token} {test : Expr} (h : Test w test)
    (hw : ∀ t ∈ w, t.Written) : test.Written := by
  cases h with
  | none => trivial
  | some he => exact he.written hw

theorem written_loop {w x : List Token} {init : Option Stmt} {test : Expr} {step : Option Expr}
    {body : Stmt} (hi : Initializer w init) (hx : Step x step) (hw : ∀ t ∈ w, t.Written)
    (hxw : ∀ t ∈ x, t.Written) (htest : test.Written) (hbody : body.Written) :
    (loop init test step body).Written := by
  cases hi with
  | none hz =>
    cases hx with
    | none => exact ⟨htest, hbody⟩
    | some he => exact ⟨htest, hbody, he.written hxw, trivial⟩
  | some hs =>
    cases hx with
    | none => exact ⟨hs.written hw, ⟨htest, hbody⟩, trivial⟩
    | some he => exact ⟨hs.written hw, ⟨htest, hbody, he.written hxw, trivial⟩, trivial⟩

mutual

theorem Statement.written : {d : Bool} → {w : List Token} → {s : Stmt} → Statement d w s →
    (∀ t ∈ w, t.Written) → s.Written
  | _, _, _, .simple hs, hw => hs.written hw
  | _, _, _, .print hk he hz, hw => he.written fun t ht => hw t (by simp [ht])
  | _, _, _, .block hl hs hr, hw => hs.written fun t ht => hw t (by simp [ht])
  | _, _, _, .ifThen hk hl ht hr hy, hw =>
    ⟨ht.written fun t ht => hw t (by simp [ht]), hy.written fun t ht => hw t (by simp [ht])⟩
  | _, _, _, .ifElse hk hl ht hr hy ho hn, hw =>
    ⟨ht.written fun t ht => hw t (by simp [ht]), hy.written fun t ht => hw t (by simp [ht]),
      hn.written fun t ht => hw t (by simp [ht])⟩
  | _, _, _, .while hk hl ht hr hb, hw =>
    ⟨ht.written fun t ht => hw t (by simp [ht]), hb.written fun t ht => hw t (by simp [ht])⟩
  | _, _, _, .for hk hl hi ht hz hx hr hb, hw =>
    written_loop hi hx (fun t ht => hw t (by simp [ht])) (fun t ht => hw t (by simp [ht]))
      (ht.written fun t ht => hw t (by simp [ht])) (hb.written fun t ht => hw t (by simp [ht]))

theorem Statements.written : {w : List Token} → {ss : List Stmt} → Statements w ss →
    (∀ t ∈ w, t.Written) → WrittenIn ss
  | _, _, .nil, _ => trivial
  | _, _, .cons hs hr, hw =>
    ⟨hs.written fun t ht => hw t (by simp [ht]), hr.written fun t ht => hw t (by simp [ht])⟩

end

end Grammar

theorem Script.written {source : String} {recover : Bool} {ss : List Stmt}
    (h : Script.read source recover = ⟨ss, []⟩) (hbound : (scan source).Bounded) : WrittenIn ss :=
  (read_eq_iff.1 h).2.written (written_words hbound)

/-- Two sources without errors and without an infinite literal have the same program, lines
included, if and only if the programs are printed alike and record the same lines in the same
order. So what is printed alike differs in its lines at most. -/
theorem printed_alike_iff_same {a b : String} {recover recover' : Bool} {ss ts : List Stmt}
    (ha : Script.read a recover = ⟨ss, []⟩) (hb : Script.read b recover' = ⟨ts, []⟩)
    (hafinite : (scan a).Bounded) (hbfinite : (scan b).Bounded) :
    (Program.same ss ts = true ↔
      Program.display ss = Program.display ts ∧ Program.lines ss = Program.lines ts) ∧
    (Program.display ss = Program.display ts →
      mapLinesIn (fun _ => 0) ss = mapLinesIn (fun _ => 0) ts) := by
  have hss := Script.written ha hafinite
  have hts := Script.written hb hbfinite
  exact ⟨Program.same_iff_display hss hts, Program.eq_of_display hss hts⟩

/-- A name and its equals sign may stand on two lines, and the text of the program is the same. -/
theorem broken_line_printed_alike :
    let a := "x = -1.5; \"(a b)\";"
    let b := "x\n= -1.5; \"(a b)\";"
    let ss := (Script.read a false).statements
    let ts := (Script.read b false).statements
    Script.read a false = ⟨ss, []⟩ ∧ Script.read b false = ⟨ts, []⟩ ∧
      (scan a).Bounded ∧ (scan b).Bounded ∧
      Program.display ss = "(= x (- 1.5))\n\"(a b)\"\n" ∧ Program.display ts = Program.display ss ∧
      Program.lines ss = [1, 1] ∧ Program.lines ts = [1, 2] ∧ Program.same ss ts = false ∧
      mapLinesIn (fun _ => 0) ss = mapLinesIn (fun _ => 0) ts := by
  intro a b ss ts
  have hread : ∀ s : Script, s.diagnostics.isEmpty → s = ⟨s.statements, []⟩ := by
    rintro ⟨statements, diagnostics⟩ h
    cases List.isEmpty_iff.1 h
    rfl
  have ha : Script.read a false = ⟨ss, []⟩ := hread _ (by decide +kernel)
  have hb : Script.read b false = ⟨ts, []⟩ := hread _ (by decide +kernel)
  have hafinite : (scan a).Bounded := by decide +kernel
  have hbfinite : (scan b).Bounded := by decide +kernel
  have hdisplay : Program.display ss = "(= x (- 1.5))\n\"(a b)\"\n" := by
    rw [← String.toList_inj, Program.toList_display]
    decide +kernel
  have hsame : Program.display ts = Program.display ss := by
    rw [← String.toList_inj, Program.toList_display, Program.toList_display]
    decide +kernel
  have hlines : Program.lines ss = [1, 1] ∧ Program.lines ts = [1, 2] := by
    rw [Program.lines_eq, Program.lines_eq]
    decide +kernel
  obtain ⟨hiff, halike⟩ := printed_alike_iff_same ha hb hafinite hbfinite
  refine ⟨ha, hb, hafinite, hbfinite, hdisplay, hsame, hlines.1, hlines.2, ?_, halike hsame.symm⟩
  rw [Bool.eq_false_iff, Ne, hiff, hlines.1, hlines.2]
  simp

end TinyScript
