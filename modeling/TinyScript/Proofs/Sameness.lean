import TinyScript.Proofs.Doubles
import TinyScript.Proofs.Likeness
import TinyScript.Proofs.Unambiguous

/-!
The equality of the language cannot be told from being the same value. All words that are no number
count as one, with any sign and payload, and no operation tells two of them apart: truth and text
are the same for all, a comparison with one does not hold, and arithmetic gives no number again,
whichever word is chosen for it.
-/

namespace TinyScript

namespace Value

theorem sameNumber_iff {a b : Binary64} :
    sameNumber a b = true ↔ a.isNaN = true ∧ b.isNaN = true ∨ a = b := by
  rw [sameNumber]
  split
  · next ha =>
    refine ⟨fun hb => .inl ⟨ha, hb⟩, ?_⟩
    rintro (⟨-, hb⟩ | rfl)
    · exact hb
    · exact ha
  · next ha =>
    rw [beq_iff_eq]
    refine ⟨fun h => .inr (Binary64.eq_of_word h), ?_⟩
    rintro (⟨ha', -⟩ | rfl)
    · exact absurd ha' ha
    · rfl

/-- The values that the equality of the language takes for one. -/
inductive Same : Value → Value → Prop where
  | number {a b : Binary64} (h : sameNumber a b = true) : Same (number a) (number b)
  | text (s : String) : Same (text s) (text s)
  | boolean (b : Bool) : Same (boolean b) (boolean b)
  | null : Same null null

theorem same_iff_same {v w : Value} : v.same w = true ↔ v.Same w := by
  constructor
  · intro h
    cases v with
    | number a => cases w with
      | number b => exact .number h
      | _ => cases h
    | text s => cases w with
      | text t => exact beq_iff_eq.1 h ▸ .text s
      | _ => cases h
    | boolean b => cases w with
      | boolean c => exact beq_iff_eq.1 h ▸ .boolean b
      | _ => cases h
    | null => cases w with
      | null => exact .null
      | _ => cases h
  · intro h
    cases h with
    | number h => exact h
    | text | boolean => exact beq_self_eq_true _
    | null => rfl

theorem same_refl (v : Value) : v.Same v := by
  cases v with
  | number a => exact .number (sameNumber_iff.2 (.inr rfl))
  | text s => exact .text s
  | boolean b => exact .boolean b
  | null => exact .null

namespace Same

variable {u v w : Value}

theorem symm (h : v.Same w) : w.Same v := by
  cases h with
  | number h => exact .number (sameNumber_iff.2 ((sameNumber_iff.1 h).imp And.symm Eq.symm))
  | text s => exact .text s
  | boolean b => exact .boolean b
  | null => exact .null

theorem trans (h : u.Same v) (h' : v.Same w) : u.Same w := by
  cases h with
  | number h =>
    obtain ⟨h'⟩ := h'
    refine .number (sameNumber_iff.2 ?_)
    obtain ⟨ha, hb⟩ | rfl := sameNumber_iff.1 h
    · obtain ⟨-, hc⟩ | rfl := sameNumber_iff.1 h'
      · exact .inl ⟨ha, hc⟩
      · exact .inl ⟨ha, hb⟩
    · exact sameNumber_iff.1 h'
  | text | boolean | null => exact h'

theorem truthy (h : v.Same w) : v.truthy = w.truthy := by
  cases h with
  | @number a b h =>
    obtain ⟨ha, hb⟩ | rfl := sameNumber_iff.1 h
    · have hrank {x : Binary64} (hx : x.isNaN = true) : (Value.number x).truthy = true :=
        bne_iff_ne.2 (Binary64.rank_ne_zero_of_isNaN hx)
      rw [hrank ha, hrank hb]
    · rfl
  | text | boolean | null => rfl

theorem display (h : v.Same w) : v.display = w.display := by
  cases h with
  | @number a b h =>
    obtain ⟨ha, hb⟩ | rfl := sameNumber_iff.1 h
    · have hwrite {x : Binary64} (hx : x.isNaN = true) : (Value.number x).display = "NaN" :=
        if_pos hx
      rw [hwrite ha, hwrite hb]
    · rfl
  | text | boolean | null => rfl

end Same

theorem same_congr {v v' w w' : Value} (hv : v.Same v') (hw : w.Same w') :
    v.same w = v'.same w' := by
  rw [Bool.eq_iff_iff, same_iff_same, same_iff_same]
  exact ⟨fun h => hv.symm.trans (h.trans hw), fun h => hv.trans (h.trans hw.symm)⟩

theorem same_equivalence : Equivalence fun v w : Value => v.same w = true where
  refl v := same_iff_same.2 (same_refl v)
  symm h := same_iff_same.2 (same_iff_same.1 h).symm
  trans h h' := same_iff_same.2 ((same_iff_same.1 h).trans (same_iff_same.1 h'))

/-- Which words are the same number. -/
theorem same_words_iff (a b : UInt64) :
    (number ⟨a⟩).same (number ⟨b⟩) = true ↔
      a = b ∨ Binary64.IsNaNWord a ∧ Binary64.IsNaNWord b := by
  change sameNumber _ _ = true ↔ _
  rw [sameNumber_iff, Binary64.isNaN_iff, Binary64.isNaN_iff, Binary64.mk.injEq, or_comm]

end Value

/-- The same names are bound, to values that are the same. -/
def Scope.Same (s t : Scope) : Prop :=
  ∀ name, Option.Rel (fun v w : Value => v.same w = true) (s.find? name) (t.find? name)

theorem Scope.Same.insert {s t : Scope} (h : s.Same t) (x : String) {v w : Value}
    (hv : v.same w = true) : Scope.Same (s.insert x v) (t.insert x w) := by
  intro name
  rw [find?_insert, find?_insert]
  split
  · exact .some hv
  · exact h name

def sameness : Likeness := ⟨Eq, fun v w => v.same w = true, Scope.Same⟩

section Operators

variable {a a' b b' : Value}

/-- Operands that are the same are equal, or on either side one is no number. -/
theorem operands_cases {x x' y y' : Binary64} (hx : Value.sameNumber x x' = true)
    (hy : Value.sameNumber y y' = true) :
    (x.isNaN = true ∨ y.isNaN = true) ∧ (x'.isNaN = true ∨ y'.isNaN = true) ∨ x = x' ∧ y = y' := by
  obtain ⟨h, h'⟩ | rfl := Value.sameNumber_iff.1 hx
  · exact .inl ⟨.inl h, .inl h'⟩
  · obtain ⟨h, h'⟩ | rfl := Value.sameNumber_iff.1 hy
    · exact .inl ⟨.inr h, .inr h'⟩
    · exact .inr ⟨rfl, rfl⟩

theorem sameness_arithmetic [Binary64.NaNChoice] (op : Binary64.Operation) (ha : a.Same a')
    (hb : b.Same b') :
    ExceptRel sameness.Fault sameness.value (BinaryOp.arithmetic op a b)
      (BinaryOp.arithmetic op a' b') := by
  cases ha with
  | number hx => cases hb with
    | number hy =>
      refine .ok (Value.sameNumber_iff.2 ?_)
      obtain ⟨h, h'⟩ | ⟨rfl, rfl⟩ := operands_cases hx hy
      · exact .inl ⟨Binary64.isNaN_apply op h, Binary64.isNaN_apply op h'⟩
      · exact .inr rfl
    | text | boolean | null => exact .error .numberOperands
  | text | boolean | null => exact .error .numberOperands

theorem sameness_comparison {f : Binary64 → Binary64 → Bool}
    (hf : ∀ x y : Binary64, x.isNaN = true ∨ y.isNaN = true → f x y = false)
    (ha : a.Same a') (hb : b.Same b') : ExceptRel sameness.Fault sameness.value
      (BinaryOp.comparison f a b) (BinaryOp.comparison f a' b') := by
  cases ha with
  | number hx => cases hb with
    | number hy =>
      refine .ok (beq_iff_eq.2 ?_)
      obtain ⟨h, h'⟩ | ⟨rfl, rfl⟩ := operands_cases hx hy
      · rw [hf _ _ h, hf _ _ h']
      · rfl
    | text | boolean | null => exact .error .numberOperands
  | text | boolean | null => exact .error .numberOperands

theorem sameness_sum [Binary64.NaNChoice] (ha : a.Same a') (hb : b.Same b') :
    ExceptRel sameness.Fault sameness.value (BinaryOp.sum a b) (BinaryOp.sum a' b') := by
  cases ha with
  | number hx => cases hb with
    | number hy =>
      refine .ok (Value.sameNumber_iff.2 ?_)
      obtain ⟨h, h'⟩ | ⟨rfl, rfl⟩ := operands_cases hx hy
      · exact .inl ⟨Binary64.isNaN_apply .add h, Binary64.isNaN_apply .add h'⟩
      · exact .inr rfl
    | text | boolean | null => exact .error .addOperands
  | text s => cases hb with
    | text t => exact .ok (beq_self_eq_true _)
    | number | boolean | null => exact .error .addOperands
  | boolean | null => exact .error .addOperands

theorem sameness_unary (h : a.Same a') (op : UnaryOp) :
    ExceptRel sameness.Fault sameness.value (op.apply a) (op.apply a') := by
  cases op with
  | neg => cases h with
    | number h =>
      refine .ok (Value.sameNumber_iff.2 ?_)
      obtain ⟨ha, hb⟩ | rfl := Value.sameNumber_iff.1 h
      · exact .inl ⟨(Binary64.isNaN_neg _).trans ha, (Binary64.isNaN_neg _).trans hb⟩
      · exact .inr rfl
    | text | boolean | null => exact .error .numberOperand
  | not =>
    refine .ok (beq_iff_eq.2 ?_)
    rw [h.truthy]

theorem sameness_binary [Binary64.NaNChoice] (ha : a.Same a') (hb : b.Same b') (op : BinaryOp) :
    ExceptRel sameness.Fault sameness.value (op.apply a b) (op.apply a' b') := by
  cases op with
  | add => exact sameness_sum ha hb
  | sub => exact sameness_arithmetic .sub ha hb
  | mul => exact sameness_arithmetic .mul ha hb
  | div => exact sameness_arithmetic .div ha hb
  | rem => exact sameness_arithmetic .rem ha hb
  | eq => exact .ok (beq_iff_eq.2 (Value.same_congr ha hb))
  | ne => exact .ok (beq_iff_eq.2 (congrArg not (Value.same_congr ha hb)))
  | lt => exact sameness_comparison (fun _ _ => Binary64.lt_of_isNaN) ha hb
  | le => exact sameness_comparison (fun _ _ => Binary64.le_of_isNaN) ha hb
  | gt => exact sameness_comparison (fun _ _ h => Binary64.lt_of_isNaN h.symm) ha hb
  | ge => exact sameness_comparison (fun _ _ h => Binary64.le_of_isNaN h.symm) ha hb

end Operators

theorem sameness_lawful [Binary64.NaNChoice] : sameness.Lawful where
  truthy h := (Value.same_iff_same.1 h).truthy
  display h := (Value.same_iff_same.1 h).display
  unary h op := sameness_unary (Value.same_iff_same.1 h) op
  binary ha hb op := sameness_binary (Value.same_iff_same.1 ha) (Value.same_iff_same.1 hb) op
  empty _ := .none
  find? := by
    rintro s t h x _ rfl
    exact h x
  insert := by
    rintro s t h x _ rfl v w hv
    exact h.insert x hv

/-! Programs that are the same. -/

namespace Node

inductive Alike (L : Likeness) : Node → Node → Prop where
  | expr {e e' : Expr} (h : e.Alike L e') : Alike L (.expr e) (.expr e')
  | stmt {s t : Stmt} (h : s.Alike L t) : Alike L (.stmt s) (.stmt t)

variable {L : Likeness} {a b : Node}

theorem sameness_ident {x y : Ident} (h : (x == y) = true) : sameness.Ident x y :=
  beq_iff_eq.1 h ▸ ⟨rfl, rfl⟩

theorem alike_body {body body' : List Stmt}
    (h : List.Forall₂ (Node.Alike L) (body.map stmt) (body'.map stmt)) :
    List.Forall₂ (Stmt.Alike L) body body' := by
  rw [List.forall₂_map_left_iff, List.forall₂_map_right_iff] at h
  exact h.imp fun _ _ h => by
    obtain _ | h := h
    exact h

theorem expr_alike_of_children {e e' : Expr} (hl : (expr e).label.same (expr e').label = true)
    (hc : List.Forall₂ (Node.Alike sameness) (expr e).children (expr e').children) :
    e.Alike sameness e' := by
  cases e with
  | literal v => cases e' with
    | literal w => exact .literal hl
    | _ => cases hl
  | group e => cases e' with
    | group e' =>
      obtain _ | ⟨h | _, _⟩ := hc
      exact .group h
    | _ => cases hl
  | unary op line e => cases e' with
    | unary op' line' e' =>
      obtain ⟨hop, hline⟩ := Bool.and_eq_true_iff.1 hl
      obtain rfl := beq_iff_eq.1 hop
      obtain rfl := beq_iff_eq.1 hline
      obtain _ | ⟨h | _, _⟩ := hc
      exact .unary op line h
    | _ => cases hl
  | binary op line l r => cases e' with
    | binary op' line' l' r' =>
      obtain ⟨hop, hline⟩ := Bool.and_eq_true_iff.1 hl
      obtain rfl := beq_iff_eq.1 hop
      obtain rfl := beq_iff_eq.1 hline
      obtain _ | ⟨h | _, _ | ⟨h' | _, _⟩⟩ := hc
      exact .binary op line h h'
    | _ => cases hl
  | logical op l r => cases e' with
    | logical op' l' r' =>
      obtain rfl := beq_iff_eq.1 hl
      obtain _ | ⟨h | _, _ | ⟨h' | _, _⟩⟩ := hc
      exact .logical op h h'
    | _ => cases hl
  | assign x e => cases e' with
    | assign y e' =>
      obtain _ | ⟨h | _, _⟩ := hc
      exact .assign (sameness_ident hl) h
    | _ => cases hl
  | var x => cases e' with
    | var y => exact .var (sameness_ident hl)
    | _ => cases hl

theorem stmt_alike_of_children {s t : Stmt} (hl : (stmt s).label.same (stmt t).label = true)
    (hc : List.Forall₂ (Node.Alike sameness) (stmt s).children (stmt t).children) :
    s.Alike sameness t := by
  cases s with
  | expression e => cases t with
    | expression e' =>
      obtain _ | ⟨h | _, _⟩ := hc
      exact .expression h
    | _ => cases hl
  | print e => cases t with
    | print e' =>
      obtain _ | ⟨h | _, _⟩ := hc
      exact .print h
    | _ => cases hl
  | declare x e => cases t with
    | declare y e' =>
      obtain _ | ⟨h | _, _⟩ := hc
      exact .declare (sameness_ident hl) h
    | _ => cases hl
  | block body => cases t with
    | block body' => exact .block (alike_body hc)
    | _ => cases hl
  | ifThen test yes => cases t with
    | ifThen test' yes' =>
      obtain _ | ⟨htest | _, _ | ⟨_ | hyes, _⟩⟩ := hc
      exact .ifThen htest hyes
    | _ => cases hl
  | ifElse test yes no => cases t with
    | ifElse test' yes' no' =>
      obtain _ | ⟨htest | _, _ | ⟨_ | hyes, _ | ⟨_ | hno, _⟩⟩⟩ := hc
      exact .ifElse htest hyes hno
    | _ => cases hl
  | «while» test body => cases t with
    | «while» test' body' =>
      obtain _ | ⟨htest | _, _ | ⟨_ | hbody, _⟩⟩ := hc
      exact .while htest hbody
    | _ => cases hl

/-- A node and its like in the other tree have labels that are the same and children alike. -/
theorem alike_of_children (hl : a.label.same b.label = true)
    (hc : List.Forall₂ (Node.Alike sameness) a.children b.children) : a.Alike sameness b := by
  -- no label of an expression is the same as one of a statement
  cases a with
  | expr e => cases b with
    | expr e' => exact .expr (expr_alike_of_children hl hc)
    | stmt s => cases e <;> cases s <;> cases hl
  | stmt s => cases b with
    | expr e => cases s <;> cases e <;> cases hl
    | stmt t => exact .stmt (stmt_alike_of_children hl hc)

end Node

theorem Label.arity_eq_of_same {l l' : Label} (h : l.same l' = true) : l.arity = l'.arity := by
  revert h
  fun_cases Label.same l l' with
  | case11 m n => exact beq_iff_eq.1
  | case15 => nofun
  | _ => exact fun _ => rfl

theorem Node.alike_of_allSame {work : List (Node × Node)} (h : allSame work = true) :
    ∀ p ∈ work, p.1.Alike sameness p.2 := by
  fun_induction allSame work with
  | case1 => exact List.forall_mem_nil _
  | case2 a b rest hsame ih =>
    obtain ⟨hchildren, hrest⟩ := List.forall_mem_append.1 (ih h)
    have hlength : a.children.length = b.children.length := by
      rw [length_children, length_children, Label.arity_eq_of_same hsame]
    have hpairs : List.Forall₂ (Alike sameness) a.children b.children :=
      List.forall₂_iff_zip.2 ⟨hlength, fun hp => hchildren _ hp⟩
    exact List.forall_mem_cons.2 ⟨alike_of_children hsame hpairs, hrest⟩
  | case3 => cases h

theorem Program.alike_of_same {p q : List Stmt} (h : same p q = true) :
    List.Forall₂ (Stmt.Alike sameness) p q := by
  obtain ⟨hlength, hwork⟩ := Bool.and_eq_true_iff.1 h
  refine List.forall₂_iff_zip.2 ⟨beq_iff_eq.1 hlength, fun {s t} hst => ?_⟩
  have hnodes : Node.Alike sameness (.stmt s) (.stmt t) :=
    Node.alike_of_allSame hwork _ (List.mem_map_of_mem hst)
  obtain _ | halike := hnodes
  exact halike

/-- The equality of values is an equivalence, under which all words that are no number fall
together, and no run can tell values apart that are equal under it, whichever of these words
arithmetic gives: programs that are the same, over scopes that are the same, both come to an end or
neither does, print the same text, succeed or fail with the same error, and leave scopes that are
the same. -/
theorem same_programs_run_alike [Binary64.NaNChoice] :
    (Equivalence fun v w : Value => v.same w = true) ∧
      (∀ a b : UInt64, (Value.number ⟨a⟩).same (.number ⟨b⟩) = true ↔
        a = b ∨ Binary64.IsNaNWord a ∧ Binary64.IsNaNWord b) ∧
      ∀ (p q : List Stmt) (env env' : Environment) (sink : Sink), Program.same p q = true →
        env.Corresponds Scope.Same env' →
        ((∃ m x, Machine.Ends ⟨env, sink⟩ p m x) ↔ ∃ n y, Machine.Ends ⟨env', sink⟩ q n y) ∧
          ∀ m x n y, Machine.Ends ⟨env, sink⟩ p m x → Machine.Ends ⟨env', sink⟩ q n y →
            m.sink = n.sink ∧ x = y ∧ m.env.Corresponds Scope.Same n.env := by
  refine ⟨Value.same_equivalence, Value.same_words_iff, fun p q env env' sink hpq henv => ?_⟩
  have hstart : sameness.Machine ⟨env, sink⟩ ⟨env', sink⟩ := ⟨henv, rfl⟩
  obtain ⟨hends, hsame⟩ := sameness_lawful.runs (Program.alike_of_same hpq) hstart
  refine ⟨hends, fun m x n y hm hn => ?_⟩
  obtain ⟨hmachine, herror⟩ := hsame m x n y hm hn
  exact ⟨hmachine.sink, Likeness.eq_of_error (fun _ _ h => h) herror, hmachine.env⟩

/-- `x = x + NaN; print -x;` with words of different sign and payload, over scopes with their
bindings in another order. The words go on to differ in the scopes that the two runs leave. -/
theorem nan_programs_run_alike :
    let a : Binary64 := ⟨0x7ff8000000000000⟩
    let b : Binary64 := ⟨0xfff8000000000001⟩
    let program (w : Binary64) : List Stmt :=
      [.expression (.assign ⟨"x", 1⟩ (.binary .add 1 (.var ⟨"x", 1⟩) (.literal (.number w)))),
        .print (.unary .neg 1 (.var ⟨"x", 1⟩))]
    let env (s : Scope) : Environment := ⟨.flat, [], s⟩
    let start (s : Scope) : Machine := ⟨env s, .buffer ""⟩
    let stop (s : Scope) : Machine := ⟨env s, .buffer "NaN\n"⟩
    Program.same (program a) (program b) = true ∧
      (env [("x", .number ⟨0⟩), ("y", .number a)]).Corresponds Scope.Same
        (env [("y", .number b), ("x", .number ⟨0⟩)]) ∧
      (start [("x", .number ⟨0⟩), ("y", .number a)]).Ends (program a)
        (stop [("x", .number a), ("y", .number a)]) none ∧
      (start [("y", .number b), ("x", .number ⟨0⟩)]).Ends (program b)
        (stop [("y", .number b), ("x", .number b)]) none ∧
      (env [("x", .number a), ("y", .number a)]).Corresponds Scope.Same
        (env [("y", .number b), ("x", .number b)]) := by
  intro a b program env start stop
  obtain ⟨hequiv, hwords, hruns⟩ := same_programs_run_alike
  have hnan : (Value.number a).same (.number b) = true := (hwords _ _).2 (.inr (by decide))
  have hprogram : Program.same (program a) (program b) = true := by
    simp only [program, Program.same, Node.allSame, Node.label, Label.same, Node.children, hnan,
      List.length_cons, List.length_nil, List.zip_cons_cons, List.zip_nil_left, List.map_cons,
      List.map_nil, List.cons_append, List.nil_append, beq_self_eq_true, Bool.and_self, if_true]
  have henv : (env [("x", .number ⟨0⟩), ("y", .number a)]).Corresponds Scope.Same
      (env [("y", .number b), ("x", .number ⟨0⟩)]) := by
    refine ⟨rfl, .nil, fun name => ?_⟩
    by_cases hx : name = "x"
    · subst hx
      exact .some (hequiv.refl _)
    · by_cases hy : name = "y"
      · subst hy
        exact .some hnan
      · have hx : (name == "x") = false := beq_eq_false_iff_ne.2 hx
        have hy : (name == "y") = false := beq_eq_false_iff_ne.2 hy
        simp only [env, Scope.find?, List.lookup, hx, hy]
        exact .none
  have hrun : (start [("x", .number ⟨0⟩), ("y", .number a)]).Ends (program a)
      (stop [("x", .number a), ("y", .number a)]) none := ⟨0, by cbv⟩
  have hrun' : (start [("y", .number b), ("x", .number ⟨0⟩)]).Ends (program b)
      (stop [("y", .number b), ("x", .number b)]) none := ⟨0, by cbv⟩
  obtain ⟨-, halike⟩ := hruns _ _ _ _ (.buffer "") hprogram henv
  obtain ⟨-, -, hend⟩ := halike _ _ _ _ hrun hrun'
  exact ⟨hprogram, henv, hrun, hrun', hend⟩

end TinyScript
