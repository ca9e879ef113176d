import Mathlib.Data.List.Forall2
import TinyScript.Proofs.Runs

/-!
Two programs side by side. A likeness says which names, values and scopes correspond. If no
operation on values and variables tells alike things apart, then alike programs run alike: one ends
if the other does, and they end alike.
-/

namespace TinyScript

structure Likeness where
  name : String → String → Prop
  value : Value → Value → Prop
  scope : Scope → Scope → Prop

/-- Both succeed with related results or both fail with related errors. -/
inductive ExceptRel {ε ε' α α' : Type} (E : ε → ε' → Prop) (V : α → α' → Prop) :
    Except ε α → Except ε' α' → Prop where
  | ok {v : α} {w : α'} (h : V v w) : ExceptRel E V (.ok v) (.ok w)
  | error {x : ε} {y : ε'} (h : E x y) : ExceptRel E V (.error x) (.error y)

/-- The same scopes are open, and each is related to the one in its place. -/
structure Environment.Corresponds (R : Scope → Scope → Prop) (env env' : Environment) : Prop where
  mode : env.mode = env'.mode
  inner : List.Forall₂ R env.inner env'.inner
  global : R env.global env'.global

namespace Likeness

variable (L : Likeness)

inductive Fault : RuntimeFault → RuntimeFault → Prop where
  | addOperands : Fault .addOperands .addOperands
  | numberOperands : Fault .numberOperands .numberOperands
  | numberOperand : Fault .numberOperand .numberOperand
  | undefinedVariable {a b : String} (h : L.name a b) :
      Fault (.undefinedVariable a) (.undefinedVariable b)
  | undeclaredAssignment {a b : String} (h : L.name a b) :
      Fault (.undeclaredAssignment a) (.undeclaredAssignment b)

structure Error (x y : RuntimeError) : Prop where
  fault : L.Fault x.fault y.fault
  line : x.line = y.line

structure Ident (x y : TinyScript.Ident) : Prop where
  name : L.name x.name y.name
  line : x.line = y.line

structure Evaluated (r s : TinyScript.Evaluated) : Prop where
  env : r.1.Corresponds L.scope s.1
  result : ExceptRel L.Error L.value r.2 s.2

structure Machine (m n : TinyScript.Machine) : Prop where
  env : m.env.Corresponds L.scope n.env
  sink : m.sink = n.sink

/-- Nothing that a program does tells alike things apart. -/
structure Lawful [Binary64.NaNChoice] : Prop where
  truthy {v w : Value} (h : L.value v w) : v.truthy = w.truthy
  display {v w : Value} (h : L.value v w) : v.display = w.display
  unary {v w : Value} (h : L.value v w) (op : UnaryOp) :
    ExceptRel L.Fault L.value (op.apply v) (op.apply w)
  binary {a a' b b' : Value} (ha : L.value a a') (hb : L.value b b') (op : BinaryOp) :
    ExceptRel L.Fault L.value (op.apply a b) (op.apply a' b')
  empty : L.scope [] []
  find? {s t : Scope} (h : L.scope s t) {x y : String} (hx : L.name x y) :
    Option.Rel L.value (s.find? x) (t.find? y)
  insert {s t : Scope} (h : L.scope s t) {x y : String} (hx : L.name x y) {v w : Value}
    (hv : L.value v w) : L.scope (s.insert x v) (t.insert y w)

end Likeness

inductive Expr.Alike (L : Likeness) : Expr → Expr → Prop where
  | literal {v w : Value} (h : L.value v w) : Alike L (.literal v) (.literal w)
  | group {e e' : Expr} (h : Alike L e e') : Alike L (.group e) (.group e')
  | unary {e e' : Expr} (op : UnaryOp) (line : Nat) (h : Alike L e e') :
      Alike L (.unary op line e) (.unary op line e')
  | binary {l l' r r' : Expr} (op : BinaryOp) (line : Nat) (hl : Alike L l l')
      (hr : Alike L r r') : Alike L (.binary op line l r) (.binary op line l' r')
  | logical {l l' r r' : Expr} (op : LogicalOp) (hl : Alike L l l') (hr : Alike L r r') :
      Alike L (.logical op l r) (.logical op l' r')
  | assign {x y : Ident} {e e' : Expr} (hx : L.Ident x y) (h : Alike L e e') :
      Alike L (.assign x e) (.assign y e')
  | var {x y : Ident} (hx : L.Ident x y) : Alike L (.var x) (.var y)

inductive Stmt.Alike (L : Likeness) : Stmt → Stmt → Prop where
  | expression {e e' : Expr} (h : e.Alike L e') : Alike L (.expression e) (.expression e')
  | print {e e' : Expr} (h : e.Alike L e') : Alike L (.print e) (.print e')
  | declare {x y : Ident} {e e' : Expr} (hx : L.Ident x y) (h : e.Alike L e') :
      Alike L (.declare x e) (.declare y e')
  | block {body body' : List Stmt} (h : List.Forall₂ (Alike L) body body') :
      Alike L (.block body) (.block body')
  | ifThen {test test' : Expr} {yes yes' : Stmt} (htest : test.Alike L test')
      (hyes : Alike L yes yes') : Alike L (.ifThen test yes) (.ifThen test' yes')
  | ifElse {test test' : Expr} {yes yes' no no' : Stmt} (htest : test.Alike L test')
      (hyes : Alike L yes yes') (hno : Alike L no no') :
      Alike L (.ifElse test yes no) (.ifElse test' yes' no')
  | while {test test' : Expr} {body body' : Stmt} (htest : test.Alike L test')
      (hbody : Alike L body body') : Alike L (.while test body) (.while test' body')

theorem isSome_of_rel {α β : Type} {R : α → β → Prop} {a : Option α} {b : Option β}
    (h : Option.Rel R a b) : a.isSome = b.isSome := by
  cases h <;> rfl

theorem rel_or {α β : Type} {R : α → β → Prop} {a c : Option α} {b d : Option β}
    (h : Option.Rel R a b) (h' : Option.Rel R c d) : Option.Rel R (a.or c) (b.or d) := by
  cases h with
  | some h => exact .some h
  | none => exact h'

namespace Environment.Corresponds

variable {L : Likeness} {env env' : Environment} {x y : String} {v w : Value}

theorem pop {R : Scope → Scope → Prop} (h : env.Corresponds R env') :
    env.pop.Corresponds R env'.pop := by
  obtain ⟨mode, inner, global⟩ := env
  obtain ⟨mode', inner', global'⟩ := env'
  obtain ⟨hmode, hinner, hglobal⟩ := h
  cases hinner with
  | nil => exact ⟨hmode, .nil, hglobal⟩
  | cons _ hrest => exact ⟨hmode, hrest, hglobal⟩

variable [Binary64.NaNChoice]

theorem lookup (hL : L.Lawful) (h : env.Corresponds L.scope env') (hx : L.name x y) :
    Option.Rel L.value (env.lookup x) (env'.lookup y) := by
  obtain ⟨mode, inner, global⟩ := env
  obtain ⟨mode', inner', global'⟩ := env'
  obtain ⟨-, hinner, hglobal⟩ := h
  dsimp only at hinner hglobal
  induction hinner with
  | nil => exact hL.find? hglobal hx
  | cons hs _ ih =>
    rw [lookup_cons, lookup_cons]
    exact rel_or (hL.find? hs hx) ih

theorem define (hL : L.Lawful) (h : env.Corresponds L.scope env') (hx : L.name x y)
    (hv : L.value v w) : (env.define x v).Corresponds L.scope (env'.define y w) := by
  obtain ⟨mode, inner, global⟩ := env
  obtain ⟨mode', inner', global'⟩ := env'
  obtain ⟨hmode, hinner, hglobal⟩ := h
  cases hinner with
  | nil => exact ⟨hmode, .nil, hL.insert hglobal hx hv⟩
  | cons hs hrest => exact ⟨hmode, .cons (hL.insert hs hx hv) hrest, hglobal⟩

theorem binds_eq (hL : L.Lawful) {s t : Scope} (h : L.scope s t) (hx : L.name x y) :
    s.binds x = t.binds y := isSome_of_rel (hL.find? h hx)

/-- An assignment finds the name in scopes that correspond, or in none. -/
theorem assign (hL : L.Lawful) (h : env.Corresponds L.scope env') (hx : L.name x y)
    (hv : L.value v w) :
    Option.Rel (Corresponds L.scope) (env.assign x v) (env'.assign y w) := by
  obtain ⟨mode, inner, global⟩ := env
  obtain ⟨mode', inner', global'⟩ := env'
  obtain ⟨hmode, hinner, hglobal⟩ := h
  dsimp only at hinner hglobal
  induction hinner with
  | nil =>
    rw [assign_nil, assign_nil, binds_eq hL hglobal hx]
    split
    · exact .some ⟨hmode, .nil, hL.insert hglobal hx hv⟩
    · exact .none
  | cons hs hrest ih =>
    rw [assign_cons, assign_cons, binds_eq hL hs hx]
    split
    · exact .some ⟨hmode, .cons (hL.insert hs hx hv) hrest, hglobal⟩
    · have hrest := ih hmode
      generalize Environment.assign _ x v = a, Environment.assign _ y w = b at hrest ⊢
      cases hrest with
      | some h => exact .some ⟨h.mode, .cons hs h.inner, h.global⟩
      | none => exact .none

theorem push (hL : L.Lawful) (h : env.Corresponds L.scope env') :
    env.push.Corresponds L.scope env'.push := by
  unfold Environment.push
  rw [← h.mode]
  split
  · exact h
  · exact ⟨rfl, .cons hL.empty h.inner, h.global⟩

end Environment.Corresponds

namespace Likeness

variable {L : Likeness} {env env' : Environment}

theorem Evaluated.andThen {r s : TinyScript.Evaluated}
    {f g : Environment → Value → TinyScript.Evaluated} (h : L.Evaluated r s)
    (hfg : ∀ env env' v w, env.Corresponds L.scope env' → L.value v w →
      L.Evaluated (f env v) (g env' w)) : L.Evaluated (r.andThen f) (s.andThen g) := by
  obtain ⟨env, r⟩ := r
  obtain ⟨env', s⟩ := s
  obtain ⟨henv, hr⟩ := h
  cases hr with
  | ok hv => exact hfg env env' _ _ henv hv
  | error hx => exact ⟨henv, .error hx⟩

theorem Evaluated.ofOperation (henv : env.Corresponds L.scope env') (line : Nat)
    {r s : Except RuntimeFault Value} (h : ExceptRel L.Fault L.value r s) :
    L.Evaluated (.ofOperation env line r) (.ofOperation env' line s) := by
  cases h with
  | ok hv => exact ⟨henv, .ok hv⟩
  | error hf => exact ⟨henv, .error ⟨hf, rfl⟩⟩

variable [Binary64.NaNChoice]

theorem Evaluated.read (hL : L.Lawful) (henv : env.Corresponds L.scope env')
    {x y : TinyScript.Ident} (hx : L.Ident x y) : L.Evaluated (env.read x) (env'.read y) := by
  have hfind := henv.lookup hL hx.name
  unfold Environment.read
  generalize env.lookup x.name = a, env'.lookup y.name = b at hfind ⊢
  cases hfind with
  | some hv => exact ⟨henv, .ok hv⟩
  | none => exact ⟨henv, .error ⟨.undefinedVariable hx.name, hx.line⟩⟩

theorem Evaluated.store (hL : L.Lawful) (henv : env.Corresponds L.scope env')
    {x y : TinyScript.Ident} (hx : L.Ident x y) {v w : Value} (hv : L.value v w) :
    L.Evaluated (env.store x v) (env'.store y w) := by
  have hassign := henv.assign hL hx.name hv
  unfold Environment.store
  generalize env.assign x.name v = a, env'.assign y.name w = b at hassign ⊢
  cases hassign with
  | some h => exact ⟨h, .ok hv⟩
  | none => exact ⟨henv, .error ⟨.undeclaredAssignment hx.name, hx.line⟩⟩

end Likeness

/-- Alike expressions are evaluated alike, with the same changes to what is alike. -/
theorem Expr.Alike.eval [Binary64.NaNChoice] {L : Likeness} (hL : L.Lawful) {e e' : Expr}
    (h : e.Alike L e') {env env' : Environment} (henv : env.Corresponds L.scope env') :
    L.Evaluated (e.eval env) (e'.eval env') := by
  induction h generalizing env env' with
  | literal hv => exact ⟨henv, .ok hv⟩
  | group _ ih => exact ih henv
  | unary op line _ ih =>
    exact (ih henv).andThen fun _ _ _ _ h hv => .ofOperation h line (hL.unary hv op)
  | binary op line _ _ ihl ihr =>
    exact (ihl henv).andThen fun _ _ _ _ h ha => (ihr h).andThen fun _ _ _ _ h hb =>
      .ofOperation h line (hL.binary ha hb op)
  | @logical l l' r r' op _ _ ihl ihr =>
    refine (ihl henv).andThen fun env env' v w h hv => ?_
    show L.Evaluated (if op.decides v then (env, .ok v) else r.eval env)
      (if op.decides w then (env', .ok w) else r'.eval env')
    have hdecides : op.decides v = op.decides w := by
      cases op <;> simp only [LogicalOp.decides, hL.truthy hv]
    rw [hdecides]
    split
    · exact ⟨h, .ok hv⟩
    · exact ihr h
  | assign hx _ ih => exact (ih henv).andThen fun _ _ _ _ h hv => .store hL h hx hv
  | var hx => exact .read hL henv hx

namespace Likeness.Machine

variable {L : Likeness} {m n : TinyScript.Machine}

theorem pop (h : L.Machine m n) : L.Machine m.pop n.pop := ⟨h.env.pop, h.sink⟩

variable [Binary64.NaNChoice]

theorem evaluate (hL : L.Lawful) (h : L.Machine m n) {e e' : Expr} (he : e.Alike L e') :
    L.Machine (m.evaluate e).1 (n.evaluate e').1 ∧
      ExceptRel L.Error L.value (m.evaluate e).2 (n.evaluate e').2 := by
  rw [m.evaluate_eq, n.evaluate_eq]
  have heval := he.eval hL h.env
  exact ⟨⟨heval.env, h.sink⟩, heval.result⟩

theorem push (hL : L.Lawful) (h : L.Machine m n) : L.Machine m.push n.push :=
  ⟨h.env.push hL, h.sink⟩

end Likeness.Machine

namespace Stmt.Alike

variable {L : Likeness} {s t : Stmt}

theorem head? (h : s.Alike L t) {e : Expr} (he : s.head? = some e) :
    ∃ e', t.head? = some e' ∧ e.Alike L e' := by
  cases h with
  | block => cases he
  | expression h | print h | declare _ h | ifThen h | ifElse h | «while» h =>
    cases he
    exact ⟨_, rfl, h⟩

/-- With alike values, alike statements do the same and go on alike. -/
theorem goOn [Binary64.NaNChoice] (hL : L.Lawful) (h : s.Alike L t) {m n : Machine}
    (hm : L.Machine m n) {v w : Value} (hv : L.value v w) :
    L.Machine (s.goOn m v).1 (t.goOn n w).1 ∧
      List.Forall₂ (Alike L) (s.goOn m v).2 (t.goOn n w).2 := by
  have htruthy := hL.truthy hv
  cases h with
  | expression | block => exact ⟨hm, .nil⟩
  | print =>
    refine ⟨⟨hm.env, ?_⟩, .nil⟩
    show m.sink.printLine v.display = n.sink.printLine w.display
    rw [hm.sink, hL.display hv]
  | declare hx => exact ⟨⟨hm.env.define hL hx.name hv, hm.sink⟩, .nil⟩
  | ifThen _ hyes =>
    refine ⟨hm, ?_⟩
    rw [Stmt.goOn, Stmt.goOn, htruthy]
    split
    · exact .cons hyes .nil
    · exact .nil
  | ifElse _ hyes hno =>
    refine ⟨hm, ?_⟩
    rw [Stmt.goOn, Stmt.goOn, htruthy]
    split
    · exact .cons hyes .nil
    · exact .cons hno .nil
  | «while» htest hbody =>
    refine ⟨hm, ?_⟩
    rw [Stmt.goOn, Stmt.goOn, htruthy]
    split
    · exact .cons hbody (.cons (.while htest hbody) .nil)
    · exact .nil

end Stmt.Alike

/-- A run can be followed step by step on the other side. -/
theorem Exec.alike [Binary64.NaNChoice] {L : Likeness} (hL : L.Lawful) {m m' n : Machine}
    {ss tt : List Stmt} {x : Option RuntimeError} (h : Exec m ss m' x)
    (hss : List.Forall₂ (Stmt.Alike L) ss tt) (hm : L.Machine m n) :
    ∃ n' y, Exec n tt n' y ∧ L.Machine m' n' ∧ Option.Rel L.Error x y := by
  induction h generalizing tt n with
  | done =>
    cases hss
    exact ⟨n, none, .done, hm, .none⟩
  | @goes m m₁ m' s ss e v x he hv _ ih =>
    obtain _ | ⟨hs, hss⟩ := hss
    obtain ⟨e', he', halike⟩ := hs.head? he
    obtain ⟨hm₁, hresult⟩ := hm.evaluate hL halike
    rw [hv] at hm₁ hresult
    rcases hw : n.evaluate e' with ⟨n₁, _ | w⟩
    · rw [hw] at hresult
      cases hresult
    rw [hw] at hm₁ hresult
    obtain hvw | _ := hresult
    obtain ⟨hgo, hnext⟩ := hs.goOn hL hm₁ hvw
    obtain ⟨n', y, hrun, hend⟩ := ih (List.rel_append hnext hss) hgo
    exact ⟨n', y, .goes he' hw hrun, hend⟩
  | @fails m m' s ss e x he hx =>
    obtain _ | ⟨hs, -⟩ := hss
    obtain ⟨e', he', halike⟩ := hs.head? he
    obtain ⟨hm', hresult⟩ := hm.evaluate hL halike
    rw [hx] at hm' hresult
    rcases hy : n.evaluate e' with ⟨n', y | _⟩
    · rw [hy] at hm' hresult
      obtain _ | hxy := hresult
      exact ⟨n', some y, .fails he' hy, hm', .some hxy⟩
    · rw [hy] at hresult
      cases hresult
  | block _ _ ihbody ih =>
    obtain _ | ⟨hs, hss⟩ := hss
    obtain _ | _ | _ | hbody := hs
    obtain ⟨n₁, y, hrun, hm₁, hy⟩ := ihbody hbody (hm.push hL)
    cases hy
    obtain ⟨n', y, hrest, hend⟩ := ih hss hm₁.pop
    exact ⟨n', y, .block hrun hrest, hend⟩
  | blockFails _ ihbody =>
    obtain _ | ⟨hs, -⟩ := hss
    obtain _ | _ | _ | hbody := hs
    obtain ⟨n₁, y, hrun, hm₁, hy⟩ := ihbody hbody (hm.push hL)
    cases hy with
    | some hxy => exact ⟨n₁.pop, _, .blockFails hrun, hm₁.pop, .some hxy⟩

theorem Machine.Ends.alike [Binary64.NaNChoice] {L : Likeness} (hL : L.Lawful)
    {m m' n : Machine} {p q : List Stmt} {x : Option RuntimeError} (h : m.Ends p m' x)
    (hpq : List.Forall₂ (Stmt.Alike L) p q) (hm : L.Machine m n) :
    ∃ n' y, n.Ends q n' y ∧ L.Machine m' n' ∧ Option.Rel L.Error x y := by
  obtain ⟨n', y, hrun, hend⟩ := (run_iff_exec.1 h).alike hL hpq hm
  exact ⟨n', y, run_iff_exec.2 hrun, hend⟩

/-! The other way round. -/

def Likeness.flip (L : Likeness) : Likeness :=
  ⟨fun a b => L.name b a, fun v w => L.value w v, fun s t => L.scope t s⟩

section Flip

variable {L : Likeness}

theorem rel_swap {α β : Type} {R : α → β → Prop} {a : Option α} {b : Option β}
    (h : Option.Rel R a b) : Option.Rel (fun b a => R a b) b a := by
  cases h with
  | some h => exact .some h
  | none => exact .none

theorem Likeness.Fault.flip {x y : RuntimeFault} (h : L.Fault x y) : L.flip.Fault y x := by
  cases h with
  | addOperands => exact .addOperands
  | numberOperands => exact .numberOperands
  | numberOperand => exact .numberOperand
  | undefinedVariable h => exact .undefinedVariable h
  | undeclaredAssignment h => exact .undeclaredAssignment h

theorem Likeness.fault_result_flip {r s : Except RuntimeFault Value}
    (h : ExceptRel L.Fault L.value r s) : ExceptRel L.flip.Fault L.flip.value s r := by
  cases h with
  | ok h => exact .ok h
  | error h => exact .error h.flip

theorem Likeness.Lawful.flip [Binary64.NaNChoice] (hL : L.Lawful) : L.flip.Lawful where
  truthy h := (hL.truthy h).symm
  display h := (hL.display h).symm
  unary h op := fault_result_flip (hL.unary h op)
  binary ha hb op := fault_result_flip (hL.binary ha hb op)
  empty := hL.empty
  find? h _ _ hx := rel_swap (hL.find? h hx)
  insert h _ _ hx _ _ hv := hL.insert h hx hv

theorem Likeness.Ident.flip {x y : TinyScript.Ident} (h : L.Ident x y) : L.flip.Ident y x :=
  ⟨h.name, h.line.symm⟩

theorem Expr.Alike.flip {e e' : Expr} (h : e.Alike L e') : e'.Alike L.flip e := by
  induction h with
  | literal h => exact .literal h
  | group _ ih => exact .group ih
  | unary op line _ ih => exact .unary op line ih
  | binary op line _ _ ihl ihr => exact .binary op line ihl ihr
  | logical op _ _ ihl ihr => exact .logical op ihl ihr
  | assign hx _ ih => exact .assign hx.flip ih
  | var hx => exact .var hx.flip

mutual

theorem Stmt.Alike.flip : ∀ {s t : Stmt}, s.Alike L t → t.Alike L.flip s
  | .expression _, _, .expression h => .expression h.flip
  | .print _, _, .print h => .print h.flip
  | .declare _ _, _, .declare hx h => .declare hx.flip h.flip
  | .block _, _, .block h => .block (alikeIn_flip h)
  | .ifThen _ _, _, .ifThen htest hyes => .ifThen htest.flip hyes.flip
  | .ifElse _ _ _, _, .ifElse htest hyes hno => .ifElse htest.flip hyes.flip hno.flip
  | .while _ _, _, .while htest hbody => .while htest.flip hbody.flip

theorem alikeIn_flip : ∀ {ss tt : List Stmt}, List.Forall₂ (Stmt.Alike L) ss tt →
    List.Forall₂ (Stmt.Alike L.flip) tt ss
  | [], _, .nil => .nil
  | _ :: _, _, .cons hs hss => .cons hs.flip (alikeIn_flip hss)

end

theorem Environment.Corresponds.flip {env env' : Environment} (h : env.Corresponds L.scope env') :
    env'.Corresponds L.flip.scope env := ⟨h.mode.symm, h.inner.flip, h.global⟩

theorem Likeness.Machine.flip {m n : TinyScript.Machine} (h : L.Machine m n) : L.flip.Machine n m :=
  ⟨h.env.flip, h.sink.symm⟩

end Flip

/-- Of two alike programs either both end or neither does, and they end alike. -/
theorem Likeness.Lawful.runs [Binary64.NaNChoice] {L : Likeness} (hL : L.Lawful)
    {m n : TinyScript.Machine} {p q : List Stmt} (hpq : List.Forall₂ (Stmt.Alike L) p q)
    (hm : L.Machine m n) :
    ((∃ m' x, m.Ends p m' x) ↔ ∃ n' y, n.Ends q n' y) ∧
      ∀ m' x n' y, m.Ends p m' x → n.Ends q n' y → L.Machine m' n' ∧ Option.Rel L.Error x y := by
  refine ⟨⟨?_, ?_⟩, ?_⟩
  · rintro ⟨m', x, h⟩
    obtain ⟨n', y, hn, -⟩ := h.alike hL hpq hm
    exact ⟨n', y, hn⟩
  · rintro ⟨n', y, h⟩
    obtain ⟨m', x, hm', -⟩ := h.alike hL.flip (alikeIn_flip hpq) hm.flip
    exact ⟨m', x, hm'⟩
  · intro m' x n' y h h'
    obtain ⟨n'', y', hn, hend⟩ := h.alike hL hpq hm
    obtain ⟨rfl, rfl⟩ := (Machine.run_iff_exec.1 hn).deterministic (Machine.run_iff_exec.1 h')
    exact hend

section Names

variable {L : Likeness}

/-- Where only equal names are alike, alike errors are equal. -/
theorem Likeness.Error.eq (hname : ∀ a b, L.name a b → a = b) {x y : RuntimeError}
    (h : L.Error x y) : x = y := by
  obtain ⟨fault, line⟩ := x
  obtain ⟨fault', line'⟩ := y
  obtain ⟨hfault, rfl⟩ := h
  cases hfault with
  | addOperands | numberOperands | numberOperand => rfl
  | undefinedVariable h | undeclaredAssignment h => rw [hname _ _ h]

theorem Likeness.eq_of_error (hname : ∀ a b, L.name a b → a = b) {x y : Option RuntimeError}
    (h : Option.Rel L.Error x y) : x = y := by
  cases h with
  | some h => rw [h.eq hname]
  | none => rfl

theorem Likeness.result_self {r : Except RuntimeFault Value}
    (h : ∀ fault, r = .error fault → L.Fault fault fault) : ExceptRel L.Fault Eq r r := by
  cases r with
  | ok v => exact .ok rfl
  | error fault => exact .error (h fault rfl)

/-- Operators name no variable in what they fail with. -/
theorem Likeness.fault_of_unary {op : UnaryOp} {fault : RuntimeFault}
    (h : op.fault? = some fault) : L.Fault fault fault := by
  cases op with
  | neg =>
    cases h
    exact .numberOperand
  | not => cases h

theorem Likeness.fault_of_binary {op : BinaryOp} {fault : RuntimeFault}
    (h : op.fault? = some fault) : L.Fault fault fault := by
  cases op with
  | add =>
    cases h
    exact .addOperands
  | eq | ne => cases h
  | sub | mul | div | rem | lt | le | gt | ge =>
    cases h
    exact .numberOperands

/-- With equal values alike, a likeness has to be lawful on names and scopes only. -/
theorem Likeness.lawful_of_eq [Binary64.NaNChoice] {name : String → String → Prop}
    {scope : Scope → Scope → Prop} (hempty : scope [] [])
    (hfind : ∀ s t, scope s t → ∀ x y, name x y → s.find? x = t.find? y)
    (hinsert : ∀ s t, scope s t → ∀ x y, name x y → ∀ v, scope (s.insert x v) (t.insert y v)) :
    Lawful ⟨name, Eq, scope⟩ where
  truthy h := congrArg Value.truthy h
  display h := congrArg Value.display h
  unary := by
    rintro v _ rfl op
    exact result_self fun fault h => fault_of_unary (UnaryOp.fault_of_apply h)
  binary := by
    rintro a _ b _ rfl rfl op
    exact result_self fun fault h => fault_of_binary (BinaryOp.fault_of_apply h)
  empty := hempty
  find? {s t} h {x y} hx := by
    rw [hfind s t h x y hx]
    cases t.find? y with
    | none => exact .none
    | some v => exact .some rfl
  insert h _ _ hx v w hv := hv ▸ hinsert _ _ h _ _ hx v

end Names

end TinyScript
