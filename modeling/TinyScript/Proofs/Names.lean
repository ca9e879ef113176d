import TinyScript.Proofs.Labels
import TinyScript.Proofs.Likeness
import TinyScript.Proofs.ScopeDiscipline

/-!
A run depends on the names that its program mentions, and touches no others. Scopes that agree on
these names are alike to the program; and a binding of another name is the same after every step.
-/

namespace TinyScript

def Label.name? : Label → Option String
  | assign x => some x.name
  | var x => some x.name
  | declare x => some x.name
  | _ => none

/-- The names that a program mentions: those that it declares, reads or assigns to. -/
def namesIn (ss : List Stmt) : List String := (labelsIn ss).filterMap Label.name?

/-- If the label has a name, the name has the property. -/
def Label.Named (P : String → Prop) (l : Label) : Prop := ∀ name, l.name? = some name → P name

theorem forall_namesIn {P : String → Prop} {ss : List Stmt} (h : ∀ name ∈ namesIn ss, P name) :
    ∀ l ∈ labelsIn ss, l.Named P :=
  fun l hl name hname => h name (List.mem_filterMap.2 ⟨l, hl, hname⟩)

section Agreement

variable {P : String → Prop}

/-- Each of these names has the same value in both scopes, or is bound in neither. -/
def Scope.AgreeOn (P : String → Prop) (s t : Scope) : Prop :=
  ∀ name, P name → s.find? name = t.find? name

theorem Scope.agreeOn_refl (s : Scope) : s.AgreeOn P s := fun _ _ => rfl

theorem Environment.corresponds_refl {R : Scope → Scope → Prop} (hR : ∀ s, R s s)
    (env : Environment) : env.Corresponds R env :=
  ⟨rfl, List.forall₂_same.2 fun s _ => hR s, hR env.global⟩

/-- Names of the set are alike to themselves, and scopes if they agree on the set. -/
def agreement (P : String → Prop) : Likeness := ⟨fun a b => a = b ∧ P a, Eq, Scope.AgreeOn P⟩

theorem agreement_lawful : (agreement P).Lawful := by
  refine Likeness.lawful_of_eq (Scope.agreeOn_refl _) ?_ ?_
  · rintro s t h x _ ⟨rfl, hx⟩
    exact h x hx
  · rintro s t h x _ ⟨rfl, -⟩ v name hname
    rw [Scope.find?_insert, Scope.find?_insert, h name hname]

theorem agreement_ident {x : Ident} (h : P x.name) : (agreement P).Ident x x := ⟨⟨rfl, h⟩, rfl⟩

theorem Expr.alike_self {e : Expr} (h : ∀ l ∈ e.labels, l.Named P) :
    e.Alike (agreement P) e := by
  induction e with
  | literal v => exact .literal rfl
  | group e ih => exact .group (ih (List.forall_mem_cons.1 h).2)
  | unary op line e ih => exact .unary op line (ih (List.forall_mem_cons.1 h).2)
  | binary op line l r ihl ihr =>
    obtain ⟨hl, hr⟩ := List.forall_mem_append.1 (List.forall_mem_cons.1 h).2
    exact .binary op line (ihl hl) (ihr hr)
  | logical op l r ihl ihr =>
    obtain ⟨hl, hr⟩ := List.forall_mem_append.1 (List.forall_mem_cons.1 h).2
    exact .logical op (ihl hl) (ihr hr)
  | assign x e ih =>
    obtain ⟨hx, he⟩ := List.forall_mem_cons.1 h
    exact .assign (agreement_ident (hx x.name rfl)) (ih he)
  | var x => exact .var (agreement_ident (List.forall_mem_singleton.1 h x.name rfl))

mutual

theorem Stmt.alike_self : ∀ {s : Stmt}, (∀ l ∈ s.labels, l.Named P) → s.Alike (agreement P) s
  | .expression _, h => .expression (Expr.alike_self (List.forall_mem_cons.1 h).2)
  | .print _, h => .print (Expr.alike_self (List.forall_mem_cons.1 h).2)
  | .declare x _, h =>
    have ⟨hx, he⟩ := List.forall_mem_cons.1 h
    .declare (agreement_ident (hx x.name rfl)) (Expr.alike_self he)
  | .block _, h => .block (alikeIn_self (List.forall_mem_cons.1 h).2)
  | .ifThen _ _, h =>
    have ⟨htest, hyes⟩ := List.forall_mem_append.1 (List.forall_mem_cons.1 h).2
    .ifThen (Expr.alike_self htest) (Stmt.alike_self hyes)
  | .ifElse _ _ _, h =>
    have ⟨htest, hbranches⟩ := List.forall_mem_append.1 (List.forall_mem_cons.1 h).2
    have ⟨hyes, hno⟩ := List.forall_mem_append.1 hbranches
    .ifElse (Expr.alike_self htest) (Stmt.alike_self hyes) (Stmt.alike_self hno)
  | .while _ _, h =>
    have ⟨htest, hbody⟩ := List.forall_mem_append.1 (List.forall_mem_cons.1 h).2
    .while (Expr.alike_self htest) (Stmt.alike_self hbody)

theorem alikeIn_self : ∀ {ss : List Stmt}, (∀ l ∈ labelsIn ss, l.Named P) →
    List.Forall₂ (Stmt.Alike (agreement P)) ss ss
  | [], _ => .nil
  | _ :: _, h =>
    have ⟨hs, hss⟩ := List.forall_mem_append.1 h
    .cons (Stmt.alike_self hs) (alikeIn_self hss)

end

end Agreement

/-! The other names. `start` is the environment before the run, and `P` the names that the program
does not mention. -/

section Untouched

variable {P : String → Prop} {start env : Environment} {x : String}

theorem Scope.AgreeOn.insert {s t : Scope} (h : s.AgreeOn P t) (hx : ¬P x) (v : Value) :
    s.AgreeOn P (t.insert x v) := by
  intro name hname
  have hne : name ≠ x := fun heq => hx (heq ▸ hname)
  rw [find?_insert, if_neg hne, h name hname]

namespace Environment.Corresponds

theorem define_right (h : start.Corresponds (Scope.AgreeOn P) env) (hx : ¬P x) (v : Value) :
    start.Corresponds (Scope.AgreeOn P) (env.define x v) := by
  obtain ⟨mode, inner, global⟩ := start
  obtain ⟨mode', inner', global'⟩ := env
  obtain ⟨hmode, hinner, hglobal⟩ := h
  cases hinner with
  | nil => exact ⟨hmode, .nil, hglobal.insert hx v⟩
  | cons hs hrest => exact ⟨hmode, .cons (hs.insert hx v) hrest, hglobal⟩

/-- Whichever scope the name is found in, only its binding changes. -/
theorem assign_right {env' : Environment} {v : Value}
    (h : start.Corresponds (Scope.AgreeOn P) env) (hx : ¬P x) (hassign : env.assign x v = some env') :
    start.Corresponds (Scope.AgreeOn P) env' := by
  obtain ⟨mode, inner, global⟩ := start
  obtain ⟨mode', inner', global'⟩ := env
  obtain ⟨hmode, hinner, hglobal⟩ := h
  dsimp only at hmode hinner hglobal
  induction hinner generalizing env' with
  | nil =>
    rw [assign_nil] at hassign
    split at hassign
    · cases hassign
      exact ⟨hmode, .nil, hglobal.insert hx v⟩
    · cases hassign
  | cons hs hrest ih =>
    rw [assign_cons] at hassign
    split at hassign
    · cases hassign
      exact ⟨hmode, .cons (hs.insert hx v) hrest, hglobal⟩
    · obtain ⟨env'', hfound, rfl⟩ := Option.map_eq_some_iff.1 hassign
      have hkept := ih hfound
      exact ⟨hkept.mode, .cons hs hkept.inner, hkept.global⟩

theorem store_right {y : Ident} (h : start.Corresponds (Scope.AgreeOn P) env) (hy : ¬P y.name)
    (v : Value) : start.Corresponds (Scope.AgreeOn P) (env.store y v).1 := by
  unfold store
  split
  · next env' hassign => exact h.assign_right hy hassign
  · exact h

end Environment.Corresponds

theorem Expr.untouched {e : Expr} (he : ∀ l ∈ e.labels, l.Named (¬P ·))
    (h : start.Corresponds (Scope.AgreeOn P) env) :
    start.Corresponds (Scope.AgreeOn P) (e.eval env).1 :=
  e.eval_keeps (fun x hx _ v h => h.store_right (he (.assign x) hx x.name rfl) v) h

theorem Environment.pop_push (henv : env.Coherent) : env.push.pop = env := by
  unfold push
  split
  · next hflat => rw [pop, henv hflat, List.tail_nil, ← henv hflat]
  · rfl

/-- The end of a block leads back to where the block started. -/
theorem Environment.Corresponds.close {R : Scope → Scope → Prop} (hstart : start.Coherent)
    (h : start.push.Corresponds R env) : start.Corresponds R env.pop := by
  have hpop := h.pop
  rwa [pop_push hstart] at hpop

theorem Machine.untouched_evaluate {m m' : Machine} {e : Expr} {r : Except RuntimeError Value}
    (hv : m.evaluate e = (m', r)) (he : ∀ l ∈ e.labels, l.Named (¬P ·))
    (h : start.Corresponds (Scope.AgreeOn P) m.env) :
    start.Corresponds (Scope.AgreeOn P) m'.env := by
  rw [evaluate_eq] at hv
  cases hv
  exact Expr.untouched he h

theorem Stmt.untouched_goOn {s : Stmt} {m : Machine} (hs : ∀ l ∈ s.labels, l.Named (¬P ·))
    (v : Value) (h : start.Corresponds (Scope.AgreeOn P) m.env) :
    start.Corresponds (Scope.AgreeOn P) (s.goOn m v).1.env := by
  cases s with
  | declare x e => exact h.define_right ((List.forall_mem_cons.1 hs).1 x.name rfl) v
  | _ => exact h

/-- By induction on the run, where `start` is the environment before it: a block is a run from the
environment with its scope open. -/
theorem Exec.untouched {m m' : Machine} {ss : List Stmt} {x : Option RuntimeError}
    (hrun : Exec m ss m' x) (hss : ∀ l ∈ labelsIn ss, l.Named (¬P ·)) (hstart : start.Coherent)
    (h : start.Corresponds (Scope.AgreeOn P) m.env) :
    start.Corresponds (Scope.AgreeOn P) m'.env := by
  induction hrun generalizing start with
  | done => exact h
  | @goes m m₁ m' s ss e v x he hv _ ih =>
    have hvalue := Machine.untouched_evaluate hv (fun l hl => hss l (labels_first he ss hl)) h
    have hgo := Stmt.untouched_goOn (List.forall_mem_append.1 hss).1 v hvalue
    exact ih (fun l hl => hss l (labels_rest m₁ v s ss hl)) hstart hgo
  | @fails m m' s ss e x he hx =>
    exact Machine.untouched_evaluate hx (fun l hl => hss l (labels_first he ss hl)) h
  | block _ _ ihbody ih =>
    obtain ⟨hblock, hss⟩ := List.forall_mem_append.1 hss
    have hinside := ihbody (List.forall_mem_cons.1 hblock).2 (Environment.coherent_push hstart)
      (h.push agreement_lawful)
    exact ih hss hstart (hinside.close hstart)
  | blockFails _ ihbody =>
    obtain ⟨hblock, -⟩ := List.forall_mem_append.1 hss
    have hinside := ihbody (List.forall_mem_cons.1 hblock).2 (Environment.coherent_push hstart)
      (h.push agreement_lawful)
    exact hinside.close hstart

end Untouched

/-- A run uses and changes only the names that stand in its program. Over scopes that agree on
them, both runs come to an end or neither does, print the same text, succeed or fail with the same
error, and leave scopes that agree on them; and no run changes a binding of another name, in any
scope of an environment that the operations can lead to. -/
theorem run_only_names (program : List Stmt) :
    (∀ (env env' : Environment) (sink : Sink),
      env.Corresponds (Scope.AgreeOn (· ∈ namesIn program)) env' →
      ((∃ m x, Machine.Ends ⟨env, sink⟩ program m x) ↔
          ∃ n y, Machine.Ends ⟨env', sink⟩ program n y) ∧
        ∀ m x n y, Machine.Ends ⟨env, sink⟩ program m x → Machine.Ends ⟨env', sink⟩ program n y →
          m.sink = n.sink ∧ x = y ∧
            m.env.Corresponds (Scope.AgreeOn (· ∈ namesIn program)) n.env) ∧
      ∀ (env : Environment) (sink : Sink) (m : Machine) (x : Option RuntimeError), env.Coherent →
        Machine.Ends ⟨env, sink⟩ program m x →
        env.Corresponds (Scope.AgreeOn (· ∉ namesIn program)) m.env := by
  constructor
  · intro env env' sink henv
    have hstart : (agreement (· ∈ namesIn program)).Machine ⟨env, sink⟩ ⟨env', sink⟩ := ⟨henv, rfl⟩
    obtain ⟨hends, halike⟩ := agreement_lawful.runs (alikeIn_self (forall_namesIn fun _ h => h)) hstart
    refine ⟨hends, fun m x n y hm hn => ?_⟩
    obtain ⟨hmachine, herror⟩ := halike m x n y hm hn
    have hname : ∀ a b, (agreement (· ∈ namesIn program)).name a b → a = b := fun _ _ h => h.1
    exact ⟨hmachine.sink, Likeness.eq_of_error hname herror, hmachine.env⟩
  · intro env sink m x henv hm
    have hnames := forall_namesIn (P := fun name => ¬name ∉ namesIn program)
      fun name hname hother => hother hname
    exact (Machine.run_iff_exec.1 hm).untouched hnames henv
      (env.corresponds_refl Scope.agreeOn_refl)

/-- `a = b; { var b = a; print b; print b + c; }` over scopes of which one side binds `z` too. -/
theorem other_name_unseen :
    let program : List Stmt := [.expression (.assign ⟨"a", 1⟩ (.var ⟨"b", 1⟩)),
      .block [.declare ⟨"b", 1⟩ (.var ⟨"a", 1⟩), .print (.var ⟨"b", 1⟩),
        .print (.binary .add 2 (.var ⟨"b", 2⟩) (.var ⟨"c", 2⟩))]]
    let env : Environment := ⟨.lexical, [[("a", .null)]], [("b", .text "x")]⟩
    let env' : Environment :=
      ⟨.lexical, [[("z", .boolean true), ("a", .null)]], [("b", .text "x"), ("z", .null)]⟩
    env.Corresponds (Scope.AgreeOn (· ∈ namesIn program)) env' ∧ env'.Coherent ∧
      ∃ n, Machine.Ends ⟨env', .buffer ""⟩ program n (some ⟨.undefinedVariable "c", 2⟩) ∧
        n.sink = .buffer "x\n" ∧ n.env.global.find? "z" = some .null := by
  intro program env env'
  have henv : env.Corresponds (Scope.AgreeOn (· ∈ namesIn program)) env' := by
    have hnames : namesIn program = ["a", "b", "b", "a", "b", "b", "c"] := rfl
    rw [hnames]
    refine ⟨rfl, .cons ?_ .nil, ?_⟩ <;>
      · intro name hname
        fin_cases hname <;> rfl
  have hcoherent : env'.Coherent := by
    rintro ⟨⟩
  have hrun : Machine.Ends ⟨env, .buffer ""⟩ program
      ⟨⟨.lexical, [[("a", .text "x")]], [("b", .text "x")]⟩, .buffer "x\n"⟩
      (some ⟨.undefinedVariable "c", 2⟩) := ⟨0, by cbv⟩
  obtain ⟨hruns, hother⟩ := run_only_names program
  obtain ⟨hends, halike⟩ := hruns env env' (.buffer "") henv
  obtain ⟨n, y, hn⟩ := hends.1 ⟨_, _, hrun⟩
  obtain ⟨hsink, rfl, -⟩ := halike _ _ _ _ hrun hn
  have hz := (hother env' _ n _ hcoherent hn).global "z" (by decide)
  exact ⟨henv, hcoherent, n, hn, hsink.symm, hz.symm⟩

end TinyScript
