import Mathlib
import TinyScript.Proofs.Culprits
import TinyScript.Proofs.ScopeDiscipline

/-!
What is left behind by an evaluation or a run, whether it succeeds or fails. An expression changes
values where its names are bound; names are bound by declarations that are complete, and text is
printed by print statements that are.
-/

namespace TinyScript

namespace Environment

/-- The value of the name in one of the scopes, which are counted from the innermost one on. -/
def valueAt (env : Environment) (i : Nat) (name : String) : Option Value :=
  env.scopes[i]?.bind (·.find? name)

/-- The innermost scope that binds the name. -/
def home? (env : Environment) (name : String) : Option Nat :=
  env.scopes.findIdx? (·.binds name)

/-- From one environment to the other nothing changes but values of the names in question, each in
the innermost scope that binds it. -/
structure Revises (target : String → Prop) (env env' : Environment) : Prop where
  mode : env'.mode = env.mode
  names : env'.names = env.names
  value : ∀ i name, env'.valueAt i name ≠ env.valueAt i name →
    target name ∧ env.home? name = some i

theorem home?_eq (env : Environment) (name : String) :
    env.home? name = env.names.findIdx? (· name) := by
  rw [home?, Environment.names, List.findIdx?_map]
  rfl

theorem scopes_assign {env env' : Environment} {x : String} {v : Value}
    (h : env.assign x v = some env') :
    ∃ i, env.home? x = some i ∧ env'.scopes = env.scopes.modify i (·.insert x v) := by
  obtain ⟨mode, inner, global⟩ := env
  induction inner generalizing env' with
  | nil =>
    rw [assign_nil] at h
    split at h
    · next hx =>
      cases h
      exact ⟨0, by simp [home?, scopes, hx], rfl⟩
    · cases h
  | cons s rest ih =>
    rw [assign_cons] at h
    by_cases hs : s.binds x
    · rw [if_pos hs] at h
      cases h
      exact ⟨0, by simp [home?, scopes, List.findIdx?_cons, hs], rfl⟩
    · rw [if_neg hs, Option.map_eq_some_iff] at h
      obtain ⟨env'', h, rfl⟩ := h
      obtain ⟨i, hi, hscopes⟩ := ih h
      refine ⟨i + 1, ?_, congrArg (s :: ·) hscopes⟩
      rw [home?, scopes] at hi ⊢
      simp [List.findIdx?_cons, hs, hi]

/-- An assignment changes one value in one scope. -/
theorem home_of_assign {env env' : Environment} {x : String} {v : Value}
    (h : env.assign x v = some env') {i : Nat} {name : String}
    (hne : env'.valueAt i name ≠ env.valueAt i name) : name = x ∧ env.home? name = some i := by
  obtain ⟨j, hj, hscopes⟩ := scopes_assign h
  rw [valueAt, valueAt, hscopes, List.getElem?_modify] at hne
  by_cases hij : j = i
  · subst hij
    by_cases hname : name = x
    · exact ⟨hname, hname ▸ hj⟩
    · refine absurd ?_ hne
      cases env.scopes[j]? <;> simp [Scope.find?_insert, hname]
  · simp [hij] at hne

namespace Revises

variable {target : String → Prop} {env env' env'' : Environment}

theorem refl (env : Environment) : Revises target env env := ⟨rfl, rfl, fun _ _ h => absurd rfl h⟩

theorem trans (h : Revises target env env') (h' : Revises target env' env'') :
    Revises target env env'' := by
  refine ⟨h'.mode.trans h.mode, h'.names.trans h.names, fun i name hne => ?_⟩
  by_cases hfirst : env'.valueAt i name = env.valueAt i name
  · rw [← hfirst] at hne
    obtain ⟨hname, hhome⟩ := h'.value i name hne
    rw [home?_eq, h.names, ← home?_eq] at hhome
    exact ⟨hname, hhome⟩
  · exact h.value i name hfirst

theorem store {x : Ident} (v : Value) (hx : target x.name) :
    Revises target env (env.store x v).1 := by
  obtain ⟨-, hassign⟩ | ⟨env', hassign, -, -, hnames, hmode, -⟩ := env.assign_spec x.name v
  · rw [Environment.store, hassign]
    exact refl env
  · rw [Environment.store, hassign]
    refine ⟨hmode, hnames, fun i name hne => ?_⟩
    obtain ⟨rfl, hhome⟩ := home_of_assign hassign hne
    exact ⟨hx, hhome⟩

end Revises

theorem lookup_pop_of_none {env : Environment} {name : String} (h : env.lookup name = none) :
    env.pop.lookup name = none := by
  obtain ⟨mode, inner, global⟩ := env
  cases inner with
  | nil => exact h
  | cons s rest =>
    rw [lookup_cons, Option.or_eq_none_iff] at h
    exact h.2

theorem contains_of_pop {env : Environment} {name : String} (h : env.pop.contains name) :
    env.contains name := by
  by_contra hnone
  rw [contains, Option.not_isSome_iff_eq_none] at hnone
  rw [contains, lookup_pop_of_none hnone] at h
  cases h

theorem contains_push (env : Environment) (name : String) :
    env.push.contains name = env.contains name := by rw [contains, lookup_push, contains]

theorem Grows.contains {env env' : Environment} (h : Grows env env') {name : String}
    (hname : env.contains name) : env'.contains name := by
  rw [Environment.contains, lookup_isSome, names_eq, List.any_cons, Bool.or_eq_true] at hname ⊢
  rw [h.outer]
  exact hname.imp_left (h.bound name)

end Environment

/-- Some part of the expression assigns to the name. -/
def Expr.Assigns (e : Expr) (name : String) : Prop := ∃ x, .assign x ∈ e.labels ∧ x.name = name

theorem Expr.revises (e : Expr) (env : Environment) :
    env.Revises e.Assigns (e.eval env).1 :=
  e.eval_keeps (P := env.Revises e.Assigns)
    (fun x hx _ v h => h.trans (.store v ⟨x, hx, rfl⟩)) (.refl env)

/-- The name that an error says is bound nowhere. -/
def RuntimeFault.missing? : RuntimeFault → Option String
  | undefinedVariable name | undeclaredAssignment name => some name
  | _ => none

/-- A name is bound nowhere if the error says so. -/
def Evaluated.Truthful (r : Evaluated) : Prop :=
  ∀ x name, r.2 = .error x → x.fault.missing? = some name → r.1.lookup name = none

namespace Evaluated.Truthful

theorem of_ok (env : Environment) (v : Value) : Truthful (env, .ok v) := by
  rintro x name ⟨⟩

theorem ofOperation (env : Environment) (line : Nat) {r : Except RuntimeFault Value}
    (hr : ∀ fault, r = .error fault → fault.missing? = none) :
    Truthful (.ofOperation env line r) := by
  intro x name hx hmissing
  obtain ⟨fault, hfault, rfl⟩ := error_of_operation hx
  rw [hr fault hfault] at hmissing
  cases hmissing

theorem andThen {r : Evaluated} {f : Environment → Value → Evaluated} (hr : r.Truthful)
    (hf : ∀ env v, (f env v).Truthful) : (r.andThen f).Truthful := by
  obtain ⟨env, x | v⟩ := r
  · exact hr
  · exact hf env v

theorem read (env : Environment) (x : Ident) : (env.read x).Truthful := by
  unfold Environment.read
  split
  · exact of_ok env _
  · next h =>
    rintro y name ⟨⟩ ⟨⟩
    exact h

theorem store (env : Environment) (x : Ident) (v : Value) : (env.store x v).Truthful := by
  obtain ⟨hnone, hassign⟩ | ⟨env', hassign, -⟩ := env.assign_spec x.name v
  · rw [Environment.store, hassign]
    rintro y name ⟨⟩ ⟨⟩
    exact hnone
  · rw [Environment.store, hassign]
    exact of_ok env' v

end Evaluated.Truthful

theorem UnaryOp.missing_of_apply {op : UnaryOp} {v : Value} (fault : RuntimeFault)
    (h : op.apply v = .error fault) : fault.missing? = none := by
  have hfault := fault_of_apply h
  cases op <;> cases hfault
  rfl

theorem BinaryOp.missing_of_apply {op : BinaryOp} {a b : Value} (fault : RuntimeFault)
    (h : op.apply a b = .error fault) : fault.missing? = none := by
  have hfault := fault_of_apply h
  cases op <;> cases hfault <;> rfl

theorem Expr.truthful (e : Expr) (env : Environment) : (e.eval env).Truthful := by
  induction e generalizing env with
  | literal v => exact .of_ok env v
  | group e ih => exact ih env
  | unary op line e ih =>
    exact .andThen (ih env) fun env _ => .ofOperation env line UnaryOp.missing_of_apply
  | binary op line l r ihl ihr =>
    exact .andThen (ihl env) fun env _ => .andThen (ihr env) fun env _ =>
      .ofOperation env line BinaryOp.missing_of_apply
  | logical op l r ihl ihr =>
    refine .andThen (ihl env) fun env a => ?_
    split
    · exact .of_ok env a
    · exact ihr env
  | assign x e ih => exact .andThen (ih env) fun env v => .store env x v
  | var x => exact .read env x

/-- A name that a run ends without finding stays unbound when the open blocks are closed. -/
theorem Exec.missing {m m' : Machine} {ss : List Stmt} {x : RuntimeError} {name : String}
    (h : Exec m ss m' (some x)) (hname : x.fault.missing? = some name) :
    m'.env.lookup name = none := by
  generalize hy : some x = y at h
  induction h with
  | done => cases hy
  | goes _ _ _ ih => exact ih hy
  | @fails m m' s ss e _ he hx =>
    cases hy
    rw [Machine.evaluate_eq] at hx
    obtain ⟨rfl, hfail⟩ := Prod.mk.inj hx
    exact e.truthful m.env x name hfail hname
  | block _ _ _ ih => exact ih hy
  | blockFails _ ih => exact Environment.lookup_pop_of_none (ih hy)

/-! What a run comes to on its way. -/

/-- `Arrives m ss m₁ s`: on its way from `m` through `ss` the run comes to the statement `s`, and
the machine is `m₁` there. -/
inductive Arrives : Machine → List Stmt → Machine → Stmt → Prop where
  | here {m : Machine} {s : Stmt} {ss : List Stmt} : Arrives m (s :: ss) m s
  | goes {m m₁ m' : Machine} {s t : Stmt} {ss : List Stmt} {e : Expr} {v : Value}
      (he : s.head? = some e) (hv : m.evaluate e = (m₁, .ok v))
      (h : Arrives (s.goOn m₁ v).1 ((s.goOn m₁ v).2 ++ ss) m' t) : Arrives m (s :: ss) m' t
  | inside {m m' : Machine} {t : Stmt} {body ss : List Stmt} (h : Arrives m.push body m' t) :
      Arrives m (.block body :: ss) m' t
  | behind {m m₁ m' : Machine} {t : Stmt} {body ss : List Stmt} (hbody : Exec m.push body m₁ none)
      (h : Arrives m₁.pop ss m' t) : Arrives m (.block body :: ss) m' t

namespace Machine

/-- The run comes to the statement, and the expression that it starts with has the value. -/
def Performs (m : Machine) (ss : List Stmt) (s : Stmt) (v : Value) : Prop :=
  ∃ m₁ e, Arrives m ss m₁ s ∧ s.head? = some e ∧ (m₁.evaluate e).2 = .ok v

/-- Each value on a line of its own. -/
def printed : List Value → String
  | [] => ""
  | v :: vs => v.display.push '\n' ++ printed vs

/-- The sink has got lines behind those of the machine, each the value of a `print` of the run. -/
def Shows (m : Machine) (ss : List Stmt) (sink : Sink) : Prop :=
  ∃ vs, sink = m.sink.write (printed vs) ∧ ∀ v ∈ vs, ∃ e, m.Performs ss (.print e) v

theorem printed_append (vs ws : List Value) : printed (vs ++ ws) = printed vs ++ printed ws := by
  induction vs with
  | nil => rw [printed, String.empty_append]; rfl
  | cons v vs ih => rw [List.cons_append, printed, printed, ih, String.append_assoc]

theorem write_printed_cons (sink : Sink) (v : Value) (vs : List Value) :
    (sink.printLine v.display).write (printed vs) = sink.write (printed (v :: vs)) := by
  rw [Sink.printLine_eq, Sink.write_write, printed]

variable {m m₁ m₂ : Machine} {s t : Stmt} {ss body : List Stmt} {e : Expr} {v w : Value}

theorem contains_evaluate {r : Except RuntimeError Value} (h : m.evaluate e = (m₁, r))
    (name : String) : m₁.env.contains name = m.env.contains name := by
  rw [evaluate_eq] at h
  cases h
  rw [Environment.contains, Environment.lookup_isSome, e.names_eval,
    ← Environment.lookup_isSome, Environment.contains]

theorem sink_evaluate {r : Except RuntimeError Value} (h : m.evaluate e = (m₁, r)) :
    m₁.sink = m.sink := by
  cases h
  rfl

namespace Performs

theorem here (he : s.head? = some e) (hv : m.evaluate e = (m₁, .ok v)) :
    m.Performs (s :: ss) s v := ⟨m, e, .here, he, by rw [hv]⟩

theorem goes (he : s.head? = some e) (hv : m.evaluate e = (m₁, .ok v))
    (h : (s.goOn m₁ v).1.Performs ((s.goOn m₁ v).2 ++ ss) t w) : m.Performs (s :: ss) t w := by
  obtain ⟨m₂, e₂, h, he₂, hw⟩ := h
  exact ⟨m₂, e₂, .goes he hv h, he₂, hw⟩

theorem inside (h : m.push.Performs body t w) : m.Performs (.block body :: ss) t w := by
  obtain ⟨m₂, e₂, h, he₂, hw⟩ := h
  exact ⟨m₂, e₂, .inside h, he₂, hw⟩

theorem behind (hbody : Exec m.push body m₁ none) (h : m₁.pop.Performs ss t w) :
    m.Performs (.block body :: ss) t w := by
  obtain ⟨m₂, e₂, h, he₂, hw⟩ := h
  exact ⟨m₂, e₂, .behind hbody h, he₂, hw⟩

end Performs

namespace Shows

variable {sink : Sink}

theorem refl (m : Machine) (ss : List Stmt) : m.Shows ss m.sink :=
  ⟨[], (Sink.write_empty _).symm, fun _ h => absurd h List.not_mem_nil⟩

/-- Only a `print` adds something to what was printed before. -/
theorem goes (he : s.head? = some e) (hv : m.evaluate e = (m₁, .ok v))
    (h : (s.goOn m₁ v).1.Shows ((s.goOn m₁ v).2 ++ ss) sink) : m.Shows (s :: ss) sink := by
  obtain ⟨vs, rfl, hvs⟩ := h
  have hlater : ∀ w ∈ vs, ∃ e, m.Performs (s :: ss) (.print e) w := fun w hw =>
    (hvs w hw).imp fun _ h => h.goes he hv
  have hsink := sink_evaluate hv
  cases s with
  | print e' =>
    refine ⟨v :: vs, ?_, ?_⟩
    · rw [Stmt.goOn, write_printed_cons, hsink]
    · rintro w (_ | ⟨_, hw⟩)
      · exact ⟨e', .here he hv⟩
      · exact hlater w hw
  | _ => exact ⟨vs, congrArg _ hsink, hlater⟩

theorem inside (h : m.push.Shows body sink) : m.Shows (.block body :: ss) sink := by
  obtain ⟨vs, rfl, hvs⟩ := h
  exact ⟨vs, rfl, fun w hw => (hvs w hw).imp fun _ h => h.inside⟩

theorem behind (hbody : Exec m.push body m₁ none) (hshown : m.push.Shows body m₁.sink)
    (h : m₁.pop.Shows ss sink) : m.Shows (.block body :: ss) sink := by
  obtain ⟨vs, hsink, hvs⟩ := hshown
  obtain ⟨ws, rfl, hws⟩ := h
  refine ⟨vs ++ ws, ?_, fun w hw => ?_⟩
  · rw [printed_append, ← Sink.write_write]
    exact congrArg _ hsink
  · obtain hw | hw := List.mem_append.1 hw
    · exact (hvs w hw).imp fun _ h => h.inside
    · exact (hws w hw).imp fun _ h => h.behind hbody

end Shows

end Machine

theorem Exec.shows {m m' : Machine} {ss : List Stmt} {x : Option RuntimeError}
    (h : Exec m ss m' x) : m.Shows ss m'.sink := by
  induction h with
  | done => exact .refl _ _
  | goes he hv _ ih => exact .goes he hv ih
  | fails _ hx =>
    rw [Machine.sink_evaluate hx]
    exact .refl _ _
  | block hbody _ ihbody ih => exact .behind hbody ihbody ih
  | blockFails _ ihbody => exact .inside ihbody

/-- The value of a `print` is the first that is printed. -/
theorem Exec.first_printed {m m' : Machine} {s : Stmt} {ss : List Stmt} {x : Option RuntimeError}
    (h : Exec m (s :: ss) m' x) : ∃ vs, m'.sink = m.sink.write (Machine.printed vs) ∧
      ∀ e v, s = .print e → (m.evaluate e).2 = .ok v → vs.head? = some v := by
  by_cases hprint : ∃ e v, s = .print e ∧ (m.evaluate e).2 = .ok v
  · obtain ⟨e, v, rfl, hv⟩ := hprint
    cases h with
    | @goes _ m₁ _ _ _ _ w _ he hw h =>
      cases he
      obtain ⟨vs, hsink, -⟩ := h.shows
      refine ⟨w :: vs, ?_, ?_⟩
      · rw [hsink, Stmt.goOn, Machine.write_printed_cons, Machine.sink_evaluate hw]
      · rintro e' v' ⟨⟩ hv'
        rw [hw] at hv'
        cases hv'
        rfl
    | fails he hx =>
      cases he
      rw [hx] at hv
      cases hv
  · obtain ⟨vs, hsink, -⟩ := h.shows
    exact ⟨vs, hsink, fun e v hs hv => absurd ⟨e, v, hs, hv⟩ hprint⟩

/-- By induction on the run: what is bound at its end was bound before, or by a declaration of the
name that it has come to the end of. -/
theorem Exec.declared {m m' : Machine} {ss : List Stmt} {x : Option RuntimeError} {name : String}
    (h : Exec m ss m' x) (hnew : m'.env.contains name) (hold : ¬ m.env.contains name) :
    ∃ y e v, y.name = name ∧ m.Performs ss (.declare y e) v := by
  induction h with
  | done => exact absurd hnew hold
  | @goes m m₁ m' s ss e v x he hv _ ih =>
    by_cases hfirst : (s.goOn m₁ v).1.env.contains name
    · rw [← Machine.contains_evaluate hv] at hold
      cases s with
      | declare y e' =>
        rw [Stmt.goOn, Environment.contains, Environment.lookup_define] at hfirst
        split at hfirst
        · next hy => exact ⟨y, e', v, hy.symm, .here he hv⟩
        · exact absurd hfirst hold
      | _ => exact absurd hfirst hold
    · obtain ⟨y, e', w, hy, h⟩ := ih hnew hfirst
      exact ⟨y, e', w, hy, h.goes he hv⟩
  | fails _ hx =>
    rw [Machine.contains_evaluate hx] at hnew
    exact absurd hnew hold
  | @block m m₁ m' body ss x hbody _ ihbody ih =>
    by_cases hinside : m₁.pop.env.contains name
    · rw [← Environment.contains_push] at hold
      obtain ⟨y, e, v, hy, h⟩ := ihbody (Environment.contains_of_pop hinside) hold
      exact ⟨y, e, v, hy, h.inside⟩
    · obtain ⟨y, e, v, hy, h⟩ := ih hnew hinside
      exact ⟨y, e, v, hy, h.behind hbody⟩
  | blockFails _ ihbody =>
    rw [← Environment.contains_push] at hold
    obtain ⟨y, e, v, hy, h⟩ := ihbody (Environment.contains_of_pop hnew) hold
    exact ⟨y, e, v, hy, h.inside⟩

namespace Arrives

variable {m m₁ m₂ : Machine} {s : Stmt} {ss : List Stmt}

theorem shows (h : Arrives m ss m₁ s) : m.Shows ss m₁.sink := by
  induction h with
  | here => exact .refl _ _
  | goes he hv _ ih => exact .goes he hv ih
  | inside _ ih => exact .inside ih
  | behind hbody _ ih => exact .behind hbody hbody.shows ih

theorem labels_subset (h : Arrives m ss m₁ s) : s.labels ⊆ labelsIn ss := by
  induction h with
  | here => exact List.subset_append_left _ _
  | goes _ _ _ ih => exact List.Subset.trans ih (labels_rest _ _ _ _)
  | inside _ ih =>
    exact fun l hl => List.mem_append_left _ (List.mem_cons_of_mem _ (ih hl))
  | behind _ _ ih => exact fun l hl => List.mem_append_right _ (ih hl)

/-- The error of a statement is that of the run, which prints nothing more. -/
theorem fails {x : RuntimeError} (h : Arrives m ss m₁ s) (hs : Exec m₁ [s] m₂ (some x)) :
    ∃ m', Exec m ss m' (some x) ∧ m'.sink = m₂.sink := by
  induction h with
  | @here _ _ ss => exact ⟨m₂, hs.append_of_error ss, rfl⟩
  | goes he hv _ ih =>
    obtain ⟨m', h, hsink⟩ := ih hs
    exact ⟨m', .goes he hv h, hsink⟩
  | inside _ ih =>
    obtain ⟨m', h, hsink⟩ := ih hs
    exact ⟨m'.pop, .blockFails h, hsink⟩
  | behind hbody _ ih =>
    obtain ⟨m', h, hsink⟩ := ih hs
    exact ⟨m', .block hbody h, hsink⟩

/-- The run goes on from there, and what it prints later follows. -/
theorem goes_on {m' : Machine} {x : Option RuntimeError} (h : Arrives m ss m₁ s)
    (hrun : Exec m ss m' x) : ∃ rest m₂ y vs, Exec m₁ (s :: rest) m₂ y ∧
      m'.sink = m₂.sink.write (Machine.printed vs) := by
  induction h generalizing m' x with
  | @here _ _ ss => exact ⟨ss, m', x, [], hrun, (Sink.write_empty _).symm⟩
  | goes he hv _ ih =>
    cases hrun with
    | goes he' hv' hrun =>
      cases Exec.evaluate_unique he he' hv hv'
      exact ih hrun
    | fails he' hx => cases Exec.evaluate_unique he he' hv hx
    | block => cases he
    | blockFails => cases he
  | inside _ ih =>
    cases hrun with
    | goes he => cases he
    | fails he => cases he
    | block hbody hrun =>
      obtain ⟨rest, m₂, y, vs, h, hsink⟩ := ih hbody
      obtain ⟨ws, hlater, -⟩ := hrun.shows
      refine ⟨rest, m₂, y, vs ++ ws, h, ?_⟩
      rw [hlater, Machine.printed_append, ← Sink.write_write, ← hsink]
      rfl
    | blockFails hbody =>
      obtain ⟨rest, m₂, y, vs, h, hsink⟩ := ih hbody
      exact ⟨rest, m₂, y, vs, h, hsink⟩
  | behind hbody _ ih =>
    cases hrun with
    | goes he => cases he
    | fails he => cases he
    | block hbody' hrun =>
      obtain ⟨rfl, -⟩ := hbody.deterministic hbody'
      exact ih hrun
    | blockFails hbody' => cases (hbody.deterministic hbody').2

/-- What was printed stays, and if the statement is a `print` its value is what follows. -/
theorem kept {m' : Machine} {x : Option RuntimeError} (h : Arrives m ss m₁ s)
    (hrun : Exec m ss m' x) : ∃ vs, m'.sink = m₁.sink.write (Machine.printed vs) ∧
      ∀ e v, s = .print e → (m₁.evaluate e).2 = .ok v → vs.head? = some v := by
  obtain ⟨rest, m₂, y, ws, hrest, hsink⟩ := h.goes_on hrun
  obtain ⟨vs, hsink₂, hfirst⟩ := hrest.first_printed
  refine ⟨vs ++ ws, ?_, fun e v hs hv => ?_⟩
  · rw [hsink, hsink₂, Machine.printed_append, Sink.write_write]
  · rw [List.head?_append, hfirst e v hs hv]
    rfl

end Arrives

/-- A run that fails comes to a statement that fails by itself, and prints nothing there. -/
theorem Exec.arrives {m m' : Machine} {ss : List Stmt} {x : RuntimeError}
    (h : Exec m ss m' (some x)) : ∃ m₁ s e, Arrives m ss m₁ s ∧ s.head? = some e ∧
      (m₁.evaluate e).2 = .error x ∧ m'.sink = m₁.sink := by
  generalize hy : some x = y at h
  induction h with
  | done => cases hy
  | goes he hv _ ih =>
    obtain ⟨m₁, t, e', h, ht, hx, hsink⟩ := ih hy
    exact ⟨m₁, t, e', .goes he hv h, ht, hx, hsink⟩
  | @fails m m' s ss e _ he hx =>
    cases hy
    exact ⟨m, s, e, .here, he, congrArg Prod.snd hx, Machine.sink_evaluate hx⟩
  | block hbody _ _ ih =>
    obtain ⟨m₁, t, e', h, ht, hx, hsink⟩ := ih hy
    exact ⟨m₁, t, e', .behind hbody h, ht, hx, hsink⟩
  | blockFails _ ih =>
    obtain ⟨m₁, t, e', h, ht, hx, hsink⟩ := ih hy
    exact ⟨m₁, t, e', .inside h, ht, hx, hsink⟩

theorem Exec.sink_of_print {m m' : Machine} {e : Expr} {x : RuntimeError}
    (h : Exec m [.print e] m' (some x)) : m'.sink = m.sink := by
  cases h with
  | goes he hv h => cases h
  | fails he hx => exact Machine.sink_evaluate hx

/-- An expression prints nothing, binds nothing and changes values only of names that it assigns to,
each in the innermost scope that binds it. A run unbinds no name and binds only names of its
declarations that are complete; a name that it ends without finding is unbound then. Its text is
that of its complete `print` statements, a line for each value; what was printed before a statement
is kept, whether that fails or not, and a `print` adds its value there, or nothing if it fails. In
flat mode `Coherent` says that no block has a scope, as in every environment that is `Built`. -/
theorem Machine.bound_and_printed (m : Machine) :
    (∀ e, (m.evaluate e).1.sink = m.sink ∧ m.env.Revises e.Assigns (m.evaluate e).1.env) ∧
      (∀ ss m' x, m.Ends ss m' x →
        (∀ name, m.env.Coherent → m.env.contains name → m'.env.contains name) ∧
        (∀ name, m'.env.contains name → ¬ m.env.contains name →
          ∃ y e v, y.name = name ∧ .declare y ∈ labelsIn ss ∧
            m.Performs ss (.declare y e) v) ∧
        (∀ name y, x = some y →
          y.fault = .undefinedVariable name ∨ y.fault = .undeclaredAssignment name →
            ¬ m'.env.contains name) ∧
        m.Shows ss m'.sink ∧
        ∀ y, x = some y → ∃ m₁ s e, Arrives m ss m₁ s ∧ s.head? = some e ∧
          (m₁.evaluate e).2 = .error y ∧ m'.sink = m₁.sink) ∧
      ∀ ss m₁ s, Arrives m ss m₁ s → m.Shows ss m₁.sink ∧
        (∀ m' x, m.Ends ss m' x → ∃ vs, m'.sink = m₁.sink.write (printed vs) ∧
          ∀ e v, s = .print e → (m₁.evaluate e).2 = .ok v → vs.head? = some v) ∧
        ∀ m₂ y, m₁.Ends [s] m₂ (some y) → m₁.Shows [s] m₂.sink ∧
          (∀ e, s = .print e → m₂.sink = m₁.sink) ∧
          ∃ m', m.Ends ss m' (some y) ∧ m'.sink = m₂.sink := by
  refine ⟨fun e => ⟨rfl, ?_⟩, fun ss m' x hrun => ?_, fun ss m₁ s harrives => ?_⟩
  · rw [evaluate_eq]
    exact e.revises m.env
  · have h := run_iff_exec.1 hrun
    refine ⟨fun name hm => (h.grows hm).contains, fun name hnew hold => ?_, ?_, h.shows, ?_⟩
    · obtain ⟨y, e, v, hy, hperforms⟩ := h.declared hnew hold
      have ⟨m₁, e', harrives, _⟩ := hperforms
      exact ⟨y, e, v, hy, harrives.labels_subset List.mem_cons_self, hperforms⟩
    · rintro name y rfl hfault
      have hmissing : y.fault.missing? = some name := by
        obtain hfault | hfault := hfault <;> rw [hfault, RuntimeFault.missing?]
      rw [Environment.contains, h.missing hmissing]
      exact Bool.false_ne_true
    · rintro y rfl
      exact h.arrives
  · refine ⟨harrives.shows, fun m' x hrun => harrives.kept (run_iff_exec.1 hrun),
      fun m₂ y hrun => ?_⟩
    have h := run_iff_exec.1 hrun
    obtain ⟨m', hfails, hsink⟩ := harrives.fails h
    refine ⟨h.shows, ?_, m', run_iff_exec.2 hfails, hsink⟩
    rintro e rfl
    exact h.sink_of_print

/-- After `{ var c = "x"; print c; }` the statement `print (a = c) == (b = c);` finds no `b`. -/
theorem Machine.failing_print_effects :
    let m : Machine := ⟨⟨.flat, [], [("a", .null)]⟩, .buffer "o\n"⟩
    let m₁ : Machine := ⟨⟨.flat, [], [("c", .text "x"), ("a", .null)]⟩, .buffer "o\nx\n"⟩
    let m' : Machine := ⟨⟨.flat, [], [("c", .text "x"), ("a", .text "x")]⟩, .buffer "o\nx\n"⟩
    let e : Expr := .binary .eq 2 (.assign ⟨"a", 2⟩ (.var ⟨"c", 2⟩))
      (.assign ⟨"b", 2⟩ (.var ⟨"c", 2⟩))
    let ss : List Stmt := [.block [.declare ⟨"c", 1⟩ (.literal (.text "x")),
      .print (.var ⟨"c", 1⟩)], .print e]
    m.Ends ss m' (some ⟨.undeclaredAssignment "b", 2⟩) ∧
      (m₁.env.Revises e.Assigns m'.env ∧ e.Assigns "a" ∧ m₁.env.home? "a" = some 0) ∧
      m'.env.contains "a" ∧
      (∃ y e v, y.name = "c" ∧ .declare y ∈ labelsIn ss ∧ m.Performs ss (.declare y e) v) ∧
      ¬ m'.env.contains "b" ∧ m.Shows ss m'.sink ∧ Arrives m ss m₁ (.print e) ∧
      m.Shows ss m₁.sink ∧ m'.sink = m₁.sink := by
  intro m m₁ m' e ss
  have hrun : m.Ends ss m' (some ⟨.undeclaredAssignment "b", 2⟩) := ⟨0, by cbv⟩
  have hlast : m₁.Ends [.print e] m' (some ⟨.undeclaredAssignment "b", 2⟩) := ⟨0, by cbv⟩
  have hblock : m.push.Ends [.declare ⟨"c", 1⟩ (.literal (.text "x")), .print (.var ⟨"c", 1⟩)] m₁
      none := ⟨0, by cbv⟩
  have harrives : Arrives m ss m₁ (.print e) := .behind (run_iff_exec.1 hblock) .here
  obtain ⟨-, hends, hfails⟩ := m.bound_and_printed
  obtain ⟨hkept, hdeclared, hmissing, hshown, -⟩ := hends ss m' _ hrun
  obtain ⟨hbefore, -, hprint⟩ := hfails ss m₁ (.print e) harrives
  obtain ⟨-, hsame, -⟩ := hprint m' _ hlast
  obtain ⟨hevaluate, -⟩ := m₁.bound_and_printed
  have hrevises := (hevaluate e).2
  have hvalue : m₁.evaluate e = (m', .error ⟨.undeclaredAssignment "b", 2⟩) := by cbv
  rw [hvalue] at hrevises
  refine ⟨hrun, ⟨hrevises, ⟨⟨"a", 2⟩, ?_, rfl⟩, rfl⟩, hkept "a" (fun _ => rfl) (by decide), ?_, ?_,
    hshown, harrives, hbefore, hsame e rfl⟩
  · simp [e, Expr.labels]
  · exact hdeclared "c" (by decide) (by decide)
  · exact hmissing "b" _ rfl (.inr rfl)

end TinyScript
