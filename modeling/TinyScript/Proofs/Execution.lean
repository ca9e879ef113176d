import TinyScript.Eval.Statement

/-!
What it is to run statements, said by recursion on blocks and without tasks and rounds. A run of
the machine gives a result, with some number of rounds, just when statements run to it.
-/

namespace TinyScript

/-- The expression that a statement evaluates first, if it is not a block. -/
def Stmt.head? : Stmt → Option Expr
  | expression e => some e
  | print e => some e
  | declare _ e => some e
  | block _ => none
  | ifThen test _ => some test
  | ifElse test _ _ => some test
  | .while test _ => some test

/-- What a statement does with the value of that expression, and what then runs in its place. -/
def Stmt.goOn (m : Machine) (v : Value) : Stmt → Machine × List Stmt
  | expression _ => (m, [])
  | print _ => ({ m with sink := m.sink.printLine v.display }, [])
  | declare x _ => ({ m with env := m.env.define x.name v }, [])
  | block _ => (m, [])
  | ifThen _ yes => (m, if v.truthy then [yes] else [])
  | ifElse _ yes no => (m, [if v.truthy then yes else no])
  | .while test body => (m, if v.truthy then [body, .while test body] else [])

variable [Binary64.NaNChoice]

namespace Machine

def push (m : Machine) : Machine := { m with env := m.env.push }

def pop (m : Machine) : Machine := { m with env := m.env.pop }

theorem evaluate_eq (m : Machine) (e : Expr) :
    m.evaluate e = (⟨(e.eval m.env).1, m.sink⟩, (e.eval m.env).2) := by
  rw [evaluate, Expr.evaluate_eq_eval]

end Machine

/-- `Exec m ss m' x`: from `m` the statements run to `m'`, with the error `x` if there is one. -/
inductive Exec : Machine → List Stmt → Machine → Option RuntimeError → Prop where
  | done {m : Machine} : Exec m [] m none
  | goes {m m₁ m' : Machine} {s : Stmt} {ss : List Stmt} {e : Expr} {v : Value}
      {x : Option RuntimeError} (he : s.head? = some e) (hv : m.evaluate e = (m₁, .ok v))
      (h : Exec (s.goOn m₁ v).1 ((s.goOn m₁ v).2 ++ ss) m' x) : Exec m (s :: ss) m' x
  | fails {m m' : Machine} {s : Stmt} {ss : List Stmt} {e : Expr} {x : RuntimeError}
      (he : s.head? = some e) (hx : m.evaluate e = (m', .error x)) : Exec m (s :: ss) m' (some x)
  | block {m m₁ m' : Machine} {body ss : List Stmt} {x : Option RuntimeError}
      (hbody : Exec m.push body m₁ none) (h : Exec m₁.pop ss m' x) :
      Exec m (.block body :: ss) m' x
  | blockFails {m m₁ : Machine} {body ss : List Stmt} {x : RuntimeError}
      (hbody : Exec m.push body m₁ (some x)) : Exec m (.block body :: ss) m₁.pop (some x)

namespace Exec

variable {m m' m'' : Machine} {a b ss : List Stmt} {x y : Option RuntimeError}

/-- The first expression of a statement is evaluated to one result only. -/
theorem evaluate_unique {s : Stmt} {e e' : Expr} {r r' : Machine × Except RuntimeError Value}
    (he : s.head? = some e) (he' : s.head? = some e') (hr : m.evaluate e = r)
    (hr' : m.evaluate e' = r') : r = r' := by
  obtain rfl : e = e' := Option.some.inj (he.symm.trans he')
  exact hr.symm.trans hr'

theorem deterministic (h : Exec m ss m' x) (h' : Exec m ss m'' y) : m' = m'' ∧ x = y := by
  induction h generalizing m'' y with
  | done =>
    cases h'
    exact ⟨rfl, rfl⟩
  | goes he hv _ ih =>
    cases h' with
    | goes he' hv' h =>
      cases evaluate_unique he he' hv hv'
      exact ih h
    | fails he' hx => cases evaluate_unique he he' hv hx
    | block _ _ => cases he
    | blockFails _ => cases he
  | fails he hx =>
    cases h' with
    | goes he' hv _ => cases evaluate_unique he he' hx hv
    | fails he' hx' =>
      cases evaluate_unique he he' hx hx'
      exact ⟨rfl, rfl⟩
    | block _ _ => cases he
    | blockFails _ => cases he
  | block _ _ ihbody ih =>
    cases h' with
    | goes he _ _ => cases he
    | fails he _ => cases he
    | block hbody h =>
      obtain ⟨rfl, -⟩ := ihbody hbody
      exact ih h
    | blockFails hbody => cases (ihbody hbody).2
  | blockFails _ ihbody =>
    cases h' with
    | goes he _ _ => cases he
    | fails he _ => cases he
    | block hbody _ => cases (ihbody hbody).2
    | blockFails hbody =>
      obtain ⟨rfl, h⟩ := ihbody hbody
      exact ⟨rfl, h⟩

/-- Statements run one after the other. -/
theorem append (h : Exec m a m' none) (h' : Exec m' b m'' y) : Exec m (a ++ b) m'' y := by
  generalize hx : none = x at h
  induction h with
  | done => exact h'
  | goes he hv _ ih =>
    have hrest := ih h' hx
    rw [List.append_assoc] at hrest
    exact .goes he hv hrest
  | fails _ _ => cases hx
  | block hbody _ _ ih => exact .block hbody (ih h' hx)
  | blockFails _ _ => cases hx

/-- What follows an error does not run. -/
theorem append_of_error {x : RuntimeError} (h : Exec m a m' (some x)) (b : List Stmt) :
    Exec m (a ++ b) m' (some x) := by
  generalize hx : some x = y at h
  induction h with
  | done => cases hx
  | goes he hv _ ih =>
    have hrest := ih hx
    rw [List.append_assoc] at hrest
    exact .goes he hv hrest
  | fails he hv => exact .fails he hv
  | block hbody _ _ ih => exact .block hbody (ih hx)
  | blockFails hbody _ => exact .blockFails hbody

theorem of_append (h : Exec m (a ++ b) m'' y) :
    (∃ m', Exec m a m' none ∧ Exec m' b m'' y) ∨ ∃ x, y = some x ∧ Exec m a m'' (some x) := by
  generalize hss : a ++ b = ss at h
  induction h generalizing a with
  | done =>
    obtain ⟨rfl, rfl⟩ := List.append_eq_nil_iff.1 hss
    exact .inl ⟨_, .done, .done⟩
  | @goes m _ _ s ss _ _ _ he hv h ih =>
    cases a with
    | nil =>
      subst hss
      exact .inl ⟨_, .done, .goes he hv h⟩
    | cons s' a =>
      cases hss
      obtain ⟨m', ha, hb⟩ | ⟨x, hx, ha⟩ := ih (List.append_assoc _ _ _)
      · exact .inl ⟨m', .goes he hv ha, hb⟩
      · exact .inr ⟨x, hx, .goes he hv ha⟩
  | fails he hx =>
    cases a with
    | nil =>
      subst hss
      exact .inl ⟨_, .done, .fails he hx⟩
    | cons s' a =>
      cases hss
      exact .inr ⟨_, rfl, .fails he hx⟩
  | block hbody h _ ih =>
    cases a with
    | nil =>
      subst hss
      exact .inl ⟨_, .done, .block hbody h⟩
    | cons s' a =>
      cases hss
      obtain ⟨m', ha, hb⟩ | ⟨x, hx, ha⟩ := ih rfl
      · exact .inl ⟨m', .block hbody ha, hb⟩
      · exact .inr ⟨x, hx, .block hbody ha⟩
  | blockFails hbody _ =>
    cases a with
    | nil =>
      subst hss
      exact .inl ⟨_, .done, .blockFails hbody⟩
    | cons s' a =>
      cases hss
      exact .inr ⟨_, rfl, .blockFails hbody⟩

end Exec

namespace Machine

variable {m m₁ : Machine} {s : Stmt} {ss : List Stmt} {e : Expr} {v : Value} {k k' : List Task}

/-- Tasks that are left may be replaced with others that do the same. -/
theorem execute_append_congr (hk : ∀ rounds m, execute rounds m k = execute rounds m k')
    (hunwind : ∀ env, Task.unwind env k = Task.unwind env k') (rounds : Nat) (m : Machine)
    (j : List Task) : execute rounds m (j ++ k) = execute rounds m (j ++ k') := by
  have hfail : ∀ (m : Machine) (x : RuntimeError) (j : List Task),
      m.fail x (j ++ k) = m.fail x (j ++ k') := by
    intro m x j
    have hunwound : ∀ env, Task.unwind env (j ++ k) = Task.unwind env (j ++ k') := by
      induction j with
      | nil => exact hunwind
      | cons t j ih => cases t <;> exact fun env => ih _
    rw [fail, fail, hunwound]
  -- every step takes tasks from the front and leaves `k` where it is, until `j` is done
  fun_induction execute rounds m j
  case case1 => exact hk _ _
  all_goals simp_all only [execute, List.cons_append, Nat.succ_eq_add_one, if_true, if_false,
    Bool.false_eq_true]

/-- The first of several statements may be a task of its own. -/
theorem execute_cons (s : Stmt) (rounds : Nat) (m : Machine) (ss : List Stmt) (k : List Task) :
    execute rounds m (.statements (s :: ss) :: k) =
      execute rounds m (.statements [s] :: .statements ss :: k) := by
  have hnil : ∀ rounds m, execute rounds m (.statements ss :: k) =
      execute rounds m (.statements [] :: .statements ss :: k) := by
    intro rounds m
    rw [execute]
  cases s with
  | expression e => simp only [execute, fail, Task.unwind]
  | print e => simp only [execute, fail, Task.unwind]
  | declare x e => simp only [execute, fail, Task.unwind]
  | block body =>
    rw [execute, execute]
    exact execute_append_congr hnil (fun _ => rfl) rounds _ [.statements body, .leave]
  | ifThen test yes =>
    have hyes := fun m => execute_cons yes rounds m ss k
    simp only [execute, fail, Task.unwind, hyes]
  | ifElse test yes no =>
    have hyes := fun m => execute_cons yes rounds m ss k
    have hno := fun m => execute_cons no rounds m ss k
    simp only [execute, fail, Task.unwind, hyes, hno]
  | «while» test body =>
    rw [execute, execute]
    exact execute_append_congr hnil (fun _ => rfl) rounds _ [.loop test body]

/-- Some number of rounds is enough. -/
def Finishes (m : Machine) (k : List Task) (r : Finished) : Prop :=
  ∃ rounds, execute rounds m k = some r

theorem finishes_goOn {r : Finished} (he : s.head? = some e)
    (hv : m.evaluate e = (m₁, .ok v))
    (h : Finishes (s.goOn m₁ v).1 (.statements ((s.goOn m₁ v).2 ++ ss) :: k) r) :
    Finishes m (.statements (s :: ss) :: k) r := by
  obtain ⟨rounds, h⟩ := h
  cases s with
  | expression | print | declare =>
    cases he
    exact ⟨rounds, by rw [execute, hv]; exact h⟩
  | block => cases he
  | ifThen test yes =>
    cases he
    refine ⟨rounds, ?_⟩
    rw [execute, hv]
    rw [Stmt.goOn] at h
    split at h <;> simp_all
  | ifElse test yes no =>
    cases he
    refine ⟨rounds, ?_⟩
    rw [execute, hv]
    rw [Stmt.goOn] at h
    split at h <;> simp_all
  | «while» test body =>
    cases he
    rw [Stmt.goOn] at h
    split at h
    · next hv' =>
      -- one round more, in which the loop stands behind its body as a task
      have hloop : ∀ rounds m, execute rounds m (.statements (.while e body :: ss) :: k) =
          execute rounds m (.loop e body :: .statements ss :: k) := by
        intro rounds m
        rw [execute]
      have hbody := execute_append_congr hloop (fun _ => rfl) rounds m₁ [.statements [body]]
      have hsplit := execute_cons body rounds m₁ (.while e body :: ss) k
      refine ⟨rounds + 1, ?_⟩
      rw [execute, execute, hv]
      simp only [hv', if_true]
      exact hbody.symm.trans (hsplit.symm.trans h)
    · next hv' =>
      refine ⟨rounds, ?_⟩
      rw [execute, execute, hv]
      simpa only [hv', Bool.false_eq_true, if_false, List.nil_append] using h

theorem execute_fails {rounds : Nat} {x : RuntimeError} (he : s.head? = some e)
    (hx : m.evaluate e = (m₁, .error x)) :
    execute rounds m (.statements (s :: ss) :: k) = some (m₁.fail x k) := by
  cases s with
  | block => cases he
  | «while» =>
    cases he
    rw [execute, execute, hx]
    rfl
  | _ =>
    cases he
    rw [execute, hx]

/-- What statements run to is found by the machine, whatever the tasks are that are left. -/
theorem finishes_of_exec {m' : Machine} {x : Option RuntimeError} (h : Exec m ss m' x)
    (k : List Task) (r : Finished) (hgo : x = none → Finishes m' k r)
    (hstop : ∀ y, x = some y → r = m'.fail y k) : Finishes m (.statements ss :: k) r := by
  induction h generalizing k r with
  | done =>
    obtain ⟨rounds, h⟩ := hgo rfl
    exact ⟨rounds, by rw [execute]; exact h⟩
  | goes he hv _ ih => exact finishes_goOn he hv (ih k r hgo hstop)
  | fails he hx => exact ⟨0, by rw [execute_fails he hx, hstop _ rfl]⟩
  | @block m m₁ m' body ss x _ _ ihbody ih =>
    obtain ⟨rounds, hrest⟩ := ih k r hgo hstop
    have hleave : Finishes m₁ (.leave :: .statements ss :: k) r :=
      ⟨rounds, by rw [execute]; exact hrest⟩
    have hnone : ∀ y, none = some y → r = m₁.fail y (.leave :: .statements ss :: k) := by
      rintro y ⟨⟩
    obtain ⟨rounds, h⟩ := ihbody _ r (fun _ => hleave) hnone
    exact ⟨rounds, by rw [execute]; exact h⟩
  | @blockFails m m₁ body ss x _ ihbody =>
    have hleave : ∀ y, some x = some y → r = m₁.fail y (.leave :: .statements ss :: k) :=
      fun y hy => hstop y hy
    have hsome : some x = none → Finishes m₁ (.leave :: .statements ss :: k) r := by
      rintro ⟨⟩
    obtain ⟨rounds, h⟩ := ihbody _ r hsome hleave
    exact ⟨rounds, by rw [execute]; exact h⟩

/-- Running `ss` and then the tasks `k` has the result `r`. -/
def Continues (m : Machine) (ss : List Stmt) (k : Machine → Finished → Prop)
    (left : List Task) (r : Finished) : Prop :=
  (∃ m', Exec m ss m' none ∧ k m' r) ∨ ∃ m' x, Exec m ss m' (some x) ∧ r = m'.fail x left

/-- The result of tasks, in terms of what their statements run to. -/
def Leads (m : Machine) : List Task → Finished → Prop
  | [], r => r = (m, none)
  | .leave :: k, r => Leads m.pop k r
  | .statements ss :: k, r => Continues m ss (fun m' => Leads m' k) k r
  | .loop test body :: k, r => Continues m [.while test body] (fun m' => Leads m' k) k r

section

variable {kont : Machine → Finished → Prop} {r : Finished}

theorem continues_goOn (he : s.head? = some e) (hv : m.evaluate e = (m₁, .ok v))
    (h : Continues (s.goOn m₁ v).1 ((s.goOn m₁ v).2 ++ ss) kont k r) :
    Continues m (s :: ss) kont k r := by
  obtain ⟨m', h, hk⟩ | ⟨m', x, h, hr⟩ := h
  · exact .inl ⟨m', .goes he hv h, hk⟩
  · exact .inr ⟨m', x, .goes he hv h, hr⟩

theorem continues_fails {x : RuntimeError} (he : s.head? = some e)
    (hx : m.evaluate e = (m₁, .error x)) : Continues m (s :: ss) kont k (m₁.fail x k) :=
  .inr ⟨m₁, x, .fails he hx, rfl⟩

theorem continues_block {body : List Stmt}
    (h : Continues m.push body (fun m' r => Continues m'.pop ss kont k r)
      (.leave :: .statements ss :: k) r) : Continues m (.block body :: ss) kont k r := by
  obtain ⟨m', hbody, ⟨m'', h, hk⟩ | ⟨m'', x, h, hr⟩⟩ | ⟨m', x, hbody, hr⟩ := h
  · exact .inl ⟨m'', .block hbody h, hk⟩
  · exact .inr ⟨m'', x, .block hbody h, hr⟩
  · exact .inr ⟨m'.pop, x, .blockFails hbody, hr⟩

/-- Statements may be run in two parts. -/
theorem continues_append {a b : List Stmt} {j : List Task}
    (hj : ∀ env, Task.unwind env j = Task.unwind env k)
    (h : Continues m a (fun m' r => Continues m' b kont k r) j r) :
    Continues m (a ++ b) kont k r := by
  obtain ⟨m', ha, ⟨m'', hb, hk⟩ | ⟨m'', x, hb, hr⟩⟩ | ⟨m', x, ha, hr⟩ := h
  · exact .inl ⟨m'', ha.append hb, hk⟩
  · exact .inr ⟨m'', x, ha.append hb, hr⟩
  · exact .inr ⟨m', x, ha.append_of_error b, by rw [hr, fail, fail, hj]⟩

theorem leads_of_execute {rounds : Nat} (h : execute rounds m k = some r) : Leads m k r := by
  fun_induction execute rounds m k
  case case1 => exact (Option.some.inj h).symm
  case case2 ih => exact ih h
  case case3 ih => exact .inl ⟨_, .done, ih h⟩
  case case4 hv ih | case6 hv ih | case8 hv ih => exact continues_goOn rfl hv (ih h)
  case case5 hx | case7 hx | case9 hx | case13 hx | case16 hx | case21 hx =>
    cases h
    exact continues_fails rfl hx
  case case10 ih => exact continues_block (ih h)
  case case11 hv htrue ih | case14 hv htrue ih =>
    refine continues_goOn rfl hv ?_
    rw [Stmt.goOn, if_pos htrue]
    exact ih h
  case case12 hv hfalse ih | case15 hv hfalse ih =>
    refine continues_goOn rfl hv ?_
    rw [Stmt.goOn, if_neg hfalse]
    exact ih h
  case case17 test body ss k ih =>
    exact continues_append (a := [.while test body]) (fun _ => rfl) (ih h)
  case case18 => cases h
  case case19 test body k m₁ v hv htrue rounds ih =>
    refine continues_goOn rfl hv ?_
    rw [Stmt.goOn, if_pos htrue]
    exact continues_append (a := [body]) (fun _ => rfl) (ih h)
  case case20 hv hfalse ih =>
    refine continues_goOn rfl hv ?_
    rw [Stmt.goOn, if_neg hfalse]
    exact .inl ⟨_, .done, ih h⟩

end

/-- The machine gives a result, if it is allowed enough rounds, just when the program runs to it. -/
theorem run_iff_exec {m' : Machine} {x : Option RuntimeError} :
    (∃ rounds, run rounds m ss = some (m', x)) ↔ Exec m ss m' x := by
  constructor
  · rintro ⟨rounds, hrun⟩
    obtain ⟨m₁, h, hr⟩ | ⟨m₁, y, h, hr⟩ := leads_of_execute hrun
    · cases hr
      exact h
    · cases hr
      exact h
  · intro h
    refine finishes_of_exec h [] (m', x) ?_ ?_
    · rintro rfl
      exact ⟨0, by rw [execute]⟩
    · rintro y rfl
      rfl

end Machine

end TinyScript
