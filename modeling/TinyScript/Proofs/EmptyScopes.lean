import TinyScript.Proofs.ScopeDiscipline
import TinyScript.Proofs.ScopeModes

/-!
A scope that binds nothing cannot be seen. Statements run with it as they run without it, as long
as they declare no name while it is the innermost scope, for it would take the binding.
-/

namespace TinyScript

namespace Environment

/-- The environment with an empty scope more, behind the `n` innermost ones. -/
def pad (n : Nat) (env : Environment) : Environment :=
  { env with inner := env.inner.insertIdx n [] }

theorem pad_succ (n : Nat) (mode : ScopeMode) (s : Scope) (rest : List Scope) (global : Scope) :
    pad (n + 1) ⟨mode, s :: rest, global⟩ =
      ⟨mode, s :: (pad n ⟨mode, rest, global⟩).inner, global⟩ := rfl

theorem push_eq_pad {env : Environment} (h : env.mode = .lexical) : env.push = env.pad 0 := by
  obtain ⟨mode, inner, global⟩ := env
  cases h
  rfl

theorem pop_pad (env : Environment) : (env.pad 0).pop = env := rfl

theorem lookup_pad (n : Nat) (env : Environment) (name : String) :
    (env.pad n).lookup name = env.lookup name := by
  obtain ⟨mode, inner, global⟩ := env
  induction inner generalizing n with
  | nil => cases n <;> rfl
  | cons s rest ih =>
    cases n with
    | zero => rfl
    | succ n =>
      rw [pad_succ, lookup_cons, lookup_cons]
      exact congrArg _ (ih n)

/-- A name is found in the same scope as without the empty one. -/
theorem assign_pad (n : Nat) (env : Environment) (x : String) (v : Value) :
    (env.pad n).assign x v = (env.assign x v).map (pad n) := by
  obtain ⟨mode, inner, global⟩ := env
  induction inner generalizing n with
  | nil =>
    cases n with
    | zero => exact assign_cons mode [] [] global x v
    | succ n =>
      rw [assign_nil]
      change assign ⟨mode, [], global⟩ x v = _
      rw [assign_nil]
      split <;> rfl
  | cons s rest ih =>
    cases n with
    | zero => exact assign_cons mode [] (s :: rest) global x v
    | succ n =>
      have hrest : assign ⟨mode, (pad n ⟨mode, rest, global⟩).inner, global⟩ x v = _ := ih n
      rw [pad_succ, assign_cons, assign_cons, hrest]
      split
      · rfl
      · rw [Option.map_map, Option.map_map]
        rfl

theorem define_pad {n : Nat} (hn : 0 < n) (env : Environment) (x : String) (v : Value) :
    (env.pad n).define x v = (env.define x v).pad n := by
  obtain ⟨mode, inner, global⟩ := env
  obtain ⟨n, rfl⟩ := Nat.exists_eq_succ_of_ne_zero (Nat.pos_iff_ne_zero.1 hn)
  cases inner <;> rfl

theorem read_pad (n : Nat) (env : Environment) (x : Ident) :
    (env.pad n).read x = ((env.read x).1.pad n, (env.read x).2) := by
  rw [read, lookup_pad, read]
  split <;> rfl

theorem store_pad (n : Nat) (env : Environment) (x : Ident) (v : Value) :
    (env.pad n).store x v = ((env.store x v).1.pad n, (env.store x v).2) := by
  rw [store, assign_pad, store]
  cases env.assign x.name v <;> rfl

end Environment

theorem Expr.eval_pad (n : Nat) (e : Expr) (env : Environment) :
    e.eval (env.pad n) = ((e.eval env).1.pad n, (e.eval env).2) := by
  induction e generalizing env with
  | literal v => rfl
  | group e ih => exact ih env
  | unary op line e ih =>
    rw [eval, ih, eval]
    rcases e.eval env with ⟨env', _ | v⟩
    · rfl
    · simp only [Evaluated.ofOperation_eq]
  | binary op line l r ihl ihr =>
    rw [eval, ihl, eval]
    rcases l.eval env with ⟨env', _ | a⟩
    · rfl
    · simp only [ihr]
      rcases r.eval env' with ⟨env'', _ | b⟩
      · rfl
      · simp only [Evaluated.ofOperation_eq]
  | logical op l r ihl ihr =>
    rw [eval, ihl, eval]
    rcases l.eval env with ⟨env', _ | a⟩
    · rfl
    · simp only [ihr]
      split <;> rfl
  | assign x e ih =>
    rw [eval, ih, eval]
    rcases e.eval env with ⟨env', _ | v⟩
    · rfl
    · exact env'.store_pad n x v
  | var x => exact env.read_pad n x

namespace Environment

variable {env env' : Environment} {n : Nat}

/-- The second environment is the first with an empty scope more. -/
structure Padded (n : Nat) (env env' : Environment) : Prop where
  mode : env.mode = .lexical
  depth : n < env.depth
  eq : env' = env.pad n

namespace Padded

theorem push (h : Padded n env env') : Padded (n + 1) env.push env'.push := by
  obtain ⟨mode, inner, global⟩ := env
  obtain ⟨rfl, hdepth, rfl⟩ := h
  exact ⟨rfl, Nat.succ_lt_succ hdepth, rfl⟩

theorem pop (h : Padded (n + 1) env env') : Padded n env.pop env'.pop := by
  obtain ⟨mode, inner, global⟩ := env
  obtain ⟨hmode, hdepth, rfl⟩ := h
  cases inner with
  | nil => exact absurd hdepth (Nat.not_lt.2 (Nat.le_add_left _ _))
  | cons s rest => exact ⟨hmode, Nat.lt_of_succ_lt_succ hdepth, rfl⟩

theorem grows (h : Padded n env env') {env₁ : Environment} (hgrows : env.Grows env₁) :
    Padded n env₁ (env₁.pad n) :=
  ⟨hgrows.mode.trans h.mode, hgrows.depth ▸ h.depth, rfl⟩

end Padded

/-- What makes a difference between environments unseen, if `n` scopes are in front of it. -/
structure Unseen (R : Nat → Environment → Environment → Prop) : Prop where
  eval : ∀ {n env env'}, R n env env' → ∀ e : Expr,
    R n (e.eval env).1 (e.eval env').1 ∧ (e.eval env').2 = (e.eval env).2
  define : ∀ {n env env'}, R n env env' → 0 < n → ∀ x v, R n (env.define x v) (env'.define x v)
  push : ∀ {n env env'}, R n env env' → R (n + 1) env.push env'.push
  pop : ∀ {n env env'}, R (n + 1) env env' → R n env.pop env'.pop

theorem unseen_padded : Unseen Padded where
  eval h e := by
    rw [h.eq, Expr.eval_pad]
    exact ⟨h.grows (grows_eval _ e), rfl⟩
  define h hn x v := by
    rw [h.eq, define_pad hn]
    exact h.grows (grows_define _ x v)
  push h := h.push
  pop h := h.pop

theorem Unseen.flip {R : Nat → Environment → Environment → Prop} (hR : Unseen R) :
    Unseen fun n env env' => R n env' env where
  eval h e := ⟨(hR.eval h e).1, (hR.eval h e).2.symm⟩
  define h hn x v := hR.define h hn x v
  push h := hR.push h
  pop h := hR.pop h

end Environment

/-- What runs in place of a statement declares no name that the statement does not. -/
theorem Stmt.here_goOn {s : Stmt} (h : s.here = []) (m : Machine) (v : Value) :
    hereIn (s.goOn m v).2 = [] := by
  cases s with
  | expression | print | declare | block => rfl
  | ifThen test yes =>
    rw [goOn]
    split
    · exact (List.append_nil _).trans h
    · rfl
  | ifElse test yes no =>
    obtain ⟨hyes, hno⟩ := List.append_eq_nil_iff.1 h
    rw [goOn]
    split
    · exact (List.append_nil _).trans hyes
    · exact (List.append_nil _).trans hno
  | «while» test body =>
    rw [goOn]
    split
    · have hbody : body.here = [] := h
      simp [hereIn, here, hbody]
    · rfl

section Unseen

variable {R : Nat → Environment → Environment → Prop} {n : Nat} {m m' : Machine}
  {env : Environment}

theorem Environment.Unseen.evaluate (hR : Unseen R) (h : R n m.env env) {e : Expr}
    {r : Except RuntimeError Value} (hr : m.evaluate e = (m', r)) :
    ∃ env', Machine.evaluate ⟨env, m.sink⟩ e = (⟨env', m'.sink⟩, r) ∧ R n m'.env env' := by
  obtain ⟨hkept, hresult⟩ := hR.eval h e
  rw [Machine.evaluate_eq] at hr
  cases hr
  exact ⟨_, by rw [Machine.evaluate_eq, hresult], hkept⟩

theorem Environment.Unseen.goOn (hR : Unseen R) (h : R n m.env env) {s : Stmt}
    (hs : 0 < n ∨ s.here = []) (v : Value) :
    ∃ env', s.goOn ⟨env, m.sink⟩ v = (⟨env', (s.goOn m v).1.sink⟩, (s.goOn m v).2) ∧
      R n (s.goOn m v).1.env env' := by
  cases s with
  | declare x e =>
    obtain hn | hnone := hs
    · exact ⟨env.define x.name v, rfl, hR.define h hn x.name v⟩
    · cases hnone
  | _ => exact ⟨env, rfl, h⟩

/-- By induction on the run. In a block the difference has one scope more in front of it, so the
block may declare what it likes. -/
theorem Exec.unseen (hR : Environment.Unseen R) {ss : List Stmt} {x : Option RuntimeError}
    (hrun : Exec m ss m' x) (h : R n m.env env) (hss : 0 < n ∨ hereIn ss = []) :
    ∃ env', Exec ⟨env, m.sink⟩ ss ⟨env', m'.sink⟩ x ∧ R n m'.env env' := by
  have hhere : ∀ {n : Nat} {s : Stmt} {ss : List Stmt}, 0 < n ∨ hereIn (s :: ss) = [] →
      (0 < n ∨ s.here = []) ∧ (0 < n ∨ hereIn ss = []) := by
    rintro n s ss (hn | hnone)
    · exact ⟨.inl hn, .inl hn⟩
    · obtain ⟨hs, hss⟩ := List.append_eq_nil_iff.1 hnone
      exact ⟨.inr hs, .inr hss⟩
  induction hrun generalizing n env with
  | done => exact ⟨env, .done, h⟩
  | @goes m m₁ m' s ss e v x he hv _ ih =>
    obtain ⟨hs, hss⟩ := hhere hss
    obtain ⟨env₁, hv', h₁⟩ := hR.evaluate h hv
    obtain ⟨env₂, hgo, h₂⟩ := hR.goOn h₁ hs v
    -- A branch or a loop body runs where the statement stands, so its names count as well.
    have hnext : 0 < n ∨ hereIn ((s.goOn m₁ v).2 ++ ss) = [] := by
      obtain hn | hs := hs
      · exact .inl hn
      · refine hss.imp_right fun hss => ?_
        rw [hereIn, List.flatMap_append]
        exact List.append_eq_nil_iff.2 ⟨s.here_goOn hs m₁ v, hss⟩
    obtain ⟨env', hrest, h'⟩ := ih h₂ hnext
    refine ⟨env', .goes he hv' ?_, h'⟩
    rw [hgo]
    exact hrest
  | fails he hx =>
    obtain ⟨env', hx', h'⟩ := hR.evaluate h hx
    exact ⟨env', .fails he hx', h'⟩
  | block _ _ ihbody ih =>
    obtain ⟨env₁, hbody, h₁⟩ := ihbody (hR.push h) (.inl n.succ_pos)
    obtain ⟨env', hrest, h'⟩ := ih (hR.pop h₁) (hhere hss).2
    exact ⟨env', .block hbody hrest, h'⟩
  | @blockFails m m₁ body ss y _ ihbody =>
    obtain ⟨env₁, hbody, h₁⟩ := ihbody (hR.push h) (.inl n.succ_pos)
    have hblock : Exec ⟨env, m.sink⟩ (.block body :: ss) (Machine.pop ⟨env₁, m₁.sink⟩) (some y) :=
      .blockFails hbody
    exact ⟨env₁.pop, hblock, hR.pop h₁⟩

end Unseen

section Block

variable {m m' : Machine} {body : List Stmt} {x : Option RuntimeError}

theorem Exec.block_iff :
    Exec m [.block body] m' x ↔ ∃ m₁, Exec m.push body m₁ x ∧ m' = m₁.pop := by
  constructor
  · intro h
    cases h with
    | goes he => cases he
    | fails he => cases he
    | block hbody h =>
      cases h
      exact ⟨_, hbody, rfl⟩
    | blockFails hbody => exact ⟨_, hbody, rfl⟩
  · rintro ⟨m₁, h, rfl⟩
    cases x with
    | none => exact .block h .done
    | some y => exact .blockFails h

theorem Machine.push_flat (hmode : m.env.mode = .flat) : m.push = m := by
  obtain ⟨⟨mode, inner, global⟩, sink⟩ := m
  cases hmode
  rfl

theorem Machine.pop_flat (hm : m.env.Coherent) (hmode : m.env.mode = .flat) : m.pop = m := by
  obtain ⟨⟨mode, inner, global⟩, sink⟩ := m
  obtain rfl : inner = [] := hm hmode
  rfl

/-- The braces of a block that declares nothing itself make no difference, and without scopes for
blocks those of no block do. -/
theorem Exec.block_iff_bare (hm : m.env.Coherent)
    (hbody : m.env.mode = .lexical → hereIn body = []) :
    Exec m [.block body] m' x ↔ Exec m body m' x := by
  rw [block_iff]
  cases hmode : m.env.mode with
  | flat =>
    rw [Machine.push_flat hmode]
    constructor
    · rintro ⟨m₁, h, rfl⟩
      have hkept := h.grows hm
      rwa [Machine.pop_flat (hkept.coherent hm) (hkept.mode.trans hmode)]
    · intro h
      have hkept := h.grows hm
      exact ⟨m', h, (Machine.pop_flat (hkept.coherent hm) (hkept.mode.trans hmode)).symm⟩
  | lexical =>
    have hstart : Environment.Padded 0 m.env m.push.env :=
      ⟨hmode, Nat.succ_pos _, Environment.push_eq_pad hmode⟩
    constructor
    · rintro ⟨m₁, h, rfl⟩
      obtain ⟨env, hrun, hend⟩ :=
        h.unseen Environment.unseen_padded.flip hstart (.inr (hbody hmode))
      have hpop : m₁.pop = ⟨env, m₁.sink⟩ := by
        rw [Machine.pop, hend.eq, Environment.pop_pad]
      rwa [hpop]
    · intro h
      obtain ⟨env, hrun, hend⟩ := h.unseen Environment.unseen_padded hstart (.inr (hbody hmode))
      refine ⟨_, hrun, ?_⟩
      rw [Machine.pop, hend.eq, Environment.pop_pad]

end Block

end TinyScript
