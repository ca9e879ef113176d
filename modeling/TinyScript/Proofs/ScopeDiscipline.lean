import Mathlib
import TinyScript.Proofs.Runs
import TinyScript.Script

/-!
Every way out of a statement closes the scopes that were opened on the way in, and no others. A run
leaves the open scopes as many as they were; only the innermost one may bind more names than
before, since a declaration binds its name there and an assignment binds nothing.
-/

namespace TinyScript

namespace Environment

/-- The names that the innermost scope binds. -/
def bound (env : Environment) : String → Bool :=
  match env.inner with
  | [] => env.global.binds
  | s :: _ => s.binds

/-- The names that each of the other scopes binds, the innermost of them first. -/
def outer (env : Environment) : List (String → Bool) := env.names.tail

theorem names_eq (env : Environment) : env.names = env.bound :: env.outer := by
  obtain ⟨mode, inner, global⟩ := env
  cases inner <;> rfl

theorem length_names (env : Environment) : env.names.length = env.depth := by
  simp [names, scopes, depth]

/-- Without block scopes only the global scope is ever open. -/
def Coherent (env : Environment) : Prop := env.mode = .flat → env.inner = []

theorem coherent_iff (env : Environment) : env.Coherent ↔ (env.mode = .flat → env.depth = 1) := by
  simp [Coherent, depth]

/-- From one environment to the other no scope was opened or closed for good, and names were bound
in the innermost scope only. -/
structure Grows (env env' : Environment) : Prop where
  mode : env'.mode = env.mode
  depth : env'.depth = env.depth
  outer : env'.outer = env.outer
  bound : ∀ name, env.bound name → env'.bound name

namespace Grows

variable {env env' env'' : Environment}

theorem refl (env : Environment) : Grows env env := ⟨rfl, rfl, rfl, fun _ h => h⟩

theorem trans (h : Grows env env') (h' : Grows env' env'') : Grows env env'' :=
  ⟨h'.mode.trans h.mode, h'.depth.trans h.depth, h'.outer.trans h.outer,
    fun name hname => h'.bound name (h.bound name hname)⟩

theorem of_names (hmode : env'.mode = env.mode) {bound : String → Bool}
    (hnames : env'.names = bound :: env.outer) (hbound : ∀ name, env.bound name → bound name) :
    Grows env env' where
  mode := hmode
  depth := by rw [← length_names, ← length_names, hnames, env.names_eq, List.length_cons,
    List.length_cons]
  outer := by rw [Environment.outer, hnames, List.tail_cons]
  bound := by
    rw [env'.names_eq] at hnames
    rw [(List.cons.inj hnames).1]
    exact hbound

theorem of_names_eq (hmode : env'.mode = env.mode) (hnames : env'.names = env.names) :
    Grows env env' := of_names hmode (hnames.trans env.names_eq) fun _ h => h

theorem coherent (h : Grows env env') (henv : env.Coherent) : env'.Coherent := by
  rw [coherent_iff] at henv ⊢
  rw [h.mode, h.depth]
  exact henv

end Grows

theorem grows_define (env : Environment) (x : String) (v : Value) : Grows env (env.define x v) :=
  .of_names (env.mode_define x v) (env.names_define env.names_eq x v) fun name h => by simp [h]

theorem grows_eval (env : Environment) (e : Expr) : Grows env (e.eval env).1 :=
  .of_names_eq (e.mode_eval env) (e.names_eval env)

theorem mode_push (env : Environment) : env.push.mode = env.mode := by
  unfold push
  split <;> rfl

theorem coherent_push {env : Environment} (h : env.Coherent) : env.push.Coherent := by
  intro hflat
  rw [mode_push] at hflat
  rw [push, hflat]
  exact h hflat

/-- The environments that the operations lead to. -/
inductive Built : Environment → Prop where
  | new (mode : ScopeMode) : Built (new mode)
  | push {env : Environment} (h : Built env) : Built env.push
  | pop {env : Environment} (h : Built env) : Built env.pop
  | define {env : Environment} (h : Built env) (x : String) (v : Value) : Built (env.define x v)
  | assign {env env' : Environment} (h : Built env) {x : String} {v : Value}
      (hassign : env.assign x v = some env') : Built env'

theorem Built.coherent {env : Environment} (h : Built env) : env.Coherent := by
  induction h with
  | new mode => exact fun _ => rfl
  | push _ ih => exact coherent_push ih
  | @pop env _ ih =>
    intro hflat
    rw [Environment.pop, ih hflat]
    rfl
  | define _ x v ih => exact (grows_define _ x v).coherent ih
  | @assign env env' _ x v hassign ih =>
    obtain ⟨-, hnone⟩ | ⟨env'', hsome, -, -, hnames, hmode, -⟩ := env.assign_spec x v
    · rw [hnone] at hassign
      cases hassign
    · rw [hsome] at hassign
      cases hassign
      exact (Grows.of_names_eq hmode hnames).coherent ih

/-- A block closes the scope that it opened, whatever was bound in between. -/
theorem names_pop_of_grows {env env' : Environment} (h : Grows env.push env')
    (henv : env.mode = .lexical) : env'.pop.names = env.names := by
  have hpush := names_push henv
  have houter : env'.names = env'.bound :: env.names := by
    rw [env'.names_eq, h.outer, outer, hpush, List.tail_cons]
  refine names_pop houter ?_
  rw [env.names_eq]
  exact List.cons_ne_nil _ _

theorem grows_block {env env' : Environment} (h : Grows env.push env') (henv : env.Coherent) :
    Grows env env'.pop := by
  cases hmode : env.mode with
  | lexical => exact .of_names_eq (h.mode.trans env.mode_push) (names_pop_of_grows h hmode)
  | flat =>
    have hpush : env.push = env := by rw [push, hmode]
    rw [hpush] at h
    have hinner := h.coherent henv (h.mode.trans hmode)
    have hpop : env'.pop = env' := by
      rw [pop, hinner, List.tail_nil, ← hinner]
    rwa [hpop]

end Environment

theorem Stmt.grows_goOn (m : Machine) (v : Value) (s : Stmt) :
    m.env.Grows (s.goOn m v).1.env := by
  cases s with
  | declare x e => exact m.env.grows_define x.name v
  | _ => exact .refl _

theorem Machine.grows_evaluate {m m' : Machine} {e : Expr} {r : Except RuntimeError Value}
    (h : m.evaluate e = (m', r)) : m.env.Grows m'.env := by
  rw [evaluate_eq] at h
  cases h
  exact m.env.grows_eval e

/-- By induction on the run: blocks nest in it as they do in the program, so each scope is closed
where its block ends or fails. -/
theorem Exec.grows {m m' : Machine} {ss : List Stmt} {x : Option RuntimeError}
    (h : Exec m ss m' x) (hm : m.env.Coherent) : m.env.Grows m'.env := by
  induction h with
  | done => exact .refl _
  | @goes m m₁ m' s ss e v x _ hv _ ih =>
    have hfirst := (Machine.grows_evaluate hv).trans (s.grows_goOn m₁ v)
    exact hfirst.trans (ih (hfirst.coherent hm))
  | fails _ hx => exact Machine.grows_evaluate hx
  | block _ _ ihbody ih =>
    have hblock := Environment.grows_block (ihbody (Environment.coherent_push hm)) hm
    exact hblock.trans (ih (hblock.coherent hm))
  | blockFails _ ihbody =>
    exact Environment.grows_block (ihbody (Environment.coherent_push hm)) hm

theorem Exec.names_block {m m' : Machine} {body : List Stmt} {x : Option RuntimeError}
    (h : Exec m [.block body] m' x) (hm : m.env.Coherent) (hmode : m.env.mode = .lexical) :
    m'.env.names = m.env.names := by
  cases h with
  | goes he => cases he
  | fails he => cases he
  | block hbody h =>
    cases h with
    | done =>
      exact Environment.names_pop_of_grows (hbody.grows (Environment.coherent_push hm)) hmode
  | blockFails hbody =>
    exact Environment.names_pop_of_grows (hbody.grows (Environment.coherent_push hm)) hmode

/-- What a machine that keeps its variables can be asked for. -/
inductive Request where
  | source (text : String)
  | program (ss : List Stmt)
  | expression (e : Expr)

/-- Where the machine is after a request, whether that succeeded or failed. A source with
diagnostics is not run. -/
def Machine.Answers (m m' : Machine) : Request → Prop
  | .source text =>
    if (Script.read text false).diagnostics.isEmpty then
      ∃ x, m.Ends (Script.read text false).statements m' x
    else m' = m
  | .program ss => ∃ x, m.Ends ss m' x
  | .expression e => m' = (m.evaluate e).1

inductive Machine.Session : Machine → List Request → Machine → Prop where
  | done {m : Machine} : Session m [] m
  | next {m m₁ m' : Machine} {r : Request} {rs : List Request} (h : m.Answers m₁ r)
      (hrest : Session m₁ rs m') : Session m (r :: rs) m'

namespace Machine

variable {m m' : Machine}

theorem Ends.grows {ss : List Stmt} {x : Option RuntimeError} (h : m.Ends ss m' x)
    (hm : m.env.Coherent) : m.env.Grows m'.env := (run_iff_exec.1 h).grows hm

theorem Answers.grows {r : Request} (h : m.Answers m' r) (hm : m.env.Coherent) :
    m.env.Grows m'.env := by
  cases r with
  | source text =>
    rw [Answers] at h
    split at h
    · obtain ⟨x, h⟩ := h
      exact h.grows hm
    · rw [h]
      exact .refl _
  | program ss =>
    obtain ⟨x, h⟩ := h
    exact h.grows hm
  | expression e =>
    rw [Answers] at h
    rw [h]
    exact grows_evaluate rfl

theorem Session.grows {rs : List Request} (h : m.Session rs m') (hm : m.env.Coherent) :
    m.env.Grows m'.env := by
  induction h with
  | done => exact .refl _
  | next h _ ih =>
    have hfirst := h.grows hm
    exact hfirst.trans (ih (hfirst.coherent hm))

end Machine

/-- Whenever a statement, a program or a session comes to an end, in success or with an error at
any depth, the open scopes are those from before and bind the same names, except that the
innermost one may bind more. A block with a scope of its own binds nothing there either. -/
theorem scopes_kept {m m' : Machine} (hm : m.env.Coherent) :
    (∀ s x, m.Ends [s] m' x → m.env.Grows m'.env ∧
      ∀ body, s = .block body → m.env.mode = .lexical → m'.env.names = m.env.names) ∧
      (∀ program x, m.Ends program m' x → m.env.Grows m'.env) ∧
      ∀ requests, m.Session requests m' → m.env.Grows m'.env := by
  refine ⟨fun s x h => ⟨h.grows hm, ?_⟩, fun program x h => h.grows hm,
    fun requests h => h.grows hm⟩
  rintro body rfl hmode
  exact (Machine.run_iff_exec.1 h).names_block hm hmode

/-- Two blocks are open around `{ var c = null; { var d = "x"; a = d; print -d; } }`, which fails
in the inner of its own two. -/
theorem failing_block_scopes :
    let m : Machine := ⟨⟨.lexical, [[("b", .null)], [("a", .null)]], []⟩, .silent⟩
    let m' : Machine := ⟨⟨.lexical, [[("b", .null)], [("a", .text "x")]], []⟩, .silent⟩
    let s : Stmt := .block [.declare ⟨"c", 1⟩ (.literal .null),
      .block [.declare ⟨"d", 1⟩ (.literal (.text "x")),
        .expression (.assign ⟨"a", 1⟩ (.var ⟨"d", 1⟩)),
        .print (.unary .neg 2 (.var ⟨"d", 2⟩))]]
    m.env.Coherent ∧ m.Ends [s] m' (some ⟨.numberOperand, 2⟩) ∧ m.env.Grows m'.env ∧
      m'.env.names = m.env.names := by
  intro m m' s
  have hm : m.env.Coherent := by
    rintro ⟨⟩
  have hrun : m.Ends [s] m' (some ⟨.numberOperand, 2⟩) := ⟨0, by cbv⟩
  obtain ⟨hgrows, hblock⟩ := (scopes_kept hm).1 s _ hrun
  exact ⟨hm, hrun, hgrows, hblock _ rfl rfl⟩

end TinyScript
