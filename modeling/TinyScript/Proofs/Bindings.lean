import TinyScript.Proofs.Labels

/-!
What the operations on the variables do, in terms of what a name means and of which names each
scope binds; and what an expression can do at all, change variables that it assigns to or fail at
one of its operators or names.
-/

namespace TinyScript

namespace Scope

theorem find?_cons (b : String × Value) (s : Scope) (name : String) :
    find? (b :: s) name = if name = b.1 then some b.2 else s.find? name := by
  rw [find?, List.lookup_cons]
  by_cases h : name = b.1
  · simp [h]
  · have hne : (name == b.1) = false := beq_false_of_ne h
    simp [h, hne, find?]

theorem find?_replace (s : Scope) (x : String) (v : Value) (name : String) :
    find? (s.map fun b => if b.1 == x then (x, v) else b) name =
      if name = x then (s.find? x).map fun _ => v else s.find? name := by
  induction s with
  | nil => simp [find?]
  | cons b s ih =>
    rw [List.map_cons, find?_cons, find?_cons, find?_cons, ih]
    by_cases hb : b.1 = x
    · by_cases hname : name = x
      · simp [hb, hname]
      · simp [hb, hname]
    · by_cases hname : name = x
      · subst hname
        simp [hb, Ne.symm hb]
      · simp [hb, hname]

theorem find?_insert (s : Scope) (x : String) (v : Value) (name : String) :
    (s.insert x v).find? name = if name = x then some v else s.find? name := by
  unfold insert
  split
  · next h =>
    obtain ⟨w, hw⟩ := Option.isSome_iff_exists.1 h
    rw [find?_replace, hw]
    rfl
  · exact find?_cons (x, v) s name

theorem binds_insert (s : Scope) (x : String) (v : Value) (name : String) :
    (s.insert x v).binds name = (decide (name = x) || s.binds name) := by
  rw [binds, find?_insert]
  by_cases h : name = x <;> simp [h, binds]

/-- A binding that is there changes its value only. -/
theorem binds_insert_of_binds {s : Scope} {x : String} (h : s.binds x) (v : Value) :
    (s.insert x v).binds = s.binds := by
  funext name
  rw [binds_insert]
  by_cases hname : name = x
  · simp [hname, h]
  · simp [hname]

end Scope

namespace Environment

/-- All scopes, the innermost one first. -/
def scopes (env : Environment) : List Scope := env.inner ++ [env.global]

/-- The names that each scope binds. -/
def names (env : Environment) : List (String → Bool) := env.scopes.map Scope.binds

theorem lookup_eq (env : Environment) (name : String) :
    env.lookup name = env.scopes.findSome? (·.find? name) := by
  rw [lookup, scopes, List.findSome?_append]
  simp

theorem lookup_cons (mode : ScopeMode) (s : Scope) (rest : List Scope) (global : Scope)
    (name : String) : lookup ⟨mode, s :: rest, global⟩ name =
      (s.find? name).or (lookup ⟨mode, rest, global⟩ name) := by
  rw [lookup, lookup, List.findSome?_cons]
  cases s.find? name <;> rfl

theorem names_cons (mode : ScopeMode) (s : Scope) (rest : List Scope) (global : Scope) :
    names ⟨mode, s :: rest, global⟩ = s.binds :: names ⟨mode, rest, global⟩ := rfl

theorem lookup_isSome (env : Environment) (name : String) :
    (env.lookup name).isSome = env.names.any (· name) := by
  rw [lookup_eq, names, List.any_map]
  induction env.scopes with
  | nil => rfl
  | cons s rest ih =>
    rw [List.findSome?_cons, List.any_cons, ← ih, Function.comp_apply, Scope.binds]
    cases s.find? name <;> rfl

theorem lookup_define (env : Environment) (x : String) (v : Value) (name : String) :
    (env.define x v).lookup name = if name = x then some v else env.lookup name := by
  obtain ⟨mode, inner, global⟩ := env
  cases inner with
  | nil => simp [define, lookup, Scope.find?_insert]
  | cons s rest =>
    simp only [define, lookup, List.findSome?_cons, Scope.find?_insert]
    by_cases h : name = x <;> simp [h]

theorem mode_define (env : Environment) (x : String) (v : Value) :
    (env.define x v).mode = env.mode := by
  unfold define
  split <;> rfl

theorem names_define {env : Environment} {bound : String → Bool} {outer : List (String → Bool)}
    (h : env.names = bound :: outer) (x : String) (v : Value) :
    (env.define x v).names = (fun name => decide (name = x) || bound name) :: outer := by
  obtain ⟨mode, inner, global⟩ := env
  cases inner with
  | nil =>
    cases h
    simp [define, names, scopes, funext (Scope.binds_insert _ x v)]
  | cons s rest =>
    cases h
    simp [define, names, scopes, funext (Scope.binds_insert _ x v)]

theorem assign_nil (mode : ScopeMode) (global : Scope) (x : String) (v : Value) :
    assign ⟨mode, [], global⟩ x v =
      if global.binds x then some ⟨mode, [], global.insert x v⟩ else none := rfl

theorem assign_cons (mode : ScopeMode) (s : Scope) (rest : List Scope) (global : Scope)
    (x : String) (v : Value) :
    assign ⟨mode, s :: rest, global⟩ x v =
      if s.binds x then some ⟨mode, s.insert x v :: rest, global⟩
      else (assign ⟨mode, rest, global⟩ x v).map
        fun env => { env with inner := s :: env.inner } := by
  simp only [assign, List.findIdx?_cons]
  by_cases h : s.binds x
  · simp [h]
  · simp only [h, Bool.false_eq_true, if_false]
    cases rest.findIdx? (·.binds x) with
    | none => by_cases hg : global.binds x <;> simp [hg]
    | some i => simp

/-- An assignment changes the value of a name that has one, and no scope binds other names. -/
theorem assign_spec (env : Environment) (x : String) (v : Value) :
    (env.lookup x = none ∧ env.assign x v = none) ∨
      ∃ env', env.assign x v = some env' ∧ (env.lookup x).isSome ∧
        (∀ name, env'.lookup name = if name = x then some v else env.lookup name) ∧
        env'.names = env.names ∧ env'.mode = env.mode ∧
        env'.inner.length = env.inner.length := by
  obtain ⟨mode, inner, global⟩ := env
  induction inner with
  | nil =>
    rw [assign_nil]
    by_cases h : global.binds x
    · refine .inr ⟨_, if_pos h, h, fun name => ?_, ?_, rfl, rfl⟩
      · exact Scope.find?_insert global x v name
      · simp [names, scopes, Scope.binds_insert_of_binds h v]
    · refine .inl ⟨?_, if_neg h⟩
      exact Option.not_isSome_iff_eq_none.1 h
  | cons s rest ih =>
    rw [assign_cons]
    by_cases h : s.binds x
    · obtain ⟨w, hw⟩ := Option.isSome_iff_exists.1 h
      refine .inr ⟨_, if_pos h, ?_, fun name => ?_, ?_, rfl, rfl⟩
      · rw [lookup_cons, hw]
        rfl
      · rw [lookup_cons, lookup_cons, Scope.find?_insert]
        split <;> rfl
      · rw [names_cons, names_cons, Scope.binds_insert_of_binds h]
    · have hx : s.find? x = none := Option.not_isSome_iff_eq_none.1 h
      rw [if_neg h]
      obtain ⟨hnone, hassign⟩ | ⟨env', hassign, hsome, hlookup, hnames, hmode, hlength⟩ := ih
      · refine .inl ⟨?_, ?_⟩
        · rw [lookup_cons, hx, hnone]
          rfl
        · rw [hassign]
          rfl
      · obtain ⟨mode', inner', global'⟩ := env'
        refine .inr ⟨⟨mode', s :: inner', global'⟩, ?_, ?_, fun name => ?_, ?_, hmode, ?_⟩
        · rw [hassign]
          rfl
        · rw [lookup_cons, hx]
          exact hsome
        · rw [lookup_cons, lookup_cons, hlookup]
          by_cases hname : name = x
          · simp [hname, hx]
          · simp [hname]
        · rw [names_cons, names_cons, hnames]
        · exact congrArg Nat.succ hlength

theorem names_push {env : Environment} (h : env.mode = .lexical) :
    env.push.names = (fun _ => false) :: env.names := by
  rw [push, h]
  rfl

theorem lookup_push (env : Environment) (name : String) :
    env.push.lookup name = env.lookup name := by
  unfold push
  split <;> rfl

theorem names_pop {env : Environment} {bound : String → Bool} {outer : List (String → Bool)}
    (h : env.names = bound :: outer) (houter : outer ≠ []) : env.pop.names = outer := by
  obtain ⟨mode, inner, global⟩ := env
  cases inner with
  | nil =>
    cases h
    exact absurd rfl houter
  | cons s rest =>
    cases h
    rfl

theorem lookup_pop {env : Environment} {bound : String → Bool} {outer : List (String → Bool)}
    (h : env.names = bound :: outer) (houter : outer ≠ []) {name : String}
    (hname : bound name = false) : env.pop.lookup name = env.lookup name := by
  obtain ⟨mode, inner, global⟩ := env
  cases inner with
  | nil =>
    cases h
    exact absurd rfl houter
  | cons s rest =>
    cases h
    have hfind : s.find? name = none :=
      Option.isNone_iff_eq_none.1 (Option.isSome_eq_false_iff.1 hname)
    rw [lookup_cons, hfind]
    rfl

theorem mode_store (env : Environment) (x : Ident) (v : Value) :
    (env.store x v).1.mode = env.mode := by
  obtain ⟨-, hassign⟩ | ⟨env', hassign, -, -, -, hmode, -⟩ := env.assign_spec x.name v
  · rw [store, hassign]
  · rw [store, hassign]
    exact hmode

theorem names_store (env : Environment) (x : Ident) (v : Value) :
    (env.store x v).1.names = env.names := by
  obtain ⟨-, hassign⟩ | ⟨env', hassign, -, -, hnames, -⟩ := env.assign_spec x.name v
  · rw [store, hassign]
  · rw [store, hassign]
    exact hnames

end Environment

/-! Operators and expressions. -/

/-- What is wrong if the operand is of the wrong kind. -/
def UnaryOp.fault? : UnaryOp → Option RuntimeFault
  | neg => some .numberOperand
  | not => none

def BinaryOp.fault? : BinaryOp → Option RuntimeFault
  | add => some .addOperands
  | eq => none
  | ne => none
  | _ => some .numberOperands

theorem UnaryOp.fault_of_apply {op : UnaryOp} {v : Value} {fault : RuntimeFault}
    (h : op.apply v = .error fault) : op.fault? = some fault := by
  cases op with
  | neg => cases v <;> cases h <;> rfl
  | not => cases h

theorem BinaryOp.arithmetic_error [Binary64.NaNChoice] {op : Binary64.Operation} {a b : Value}
    {fault : RuntimeFault} (h : arithmetic op a b = .error fault) : fault = .numberOperands := by
  unfold arithmetic at h
  split at h <;> cases h
  rfl

theorem BinaryOp.comparison_error {f : Binary64 → Binary64 → Bool} {a b : Value}
    {fault : RuntimeFault} (h : comparison f a b = .error fault) : fault = .numberOperands := by
  unfold comparison at h
  split at h <;> cases h
  rfl

theorem BinaryOp.fault_of_apply [Binary64.NaNChoice] {op : BinaryOp} {a b : Value}
    {fault : RuntimeFault} (h : op.apply a b = .error fault) : op.fault? = some fault := by
  cases op with
  | add =>
    rw [apply] at h
    unfold sum at h
    split at h <;> cases h
    rfl
  | sub | mul | div | rem => rw [arithmetic_error h]; rfl
  | eq | ne => cases h
  | lt | le | gt | ge => rw [comparison_error h]; rfl

theorem Evaluated.ofOperation_eq (env : Environment) (line : Nat)
    (r : Except RuntimeFault Value) :
    ofOperation env line r = (env, r.mapError fun fault => ⟨fault, line⟩) := by
  cases r <;> rfl

/-- Goes on with the value, unless there is an error. -/
def Evaluated.andThen (r : Evaluated) (f : Environment → Value → Evaluated) : Evaluated :=
  match r with
  | (env, .ok v) => f env v
  | (env, .error x) => (env, .error x)

namespace Evaluated

variable {P : Environment → Prop} {r : Evaluated} {f : Environment → Value → Evaluated}

theorem ofOperation_keeps {env : Environment} (h : P env) (line : Nat)
    (r : Except RuntimeFault Value) : P (ofOperation env line r).1 := by
  rw [ofOperation_eq]
  exact h

theorem andThen_keeps (h : P r.1) (hf : ∀ env v, P env → P (f env v).1) : P (r.andThen f).1 := by
  obtain ⟨env, x | v⟩ := r
  · exact h
  · exact hf env v h

end Evaluated

/-- What the assignments in an expression keep, its evaluation keeps. -/
theorem Expr.eval_keeps {P : Environment → Prop} {e : Expr}
    (hstore : ∀ x, .assign x ∈ e.labels → ∀ env v, P env → P (env.store x v).1)
    {env : Environment} (h : P env) : P (e.eval env).1 := by
  induction e generalizing env with
  | literal v => exact h
  | group e ih => exact ih (fun y hy => hstore y (List.mem_cons_of_mem _ hy)) h
  | unary op line e ih =>
    have he := ih (fun y hy => hstore y (List.mem_cons_of_mem _ hy)) h
    exact Evaluated.andThen_keeps he fun _ _ h => Evaluated.ofOperation_keeps h line _
  | binary op line l r ihl ihr =>
    have hl := ihl (fun y hy => hstore y (by simp [labels, hy])) h
    refine Evaluated.andThen_keeps hl fun env a h => ?_
    have hr := ihr (fun y hy => hstore y (by simp [labels, hy])) h
    exact Evaluated.andThen_keeps hr fun _ _ h => Evaluated.ofOperation_keeps h line _
  | logical op l r ihl ihr =>
    have hl := ihl (fun y hy => hstore y (by simp [labels, hy])) h
    refine Evaluated.andThen_keeps hl fun env v h => ?_
    split
    · exact h
    · exact ihr (fun y hy => hstore y (by simp [labels, hy])) h
  | assign x e ih =>
    have he := ih (fun y hy => hstore y (List.mem_cons_of_mem _ hy)) h
    exact Evaluated.andThen_keeps he fun env v h => hstore x List.mem_cons_self env v h
  | var x =>
    rw [eval, Environment.read]
    split <;> exact h

/-- An expression binds no name. -/
theorem Expr.names_eval (e : Expr) (env : Environment) : (e.eval env).1.names = env.names :=
  e.eval_keeps (P := fun env' => env'.names = env.names)
    (fun x _ env' v h => (env'.names_store x v).trans h) rfl

theorem Expr.mode_eval (e : Expr) (env : Environment) : (e.eval env).1.mode = env.mode :=
  e.eval_keeps (P := fun env' => env'.mode = env.mode)
    (fun x _ env' v h => (env'.mode_store x v).trans h) rfl

end TinyScript
