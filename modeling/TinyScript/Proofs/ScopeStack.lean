import TinyScript.Proofs.ScopeDiscipline

/-!
The variables as a store with operations. A scope that is opened and closed again leaves behind the
names that were bound before, and of their values just those that were assigned past every scope in
between. Where blocks have no scopes, opening and closing one is not noticed at all.
-/

namespace TinyScript

namespace Environment

inductive Operation where
  | push
  | pop
  | define (name : String) (v : Value)
  | assign (name : String) (v : Value)
  | lookup (name : String)
  | contains (name : String)

/-- What an operation answers. -/
inductive Answer where
  | defined
  | assigned (found : Bool)
  | value (v : Option Value)
  | bound (b : Bool)

def Operation.isScoping : Operation → Bool
  | push | pop => true
  | _ => false

/-- The environment after the operation, and the answer, which opening and closing a scope does not
give. -/
def perform (env : Environment) : Operation → Environment × Option Answer
  | .push => (env.push, none)
  | .pop => (env.pop, none)
  | .define name v => (env.define name v, some .defined)
  | .assign name v =>
    match env.assign name v with
    | some env' => (env', some (.assigned true))
    | none => (env, some (.assigned false))
  | .lookup name => (env, some (.value (env.lookup name)))
  | .contains name => (env, some (.bound (env.contains name)))

/-- The environment after all the operations. -/
def performs (env : Environment) (ops : List Operation) : Environment :=
  ops.foldl (fun env op => (env.perform op).1) env

def answers (env : Environment) : List Operation → List Answer
  | [] => []
  | op :: ops => (env.perform op).2.toList ++ (env.perform op).1.answers ops

/-- The operations never close a scope that was open before them, and close all that they open. -/
def Balanced (env : Environment) (ops : List Operation) : Prop :=
  (∀ before, before <+: ops → env.depth ≤ (env.performs before).depth) ∧
    (env.performs ops).depth = env.depth

instance (env : Environment) (ops : List Operation) : Decidable (env.Balanced ops) :=
  decidable_of_iff
    ((∀ before ∈ ops.inits, env.depth ≤ (env.performs before).depth) ∧
      (env.performs ops).depth = env.depth)
    (by simp only [Balanced, List.mem_inits])

/-- Some scope that is open above the `n` outermost ones binds the name. -/
def boundAbove (env : Environment) (n : Nat) (name : String) : Bool :=
  (env.inner.take (env.depth - n)).any (·.binds name)

/-- The value, if the operation assigns one to the name and succeeds, and no scope above the `n`
outermost ones binds the name. -/
def outward? (n : Nat) (name : String) (env : Environment) : Operation → Option Value
  | .assign x v =>
    if x = name ∧ (env.assign x v).isSome ∧ env.boundAbove n name = false then some v else none
  | _ => none

/-- The values that operations assign in this way, one after the other. -/
def outward (n : Nat) (name : String) (env : Environment) : List Operation → List Value
  | [] => []
  | op :: ops => (outward? n name env op).toList ++ outward n name (env.perform op).1 ops

structure Lawful (env : Environment) : Prop where
  depth_pos : 1 ≤ env.depth
  depth_flat : env.mode = .flat → env.depth = 1
  assign_isSome : ∀ name v, (env.assign name v).isSome = env.contains name
  assign_some : ∀ name v env', env.assign name v = some env' →
    env'.lookup name = some v ∧ ∀ other, other ≠ name → env'.lookup other = env.lookup other
  assign_none : ∀ name v, env.assign name v = none →
    env.perform (.assign name v) = (env, some (.assigned false))
  closed : env.mode = .lexical → ∀ ops, env.push.Balanced ops →
    (env.performs (.push :: (ops ++ [.pop]))).depth = env.depth ∧
      (env.performs (.push :: (ops ++ [.pop]))).names = env.names ∧
      ∀ name, (env.performs (.push :: (ops ++ [.pop]))).lookup name =
        (outward env.depth name env.push ops).getLast?.or (env.lookup name)
  flat : env.mode = .flat → ∀ ops, env.answers (ops.filter (!·.isScoping)) = env.answers ops

variable {env : Environment}

theorem performs_append (env : Environment) (ops ops' : List Operation) :
    env.performs (ops ++ ops') = (env.performs ops).performs ops' := List.foldl_append

theorem Built.perform (h : env.Built) (op : Operation) : (env.perform op).1.Built := by
  cases op with
  | push => exact h.push
  | pop => exact h.pop
  | define name v => exact h.define name v
  | assign name v =>
    cases hassign : env.assign name v with
    | none => simpa only [Environment.perform, hassign] using h
    | some env' => simpa only [Environment.perform, hassign] using h.assign hassign
  | lookup | contains => exact h

theorem Built.performs (h : env.Built) (ops : List Operation) : (env.performs ops).Built := by
  induction ops generalizing env with
  | nil => exact h
  | cons op ops ih => exact ih (h.perform op)

theorem mode_perform (env : Environment) (op : Operation) : (env.perform op).1.mode = env.mode := by
  cases op with
  | push => exact env.mode_push
  | define name v => exact env.mode_define name v
  | assign name v =>
    obtain ⟨-, hassign⟩ | ⟨env', hassign, -, -, -, hmode, -⟩ := env.assign_spec name v
    · rw [perform, hassign]
    · rw [perform, hassign]
      exact hmode
  | pop | lookup | contains => rfl

/-! Blocks without scopes. -/

/-- Without block scopes there is none to open or close. -/
theorem Built.perform_scoping (h : env.Built) (hflat : env.mode = .flat) {op : Operation}
    (hop : op.isScoping) : env.perform op = (env, none) := by
  cases op with
  | push => rw [Environment.perform, Environment.push, hflat]
  | pop =>
    have hinner := h.coherent hflat
    rw [Environment.perform, Environment.pop, hinner, List.tail_nil, ← hinner]
  | _ => cases hop

theorem Built.answers_filter (h : env.Built) (hflat : env.mode = .flat) (ops : List Operation) :
    env.answers (ops.filter (!·.isScoping)) = env.answers ops := by
  induction ops generalizing env with
  | nil => rfl
  | cons op ops ih =>
    cases hop : op.isScoping with
    | true =>
      rw [List.filter_cons_of_neg (by simp [hop]), answers, h.perform_scoping hflat hop]
      exact ih h hflat
    | false =>
      rw [List.filter_cons_of_pos (by simp [hop]), answers, answers,
        ih (h.perform op) ((env.mode_perform op).trans hflat)]

/-! Blocks with scopes. -/

/-- The environment with these scopes open above its own. -/
def under (base : Environment) (above : List Scope) : Environment :=
  { base with inner := above ++ base.inner }

variable {base : Environment} {above : List Scope} {s : Scope}

theorem depth_under (base : Environment) (above : List Scope) :
    (base.under above).depth = above.length + base.depth := by
  rw [depth, under, List.length_append, depth, Nat.add_assoc]

theorem boundAbove_under (base : Environment) (above : List Scope) (name : String) :
    (base.under above).boundAbove base.depth name = above.any (·.binds name) := by
  rw [boundAbove, depth_under, Nat.add_sub_cancel, under, List.take_left]

theorem push_under (hmode : base.mode = .lexical) (above : List Scope) :
    (base.under above).push = base.under ([] :: above) := by
  obtain ⟨mode, inner, global⟩ := base
  cases hmode
  rfl

theorem pop_under (base : Environment) (s : Scope) (above : List Scope) :
    (base.under (s :: above)).pop = base.under above := rfl

/-- An assignment finds its name in one of the scopes above, or reaches the base. -/
theorem assign_under (base : Environment) (above : List Scope) (name : String) (v : Value) :
    (above.any (·.binds name) ∧ ∃ above', above'.length = above.length ∧
        (base.under above).assign name v = some (base.under above')) ∨
      above.any (·.binds name) = false ∧
        (base.under above).assign name v = (base.assign name v).map (·.under above) := by
  induction above with
  | nil =>
    refine .inr ⟨rfl, ?_⟩
    change base.assign name v = (base.assign name v).map id
    rw [Option.map_id_fun, id]
  | cons s above ih =>
    have hcons : (base.under (s :: above)).assign name v =
        if s.binds name then some (base.under (s.insert name v :: above))
        else ((base.under above).assign name v).map
          fun env => { env with inner := s :: env.inner } := assign_cons _ s _ _ name v
    rw [hcons, List.any_cons]
    cases hs : s.binds name with
    | true => exact .inl ⟨rfl, s.insert name v :: above, rfl, if_pos rfl⟩
    | false =>
      obtain ⟨hany, above', hlength, hassign⟩ | ⟨hany, hassign⟩ := ih
      · exact .inl ⟨hany, s :: above', congrArg Nat.succ hlength, by rw [hassign]; rfl⟩
      · refine .inr ⟨hany, ?_⟩
        rw [hassign, if_neg Bool.false_ne_true, Option.map_map]
        rfl

/-- From one environment to the other the values of names change as operations on scopes above
demand, and nothing else does. -/
structure Receives (env : Environment) (given : String → Option Value) (env' : Environment) :
    Prop where
  mode : env'.mode = env.mode
  depth : env'.depth = env.depth
  names : env'.names = env.names
  lookup : ∀ name, env'.lookup name = (given name).or (env.lookup name)

theorem Receives.nothing (env : Environment) : env.Receives (fun _ => none) env :=
  ⟨rfl, rfl, rfl, fun _ => rfl⟩

/-- What one operation does beneath the scopes that stay open above. -/
theorem perform_under (op : Operation) (hmode : base.mode = .lexical) (habove : above ≠ [])
    (hstays : base.depth < ((base.under above).perform op).1.depth) :
    ∃ above' base', ((base.under above).perform op).1 = under base' above' ∧ above' ≠ [] ∧
      base.Receives (fun name => outward? base.depth name (base.under above) op) base' := by
  obtain ⟨s, rest, rfl⟩ := List.exists_cons_of_ne_nil habove
  cases op with
  | push => exact ⟨[] :: s :: rest, base, push_under hmode _, List.cons_ne_nil _ _, .nothing base⟩
  | pop =>
    refine ⟨rest, base, base.pop_under s rest, ?_, .nothing base⟩
    rintro rfl
    exact absurd hstays (Nat.lt_irrefl _)
  | define name v => exact ⟨_, base, rfl, List.cons_ne_nil _ _, .nothing base⟩
  | assign x v =>
    have hlocal := base.boundAbove_under (s :: rest)
    obtain ⟨hany, above', hlength, hassign⟩ | ⟨hany, hassign⟩ := base.assign_under (s :: rest) x v
    · refine ⟨above', base, by rw [perform, hassign], ?_, ?_⟩
      · rintro rfl
        cases hlength
      · refine ⟨rfl, rfl, rfl, fun name => ?_⟩
        rw [outward?, if_neg]
        · rfl
        · rintro ⟨rfl, -, hnot⟩
          rw [hlocal, hany] at hnot
          cases hnot
    · obtain ⟨-, hnone⟩ | ⟨base', hbase, -, hlookup, hnames, hmode', hlength⟩ :=
        base.assign_spec x v
      · refine ⟨s :: rest, base, by rw [perform, hassign, hnone]; rfl, habove,
          rfl, rfl, rfl, fun name => ?_⟩
        rw [outward?, hassign, hnone, if_neg (by simp)]
        rfl
      · refine ⟨s :: rest, base', by rw [perform, hassign, hbase]; rfl, habove, hmode',
          congrArg Nat.succ hlength, hnames, fun name => ?_⟩
        rw [hlookup, outward?, hassign, hbase]
        by_cases hname : name = x
        · rw [hname, if_pos rfl, if_pos ⟨rfl, rfl, (hlocal x).trans hany⟩]
          rfl
        · rw [if_neg hname, if_neg fun h => hname h.1.symm]
          rfl
  | lookup | contains => exact ⟨_, base, rfl, habove, .nothing base⟩

/-- By induction on the operations: the base holds the values that have reached it. -/
theorem performs_under (ops : List Operation) (hmode : base.mode = .lexical) (habove : above ≠ [])
    (hstays : ∀ before, before <+: ops → base.depth < ((base.under above).performs before).depth) :
    ∃ above' base', (base.under above).performs ops = under base' above' ∧
      base.Receives (fun name => (outward base.depth name (base.under above) ops).getLast?)
        base' := by
  induction ops generalizing base above with
  | nil => exact ⟨above, base, rfl, .nothing base⟩
  | cons op ops ih =>
    have hfirst := hstays [op] ⟨ops, rfl⟩
    obtain ⟨above₁, base₁, hstep, habove₁, hreceives⟩ := perform_under op hmode habove hfirst
    have hrest : ∀ before, before <+: ops →
        base₁.depth < ((base₁.under above₁).performs before).depth := by
      intro before hbefore
      have hcons := hstays (op :: before) ((List.prefix_cons_inj op).2 hbefore)
      rw [hreceives.depth, ← hstep]
      exact hcons
    obtain ⟨above', base', hrun, hreceives'⟩ := ih (hreceives.mode.trans hmode) habove₁ hrest
    refine ⟨above', base', ?_, hreceives'.mode.trans hreceives.mode,
      hreceives'.depth.trans hreceives.depth, hreceives'.names.trans hreceives.names,
      fun name => ?_⟩
    · rw [← hrun, ← hstep]
      rfl
    · rw [hreceives'.lookup, hreceives.lookup, hreceives.depth, outward, hstep,
        List.getLast?_append, Option.or_assoc]
      congr 1
      cases outward? base.depth name (base.under above) op <;> rfl

/-- A scope that is opened and closed leaves the values that were assigned past it. -/
theorem receives_closed (hmode : env.mode = .lexical) {ops : List Operation}
    (hbalanced : env.push.Balanced ops) :
    env.Receives (fun name => (outward env.depth name env.push ops).getLast?)
      (env.performs (.push :: (ops ++ [.pop]))) := by
  have hpush : env.push = env.under [[]] := push_under hmode []
  rw [hpush] at hbalanced ⊢
  obtain ⟨hstays, hends⟩ := hbalanced
  rw [depth_under] at hstays hends
  obtain ⟨above, base, hrun, hreceives⟩ := performs_under ops hmode (List.cons_ne_nil [] [])
    fun before hbefore => Nat.lt_of_lt_of_le (by simp) (hstays before hbefore)
  have hlength : above.length = 1 := by
    rw [hrun, depth_under, hreceives.depth] at hends
    exact Nat.add_right_cancel hends
  obtain ⟨s, rfl⟩ := List.length_eq_one_iff.1 hlength
  have hclosed : env.performs (.push :: (ops ++ [.pop])) = base := by
    change env.push.performs (ops ++ [.pop]) = base
    rw [hpush, performs_append, hrun]
    exact base.pop_under s []
  rw [hclosed]
  exact hreceives

theorem Built.lawful (h : env.Built) : env.Lawful where
  depth_pos := Nat.succ_le_succ (Nat.zero_le _)
  depth_flat := (coherent_iff env).1 h.coherent
  assign_isSome name v := by
    obtain ⟨hnone, hassign⟩ | ⟨env', hassign, hsome, -⟩ := env.assign_spec name v
    · rw [hassign, Environment.contains, hnone]
      rfl
    · rw [hassign, Environment.contains, hsome]
      rfl
  assign_some name v env' hassign := by
    obtain ⟨-, hnone⟩ | ⟨env'', hsome, -, hlookup, -⟩ := env.assign_spec name v
    · rw [hnone] at hassign
      cases hassign
    · obtain rfl : env'' = env' := Option.some.inj (hsome.symm.trans hassign)
      exact ⟨by rw [hlookup, if_pos rfl], fun other hother => by rw [hlookup, if_neg hother]⟩
  assign_none name v hassign := by rw [Environment.perform, hassign]
  closed hmode ops hbalanced := by
    have hreceives := receives_closed hmode hbalanced
    exact ⟨hreceives.depth, hreceives.names, hreceives.lookup⟩
  flat hflat ops := h.answers_filter hflat ops

/-- The laws of the scope stack hold of every environment that operations lead to. -/
theorem performs_lawful (mode : ScopeMode) (ops : List Operation) :
    ((new mode).performs ops).Lawful := ((Built.new mode).performs ops).lawful

/-- An assignment goes past the scopes until one of them binds the name; what is assigned from then
on is gone with that scope. -/
theorem shadowed_assignment_lost :
    let env := (new .lexical).performs [.define "x" (.text "old"), .pop, .define "y" .null]
    let ops : List Operation := [.push, .push, .define "y" .null, .assign "y" (.text "inner"),
      .assign "x" (.text "new"), .pop, .pop, .define "x" .null, .assign "x" (.text "lost")]
    env.push.Balanced ops ∧
      (env.performs (.push :: (ops ++ [.pop]))).depth = env.depth ∧
      (env.performs (.push :: (ops ++ [.pop]))).lookup "x" = some (.text "new") ∧
      (env.performs (.push :: (ops ++ [.pop]))).lookup "y" = some .null := by
  intro env ops
  have hbalanced : env.push.Balanced ops := by decide
  obtain ⟨hdepth, -, hlookup⟩ := (performs_lawful .lexical _).closed rfl ops hbalanced
  exact ⟨hbalanced, hdepth, hlookup "x", hlookup "y"⟩

end Environment

end TinyScript
