import TinyScript.Proofs.Grammar
import TinyScript.Proofs.Runs

/-!
A run that fails blames a token of its program. Each node has at most one error that it can end in,
and the grammar takes the node from tokens among which there is one of the right kind, on the line
of that error.
-/

namespace TinyScript

/-- The error that a node can end in. -/
def Label.hazard? : Label → Option RuntimeError
  | unary op line => op.fault?.map (⟨·, line⟩)
  | binary op line => op.fault?.map (⟨·, line⟩)
  | assign x => some ⟨.undeclaredAssignment x.name, x.line⟩
  | var x => some ⟨.undefinedVariable x.name, x.line⟩
  | _ => none

namespace Evaluated

variable {env : Environment} {line : Nat} {x : RuntimeError}

theorem error_of_operation {r : Except RuntimeFault Value}
    (h : (ofOperation env line r).2 = .error x) : ∃ fault, r = .error fault ∧ x = ⟨fault, line⟩ := by
  cases r with
  | error fault =>
    cases h
    exact ⟨fault, rfl, rfl⟩
  | ok v => cases h

/-- An error is that of the first part, or the first part has a value. -/
theorem error_of_andThen {r : Evaluated} {f : Environment → Value → Evaluated}
    (h : (r.andThen f).2 = .error x) : r.2 = .error x ∨ ∃ env v, (f env v).2 = .error x := by
  obtain ⟨env, y | v⟩ := r
  · exact .inl h
  · exact .inr ⟨env, v, h⟩

end Evaluated

theorem Expr.hazard_of_eval {e : Expr} {env : Environment} {x : RuntimeError}
    (h : (e.eval env).2 = .error x) : ∃ l ∈ e.labels, l.hazard? = some x := by
  induction e generalizing env with
  | literal v => cases h
  | group e ih =>
    obtain ⟨l, hl, hx⟩ := ih h
    exact ⟨l, List.mem_cons_of_mem _ hl, hx⟩
  | unary op line e ih =>
    obtain h | ⟨env, v, h⟩ := Evaluated.error_of_andThen h
    · obtain ⟨l, hl, hx⟩ := ih h
      exact ⟨l, List.mem_cons_of_mem _ hl, hx⟩
    · obtain ⟨fault, hfault, rfl⟩ := Evaluated.error_of_operation h
      refine ⟨_, List.mem_cons_self, ?_⟩
      rw [Label.hazard?, UnaryOp.fault_of_apply hfault]
      rfl
  | binary op line l r ihl ihr =>
    obtain h | ⟨env, a, h⟩ := Evaluated.error_of_andThen h
    · obtain ⟨k, hk, hx⟩ := ihl h
      exact ⟨k, by simp [labels, hk], hx⟩
    · obtain h | ⟨env, b, h⟩ := Evaluated.error_of_andThen h
      · obtain ⟨k, hk, hx⟩ := ihr h
        exact ⟨k, by simp [labels, hk], hx⟩
      · obtain ⟨fault, hfault, rfl⟩ := Evaluated.error_of_operation h
        refine ⟨_, List.mem_cons_self, ?_⟩
        rw [Label.hazard?, BinaryOp.fault_of_apply hfault]
        rfl
  | logical op l r ihl ihr =>
    obtain h | ⟨env, a, h⟩ := Evaluated.error_of_andThen h
    · obtain ⟨k, hk, hx⟩ := ihl h
      exact ⟨k, by simp [labels, hk], hx⟩
    · split at h
      · cases h
      · obtain ⟨k, hk, hx⟩ := ihr h
        exact ⟨k, by simp [labels, hk], hx⟩
  | assign y e ih =>
    obtain h | ⟨env, v, h⟩ := Evaluated.error_of_andThen h
    · obtain ⟨l, hl, hx⟩ := ih h
      exact ⟨l, List.mem_cons_of_mem _ hl, hx⟩
    · refine ⟨_, List.mem_cons_self, ?_⟩
      unfold Environment.store at h
      split at h <;> cases h
      rfl
  | var y =>
    refine ⟨_, List.mem_cons_self, ?_⟩
    rw [eval] at h
    unfold Environment.read at h
    split at h <;> cases h
    rfl

/-- The error of a run is one that a node of its program can end in. -/
theorem Exec.hazard {m m' : Machine} {ss : List Stmt} {x : RuntimeError}
    (h : Exec m ss m' (some x)) : ∃ l ∈ labelsIn ss, l.hazard? = some x := by
  generalize hy : some x = y at h
  induction h with
  | done => cases hy
  | @goes m m₁ m' s ss e v y he hv _ ih =>
    obtain ⟨l, hl, hx⟩ := ih hy
    exact ⟨l, labels_rest m₁ v s ss hl, hx⟩
  | @fails m m' s ss e y he hfail =>
    cases hy
    rw [Machine.evaluate_eq] at hfail
    obtain ⟨l, hl, hx⟩ := Expr.hazard_of_eval (congrArg Prod.snd hfail)
    exact ⟨l, labels_first he ss hl, hx⟩
  | block _ _ _ ih =>
    obtain ⟨l, hl, hx⟩ := ih hy
    exact ⟨l, List.mem_append_right _ hl, hx⟩
  | blockFails _ ih =>
    obtain ⟨l, hl, hx⟩ := ih hy
    exact ⟨l, List.mem_append_left _ (List.mem_cons_of_mem _ hl), hx⟩

/-! The tokens. -/

/-- The token, with `rest` behind it, is one that this can go wrong at. -/
def RuntimeFault.Blames (t : Token) (rest : List Token) : RuntimeFault → Prop
  | addOperands => t.kind = .plus
  | numberOperands =>
    t.kind ∈ [.minus, .star, .slash, .percent, .less, .lessEqual, .greater, .greaterEqual]
  | numberOperand => t.kind = .minus
  | undefinedVariable name => t.kind = .identifier ∧ t.lexeme = name
  | undeclaredAssignment name =>
    t.kind = .identifier ∧ t.lexeme = name ∧ ∃ q more, rest = q :: more ∧ q.kind = .equal

/-- Among the tokens is one, on the line of the error, that the error can be about. -/
inductive RuntimeError.StandsIn (x : RuntimeError) : List Token → Prop where
  | intro {u v : List Token} {t : Token} (hline : x.line = t.line) (h : x.fault.Blames t v) :
      StandsIn x (u ++ t :: v)

theorem RuntimeFault.Blames.append {fault : RuntimeFault} {t : Token} {rest : List Token}
    (h : fault.Blames t rest) (more : List Token) : fault.Blames t (rest ++ more) := by
  cases fault with
  | undeclaredAssignment name =>
    obtain ⟨hkind, hname, q, rest', rfl, hq⟩ := h
    exact ⟨hkind, hname, q, rest' ++ more, rfl, hq⟩
  | _ => exact h

namespace RuntimeError.StandsIn

variable {x : RuntimeError} {w : List Token}

theorem head {t : Token} (hline : x.line = t.line) (h : x.fault.Blames t w) :
    x.StandsIn (t :: w) := .intro (u := []) hline h

theorem append_left (h : x.StandsIn w) (u : List Token) : x.StandsIn (u ++ w) := by
  obtain ⟨hline, h⟩ := h
  rw [← List.append_assoc]
  exact ⟨hline, h⟩

theorem append_right (h : x.StandsIn w) (v : List Token) : x.StandsIn (w ++ v) := by
  obtain ⟨hline, h⟩ := h
  rw [List.append_assoc]
  exact ⟨hline, h.append v⟩

theorem exists_mem (h : x.StandsIn w) : ∃ t ∈ w, t.line = x.line := by
  obtain ⟨hline, -⟩ := h
  exact ⟨_, List.mem_append_right _ List.mem_cons_self, hline.symm⟩

end RuntimeError.StandsIn

namespace Grammar

/-- The errors that the labels can end in all stand among the tokens. -/
def Grounded (w : List Token) (ls : List Label) : Prop :=
  ∀ l ∈ ls, ∀ x, l.hazard? = some x → x.StandsIn w

namespace Grounded

variable {w : List Token} {l : Label} {ls ls' : List Label}

theorem nil : Grounded w [] := nofun

theorem cons (hl : ∀ x, l.hazard? = some x → x.StandsIn w) (h : Grounded w ls) :
    Grounded w (l :: ls) := List.forall_mem_cons.2 ⟨hl, h⟩

/-- Most nodes end in no error of their own. -/
theorem cons_of_none (hl : l.hazard? = none) (h : Grounded w ls) : Grounded w (l :: ls) := by
  refine cons (fun x hx => ?_) h
  rw [hl] at hx
  cases hx

theorem append (h : Grounded w ls) (h' : Grounded w ls') : Grounded w (ls ++ ls') :=
  List.forall_mem_append.2 ⟨h, h'⟩

theorem append_left (h : Grounded w ls) (u : List Token) : Grounded (u ++ w) ls :=
  fun l hl x hx => (h l hl x hx).append_left u

theorem append_right (h : Grounded w ls) (v : List Token) : Grounded (w ++ v) ls :=
  fun l hl x hx => (h l hl x hx).append_right v

theorem before (h : Grounded w ls) (t : Token) : Grounded (t :: w) ls := h.append_left [t]

end Grounded

/-- The node can go wrong at the token only, whatever comes behind it. -/
def FailsAt (t : Token) (l : Label) : Prop :=
  ∀ x, l.hazard? = some x → x.line = t.line ∧ ∀ rest, x.fault.Blames t rest

theorem sign?_failsAt {t : Token} {op : UnaryOp} (h : sign? t.kind = some op) :
    FailsAt t (.unary op t.line) := by
  generalize hk : t.kind = k at h
  unfold sign? at h
  split at h <;> cases h <;> rintro x ⟨⟩
  exact ⟨rfl, fun _ => hk⟩

theorem factor?_failsAt {t : Token} {op : BinaryOp} (h : factor? t.kind = some op) :
    FailsAt t (.binary op t.line) := by
  generalize hk : t.kind = k at h
  unfold factor? at h
  split at h <;> cases h <;> rintro x ⟨⟩ <;> simp [RuntimeFault.Blames, hk]

/-- A chained operator is a node over its operands. -/
theorem Category.chain?_failsAt {c : Category} {t : Token} {node : Nat → Expr → Expr → Expr}
    (h : c.chain? t.kind = some node) (a b : Expr) :
    ∃ l, (node t.line a b).labels = l :: (a.labels ++ b.labels) ∧ FailsAt t l := by
  generalize hk : t.kind = k at h
  unfold chain? at h
  split at h <;> cases h <;> refine ⟨_, rfl, ?_⟩ <;> rintro x ⟨⟩ <;>
    simp [RuntimeFault.Blames, hk]

/-- Only a name is a bare variable. -/
theorem Phrase.of_var {c : Category} {w : List Token} {x : Ident} (h : Phrase c w (.var x)) :
    ∃ t, w = [t] ∧ t.kind = .identifier ∧ x = ⟨t.lexeme, t.line⟩ := by
  generalize he : Expr.var x = e at h
  induction h with
  | name ht =>
    cases he
    exact ⟨_, rfl, ht, rfl⟩
  | operand _ _ ih => exact ih he
  | chain _ ht _ _ _ =>
    unfold Category.chain? at ht
    split at ht <;> cases ht <;> cases he
  | _ => cases he

theorem Grounded.operator {u v : List Token} {t : Token} {l : Label} {a b : Expr} (hl : FailsAt t l)
    (ha : Grounded u a.labels) (hb : Grounded v b.labels) :
    Grounded (u ++ t :: v) (l :: (a.labels ++ b.labels)) := by
  refine .cons (fun x hx => ?_) (.append (ha.append_right _) ((hb.before t).append_left u))
  obtain ⟨hline, hblames⟩ := hl x hx
  exact .intro hline (hblames v)

theorem Phrase.grounded {c : Category} {w : List Token} {e : Expr} (h : Phrase c w e) :
    Grounded w e.labels := by
  induction h with
  | literal | true | false | null => exact .cons_of_none rfl .nil
  | name ht =>
    refine .cons ?_ .nil
    rintro x ⟨⟩
    exact .head rfl ⟨ht, rfl⟩
  | group _ _ _ ih => exact .cons_of_none rfl ((ih.before _).append_right _)
  | @unary t op w e ht _ ih =>
    refine .cons (fun x hx => ?_) (ih.before t)
    obtain ⟨hline, hblames⟩ := sign?_failsAt ht x hx
    exact .head hline (hblames w)
  | product _ ht _ iha ihb => exact .operator (factor?_failsAt ht) iha ihb
  | @chain c t node u v a b _ ht _ iha ihb =>
    obtain ⟨l, hl, hfails⟩ := Category.chain?_failsAt ht a b
    rw [hl]
    exact .operator hfails iha ihb
  | @assign t x u v e hx ht _ _ ih =>
    -- the name is all that stands in front of the equals sign
    obtain ⟨n, rfl, hn, rfl⟩ := hx.of_var
    refine .cons ?_ ((ih.before t).append_left [n])
    rintro x ⟨⟩
    exact .head rfl ⟨hn, rfl, t, v, rfl, ht⟩
  | operand _ _ ih => exact ih

theorem Simple.grounded {w : List Token} {s : Stmt} (h : Simple w s) : Grounded w s.labels := by
  cases h with
  | declare _ _ _ he _ =>
    exact .cons_of_none rfl ((((he.grounded.before _).before _).before _).append_right _)
  | expression he _ => exact .cons_of_none rfl (he.grounded.append_right _)

theorem Initializer.grounded {w : List Token} {init : Option Stmt} (h : Initializer w init)
    {s : Stmt} (hs : init = Option.some s) : Grounded w s.labels := by
  cases h with
  | none => cases hs
  | some h =>
    cases hs
    exact h.grounded

theorem Step.grounded {w : List Token} {step : Option Expr} (h : Step w step) {e : Expr}
    (he : step = Option.some e) : Grounded w e.labels := by
  cases h with
  | none => cases he
  | some h =>
    cases he
    exact h.grounded

theorem Test.grounded {w : List Token} {e : Expr} (h : Test w e) : Grounded w e.labels := by
  cases h with
  | none => exact .cons_of_none rfl .nil
  | some he => exact he.grounded

/-- A loop with clauses is made of the nodes of its parts and of nodes that cannot go wrong. -/
theorem Grounded.loop {w : List Token} {init : Option Stmt} {test : Expr} {step : Option Expr}
    {body : Stmt} (hi : ∀ s, init = some s → Grounded w s.labels) (ht : Grounded w test.labels)
    (hs : ∀ e, step = some e → Grounded w e.labels) (hb : Grounded w body.labels) :
    Grounded w (loop init test step body).labels := by
  have hround : ∀ round : Stmt, Grounded w round.labels →
      Grounded w (Stmt.while test round).labels := fun round h => .cons_of_none rfl (ht.append h)
  have hstepped : ∀ e, step = some e → Grounded w (Stmt.block [body, .expression e]).labels :=
    fun e he => .cons_of_none rfl (hb.append (.append (.cons_of_none rfl (hs e he)) .nil))
  have hblock : ∀ s t : Stmt, init = some s → Grounded w t.labels →
      Grounded w (Stmt.block [s, t]).labels :=
    fun s t hs ht => .cons_of_none rfl ((hi s hs).append (ht.append .nil))
  cases init with
  | none =>
    cases step with
    | none => exact hround _ hb
    | some e => exact hround _ (hstepped e rfl)
  | some s =>
    cases step with
    | none => exact hblock s _ rfl (hround _ hb)
    | some e => exact hblock s _ rfl (hround _ (hstepped e rfl))

mutual

theorem Statement.grounded : {d : Bool} → {w : List Token} → {s : Stmt} → Statement d w s →
    Grounded w s.labels
  | _, _, _, .simple hs => hs.grounded
  | _, _, _, .print _ he _ => .cons_of_none rfl ((he.grounded.before _).append_right _)
  | _, _, _, .block _ hs _ => .cons_of_none rfl ((hs.grounded.before _).append_right _)
  | _, _, _, .ifThen _ _ ht _ hy =>
    .cons_of_none rfl (.append (((ht.grounded.before _).before _).append_right _)
      ((hy.grounded.before _).append_left _))
  | _, _, _, .ifElse _ _ ht _ hy _ hn =>
    .cons_of_none rfl (.append ((((ht.grounded.before _).before _).append_right _).append_right _)
      (.append (((hy.grounded.before _).append_left _).append_right _)
        ((hn.grounded.before _).append_left _)))
  | _, _, _, .while _ _ ht _ hb =>
    .cons_of_none rfl (.append (((ht.grounded.before _).before _).append_right _)
      ((hb.grounded.before _).append_left _))
  | _, _, _, .for _ _ hi ht _ hx _ hb =>
    .loop (fun _ h =>
        (((((hi.grounded h).before _).before _).append_right _).append_right _).append_right _)
      (((ht.grounded.append_left _).append_right _).append_right _)
      (fun _ h => (((hx.grounded h).before _).append_left _).append_right _)
      ((hb.grounded.before _).append_left _)

theorem Statements.grounded : {w : List Token} → {ss : List Stmt} → Statements w ss →
    Grounded w (labelsIn ss)
  | _, _, .nil => .nil
  | _, _, .cons hs hr => .append (hs.grounded.append_right _) (hr.grounded.append_left _)

end

end Grammar

/-- A run that ends in an error blames a token of its program: it stands on the line of the error,
is a name or an operator as the message says, and an assigned name has its equals sign behind
it. -/
theorem Machine.Ends.blames_token {w : List Token} {ss : List Stmt} (hs : Grammar.Statements w ss)
    {m m' : Machine} {x : RuntimeError} (h : m.Ends ss m' (some x)) : x.StandsIn w := by
  obtain ⟨l, hl, hx⟩ := (Machine.run_iff_exec.1 h).hazard
  exact hs.grounded l hl x hx

end TinyScript
