import TinyScript.Proofs.Attempts
import TinyScript.Proofs.Derivation
import TinyScript.Proofs.EmptyScopes

/-!
What a loop with clauses means, said without the blocks and the `while` that it is read as. One
scope holds what the first clause declares. In it the second clause is tested, the body runs and
the third clause is evaluated, round after round, and the scope is closed on every way out.
-/

namespace TinyScript

/-- Something done on a machine: where it starts, where it ends, and the error if there is one. -/
abbrev Action := Machine → Machine → Option RuntimeError → Prop

/-- Whether the test holds. A missing one does. -/
def Machine.holds (m : Machine) : Option Expr → Machine × Except RuntimeError Bool
  | none => (m, .ok true)
  | some e =>
    let r := m.evaluate e
    (r.1, r.2.map Value.truthy)

namespace Action

/-- One action and then the other, unless the first one fails. -/
def andThen (a b : Action) : Action := fun m m' x =>
  (∃ m₁, a m m₁ none ∧ b m₁ m' x) ∨ ∃ y, x = some y ∧ a m m' (some y)

/-- An action in a scope of its own, which is closed whether the action fails or not. -/
def inScope (a : Action) : Action := fun m m' x => ∃ m₁, a m.push m₁ x ∧ m' = m₁.pop

/-- Evaluates an expression, if there is one, for what it does. -/
def evaluates : Option Expr → Action
  | none => fun m m' x => m' = m ∧ x = none
  | some e => fun m m' x =>
    (∃ v, m.evaluate e = (m', .ok v) ∧ x = none) ∨ ∃ y, m.evaluate e = (m', .error y) ∧ x = some y

/-- An action again and again, as long as a test before it holds. -/
inductive Repeats (test : Machine → Machine × Except RuntimeError Bool) (round : Action) :
    Machine → Machine → Option RuntimeError → Prop where
  | ends {m m' : Machine} (ht : test m = (m', .ok false)) : Repeats test round m m' none
  | testFails {m m' : Machine} {y : RuntimeError} (ht : test m = (m', .error y)) :
      Repeats test round m m' (some y)
  | roundFails {m m₁ m' : Machine} {y : RuntimeError} (ht : test m = (m₁, .ok true))
      (hr : round m₁ m' (some y)) : Repeats test round m m' (some y)
  | again {m m₁ m₂ m' : Machine} {x : Option RuntimeError} (ht : test m = (m₁, .ok true))
      (hr : round m₁ m₂ none) (h : Repeats test round m₂ m' x) : Repeats test round m m' x

end Action

/-- The clauses of a loop and its body. -/
structure Clauses where
  init : Option Stmt
  test : Option Expr
  step : Option Expr
  body : Stmt

namespace Clauses

/-- A round: the body, then the step. -/
def round (c : Clauses) : Action := .andThen (Machine.Ends · [c.body]) (.evaluates c.step)

def rounds (c : Clauses) : Action := .Repeats (Machine.holds · c.test) c.round

/-- What the loop means. -/
def run (c : Clauses) : Action :=
  match c.init with
  | none => c.rounds
  | some s => .inScope (.andThen (Machine.Ends · [s]) c.rounds)

/-- What the loop is read as. -/
def tree (c : Clauses) : Stmt :=
  .counting c.init (c.test.getD (.literal (.boolean true))) c.step c.body

end Clauses

namespace Grammar

/-- The tokens of a loop with these clauses. The second clause, like the third one, is an
expression or nothing at all. -/
inductive Loop : Bool → List Token → Clauses → Prop where
  | clauses {d : Bool} {k l z r : Token} {w v x u : List Token} {c : Clauses}
      (hk : k.kind = .kwFor) (hl : l.kind = .leftParen) (hi : Initializer w c.init)
      (ht : Step v c.test) (hz : z.kind = .semicolon) (hx : Step x c.step)
      (hr : r.kind = .rightParen) (hb : Statement d u c.body) :
      Loop d (k :: l :: w ++ v ++ z :: x ++ r :: u) c

theorem Test.clause {w : List Token} {e : Expr} (h : Test w e) :
    ∃ test, Step w test ∧ e = test.getD (.literal (.boolean true)) := by
  cases h with
  | none => exact ⟨.none, .none, rfl⟩
  | some he => exact ⟨.some e, .some he, rfl⟩

theorem Statements.single {w : List Token} {s : Stmt} (h : Statements w [s]) :
    ∃ d, Statement d w s := by
  cases h with
  | @cons d u v _ _ hs hr =>
    cases hr
    exact ⟨d, (List.append_nil u).symm ▸ hs⟩

/-- A statement that starts with this keyword is such a loop. -/
theorem Statement.clauses {d : Bool} {w : List Token} {s : Stmt} (h : Statement d w s)
    (hfor : w.head?.map Token.kind = some .kwFor) : ∃ c, Loop d w c ∧ s = c.tree := by
  have hother : ∀ {t : Token} {kind : TokenKind} {ts : List Token}, t.kind = kind →
      kind ≠ .kwFor → (t :: ts).head?.map Token.kind ≠ some .kwFor := by
    rintro t kind ts rfl hne heq
    exact hne (Option.some.inj heq)
  cases h with
  | @«for» d k l z r w v x u init test step body hk hl hi ht hz hx hr hb =>
    obtain ⟨test, hclause, rfl⟩ := ht.clause
    exact ⟨⟨init, test, step, body⟩, .clauses hk hl hi hclause hz hx hr hb,
      loop_eq_counting _ _ _ _⟩
  | simple hs =>
    cases hs with
    | declare hk => exact absurd hfor (hother hk (by decide))
    | expression he =>
      obtain ⟨t, w', rfl, ht⟩ := he.head
      refine absurd hfor (hother rfl fun hk => ?_)
      simp [hk, phraseStarts] at ht
  | print hk | block hk | ifThen hk | ifElse hk | «while» hk =>
    exact absurd hfor (hother hk (by decide))

end Grammar

namespace Reading

/-- What is read without error is not the end, and does not lead to tokens being skipped. -/
theorem feed_of_errors_nil {r : Reading} {t : Token} (hr : r.stage.isSome)
    (h : (r.feed t).errors = []) : t.kind ≠ .eof ∧ (r.feed t).stage.isSome := by
  obtain ⟨stage, hstage⟩ := Option.isSome_iff_exists.1 hr
  rw [feed_eq hstage] at h ⊢
  cases hjudge : stage.judge t with
  | taken next => exact ⟨fun ht => Stage.judge_eof ht _ _ hjudge, rfl⟩
  | behind s =>
    rw [hjudge] at h
    cases hnext : Stage.statement [] t with
    | error fault =>
      rw [hnext] at h
      cases h
    | ok next =>
      refine ⟨fun ht => ?_, rfl⟩
      obtain ⟨fault, hfault⟩ := Grammar.step_eof ht .statement []
      cases hnext.symm.trans hfault
  | wrong fault =>
    rw [hjudge] at h
    cases h

theorem ne_eof_of_feeds {r : Reading} {ts : List Token} (hr : r.stage.isSome)
    (h : (r.feeds ts).errors = []) : ∀ t ∈ ts, t.kind ≠ .eof := by
  induction ts generalizing r with
  | nil => nofun
  | cons t ts ih =>
    obtain ⟨ht, hstage⟩ := feed_of_errors_nil hr (errors_nil_of_feeds h)
    exact List.forall_mem_cons.2 ⟨ht, ih hstage h⟩

end Reading

/-- A statement by itself is a program. -/
theorem Grammar.Statement.parse {d : Bool} {w : List Token} {s : Stmt} (h : Statement d w s)
    {e : Token} (he : e.kind = .eof) (recover : Bool) :
    TinyScript.parse (w ++ [e]) recover = ⟨[s], []⟩ := by
  have hread := Statements.read (.cons h .nil) he
  rw [List.append_nil] at hread
  have hw := Reading.ne_eof_of_feeds (r := .start) rfl (Reading.errors_nil_of_finish hread.1)
  exact (parse_eq_ok_iff he hw recover [s]).2 hread

namespace Action

variable {m m' : Machine} {x : Option RuntimeError} {a b b' : Action}

theorem andThen_congr (h : ∀ m₁, a m m₁ none → (b m₁ m' x ↔ b' m₁ m' x)) :
    andThen a b m m' x ↔ andThen a b' m m' x :=
  or_congr_left (exists_congr fun m₁ => and_congr_right (h m₁))

/-- What leads up to the first action is part of it. -/
theorem andThen_of {m₁ : Machine} {a' : Action} (h : ∀ {m' x}, a m₁ m' x → a' m m' x) :
    andThen a b m₁ m' x → andThen a' b m m' x := by
  rintro (⟨m₂, ha, hb⟩ | ⟨y, rfl, ha⟩)
  · exact .inl ⟨m₂, h ha, hb⟩
  · exact .inr ⟨y, rfl, h ha⟩

theorem andThen_nothing (a : Action) : andThen a (evaluates none) = a := by
  funext m m' x
  refine propext ⟨?_, ?_⟩
  · rintro (⟨m₁, h, rfl, rfl⟩ | ⟨y, rfl, h⟩)
    · exact h
    · exact h
  · intro h
    cases x with
    | none => exact .inl ⟨m', h, rfl, rfl⟩
    | some y => exact .inr ⟨y, rfl, h⟩

/-- A round may be done in another way, where only machines with some property come up. -/
theorem Repeats.mono {P : Machine → Prop} {test : Machine → Machine × Except RuntimeError Bool}
    (htest : ∀ {m m' r}, P m → test m = (m', r) → P m')
    (hround : ∀ {m m' x}, P m → a m m' x → b m m' x ∧ P m')
    (h : Repeats test a m m' x) (hm : P m) : Repeats test b m m' x := by
  induction h with
  | ends ht => exact .ends ht
  | testFails ht => exact .testFails ht
  | roundFails ht hr => exact .roundFails ht (hround (htest hm ht) hr).1
  | again ht hr _ ih =>
    obtain ⟨hr, hP⟩ := hround (htest hm ht) hr
    exact .again ht hr (ih hP)

end Action

namespace Machine

variable {m m' : Machine} {e : Expr}

theorem holds_ok {b : Bool} :
    m.holds (some e) = (m', .ok b) ↔ ∃ v, m.evaluate e = (m', .ok v) ∧ v.truthy = b := by
  simp only [holds]
  rcases m.evaluate e with ⟨m₁, y | v⟩
  · simp [Except.map]
  · simp [Except.map]

theorem holds_error {y : RuntimeError} :
    m.holds (some e) = (m', .error y) ↔ m.evaluate e = (m', .error y) := by
  simp only [holds]
  rcases m.evaluate e with ⟨m₁, y | v⟩
  · simp [Except.map]
  · simp [Except.map]

/-- A missing test is read as one that holds. -/
theorem holds_getD (m : Machine) (test : Option Expr) :
    m.holds (some (test.getD (.literal (.boolean true)))) = m.holds test := by
  cases test with
  | none => exact holds_ok.2 ⟨.boolean true, evaluate_eq m _, rfl⟩
  | some e => rfl

theorem grows_holds {test : Option Expr} {r : Except RuntimeError Bool}
    (h : m.holds test = (m', r)) : m.env.Grows m'.env := by
  cases test with
  | none =>
    cases h
    exact .refl _
  | some e =>
    cases h
    exact grows_evaluate rfl

theorem ends_eq (ss : List Stmt) : (Machine.Ends · ss) = (Exec · ss) := by
  funext m m' x
  exact propext run_iff_exec

end Machine

namespace Exec

variable {m m' : Machine} {x : Option RuntimeError} {a b : List Stmt} {e : Expr} {round : Stmt}

theorem append_iff : Exec m (a ++ b) m' x ↔ Action.andThen (Exec · a) (Exec · b) m m' x := by
  refine ⟨of_append, ?_⟩
  rintro (⟨m₁, ha, hb⟩ | ⟨y, rfl, ha⟩)
  · exact ha.append hb
  · exact ha.append_of_error b

theorem expression_iff : Exec m [.expression e] m' x ↔ Action.evaluates (some e) m m' x := by
  constructor
  · intro h
    cases h with
    | goes he hv h =>
      cases he
      cases h
      exact .inl ⟨_, hv, rfl⟩
    | fails he hy =>
      cases he
      exact .inr ⟨_, hy, rfl⟩
  · rintro (⟨v, hv, rfl⟩ | ⟨y, hy, rfl⟩)
    · exact .goes rfl hv .done
    · exact .fails rfl hy

/-- By induction on the run of the statements in front of the loop and then of its rounds. -/
theorem repeats_of_while (h : Exec m (a ++ [.while e round]) m' x) :
    Action.andThen (Exec · a) (Action.Repeats (Machine.holds · (some e)) (Exec · [round])) m m' x := by
  generalize hss : a ++ [Stmt.while e round] = ss at h
  induction h generalizing a with
  | done => cases a <;> cases hss
  | @goes m m₁ m' s ss e' v x he hv h ih =>
    cases a with
    | nil =>
      cases hss
      cases he
      rw [Stmt.goOn] at h ih
      refine .inl ⟨m, .done, ?_⟩
      split at h
      · next htrue =>
        -- What follows is the loop with a round in front of it.
        rw [if_pos htrue] at ih
        have htest := Machine.holds_ok.2 ⟨v, hv, htrue⟩
        obtain ⟨m₂, hround, hrest⟩ | ⟨y, rfl, hround⟩ := ih (a := [round]) rfl
        · exact .again htest hround hrest
        · exact .roundFails htest hround
      · next hfalse =>
        cases h
        exact .ends (Machine.holds_ok.2 ⟨v, hv, Bool.eq_false_iff.2 hfalse⟩)
    | cons s' a =>
      cases hss
      exact Action.andThen_of (fun ha => .goes he hv ha) (ih (List.append_assoc _ _ _))
  | fails he hy =>
    cases a with
    | nil =>
      cases hss
      cases he
      exact .inl ⟨_, .done, .testFails (Machine.holds_error.2 hy)⟩
    | cons s' a =>
      cases hss
      exact .inr ⟨_, rfl, .fails he hy⟩
  | block hbody _ _ ih =>
    cases a with
    | nil => cases hss
    | cons s' a =>
      cases hss
      exact Action.andThen_of (fun ha => .block hbody ha) (ih rfl)
  | blockFails hbody _ =>
    cases a with
    | nil => cases hss
    | cons s' a =>
      cases hss
      exact .inr ⟨_, rfl, .blockFails hbody⟩

theorem while_iff : Exec m [.while e round] m' x ↔
    Action.Repeats (Machine.holds · (some e)) (Exec · [round]) m m' x := by
  constructor
  · intro h
    obtain ⟨m₁, ha, h⟩ | ⟨y, rfl, ha⟩ := repeats_of_while (a := []) h
    · cases ha
      exact h
    · cases ha
  · intro h
    have hgoes : ∀ {m m₁ m' : Machine} {x : Option RuntimeError} {v : Value},
        m.evaluate e = (m₁, .ok v) → v.truthy →
        Exec m₁ ([round] ++ [.while e round]) m' x → Exec m [.while e round] m' x := by
      intro m m₁ m' x v hv htrue h
      refine .goes rfl hv ?_
      rw [Stmt.goOn, if_pos htrue]
      exact h
    induction h with
    | ends ht =>
      obtain ⟨v, hv, hfalse⟩ := Machine.holds_ok.1 ht
      refine .goes rfl hv ?_
      rw [Stmt.goOn, if_neg (Bool.eq_false_iff.1 hfalse)]
      exact .done
    | testFails ht => exact .fails rfl (Machine.holds_error.1 ht)
    | roundFails ht hr =>
      obtain ⟨v, hv, htrue⟩ := Machine.holds_ok.1 ht
      exact hgoes hv htrue (hr.append_of_error _)
    | again ht hr _ ih =>
      obtain ⟨v, hv, htrue⟩ := Machine.holds_ok.1 ht
      exact hgoes hv htrue (hr.append ih)

end Exec

namespace Clauses

variable {c : Clauses} {m m' : Machine} {x : Option RuntimeError}

/-- With scopes for blocks the body declares nothing outside its own blocks. -/
structure Suits (c : Clauses) (env : Environment) : Prop where
  coherent : env.Coherent
  body : env.mode = .lexical → c.body.here = []

theorem Suits.grows {env env' : Environment} (h : c.Suits env) (hgrows : env.Grows env') :
    c.Suits env' :=
  ⟨hgrows.coherent h.coherent, fun hmode => h.body (hgrows.mode ▸ hmode)⟩

/-- The statement that stands for a round. -/
def roundTree (c : Clauses) : Stmt :=
  match c.step with
  | some e => .block [c.body, .expression e]
  | none => c.body

theorem round_iff (h : c.Suits m.env) : Exec m [c.roundTree] m' x ↔ c.round m m' x := by
  obtain ⟨init, test, step, body⟩ := c
  rw [round, Machine.ends_eq]
  cases step with
  | none =>
    change _ ↔ Action.andThen (Exec · [body]) (.evaluates none) m m' x
    rw [Action.andThen_nothing]
    rfl
  | some e =>
    have hhere : m.env.mode = .lexical → hereIn [body, .expression e] = [] := by
      intro hmode
      have hbody : body.here = [] := h.body hmode
      simp [hereIn, Stmt.here, hbody]
    calc Exec m [.block [body, .expression e]] m' x
      _ ↔ Exec m ([body] ++ [.expression e]) m' x := Exec.block_iff_bare h.coherent hhere
      _ ↔ Action.andThen (Exec · [body]) (Exec · [.expression e]) m m' x := Exec.append_iff
      _ ↔ _ := Action.andThen_congr fun m₁ _ => Exec.expression_iff

theorem rounds_iff (h : c.Suits m.env) :
    Exec m [.while (c.test.getD (.literal (.boolean true))) c.roundTree] m' x ↔
      c.rounds m m' x := by
  have htest : ∀ {m m' : Machine} {r : Except RuntimeError Bool}, c.Suits m.env →
      m.holds c.test = (m', r) → c.Suits m'.env :=
    fun hm ht => hm.grows (Machine.grows_holds ht)
  simp only [Exec.while_iff, Machine.holds_getD, rounds]
  constructor
  · intro hrun
    refine hrun.mono htest (fun hm hr => ?_) h
    exact ⟨(round_iff hm).1 hr, hm.grows (hr.grows hm.coherent)⟩
  · intro hrun
    refine hrun.mono htest (fun hm hr => ?_) h
    have hexec := (round_iff hm).2 hr
    exact ⟨hexec, hm.grows (hexec.grows hm.coherent)⟩

theorem run_iff (h : c.Suits m.env) : Exec m [c.tree] m' x ↔ c.run m m' x := by
  obtain ⟨init, test, step, body⟩ := c
  cases init with
  | none => exact rounds_iff h
  | some s =>
    refine Exec.block_iff.trans (exists_congr fun m₁ => and_congr_left fun _ => ?_)
    rw [Machine.ends_eq]
    refine (Exec.append_iff (a := [s])).trans (Action.andThen_congr fun m₂ hinit => rounds_iff ?_)
    have hpush : Clauses.Suits ⟨some s, test, step, body⟩ m.push.env :=
      ⟨Environment.coherent_push h.coherent, fun hmode => h.body (m.env.mode_push ▸ hmode)⟩
    exact hpush.grows (hinit.grows hpush.coherent)

end Clauses

/-- A statement that starts with `for` is read by itself as it is in any program, and it runs as the
loop with its clauses does: to the same text, the same error if there is one and the same scopes.
With scopes for blocks this is said of bodies that declare nothing outside their own blocks; what
the first clause declares is then not there afterwards. -/
theorem for_runs_as_loop {d : Bool} {w : List Token} {s : Stmt} (h : Grammar.Statement d w s)
    (hfor : w.head?.map Token.kind = some .kwFor) :
    (∀ (e : Token) (recover : Bool), e.kind = .eof → parse (w ++ [e]) recover = ⟨[s], []⟩) ∧
      ∃ c : Clauses, Grammar.Loop d w c ∧ s = c.tree ∧
        (∀ m : Machine, m.env.Coherent → (m.env.mode = .lexical → c.body.here = []) →
          ∀ m' x, m.Ends [s] m' x ↔ c.run m m' x) ∧
        ∀ m : Machine, m.env.Coherent → m.env.mode = .lexical → c.init.isSome →
          ∀ m' x, m.Ends [s] m' x → m'.env.names = m.env.names := by
  obtain ⟨c, hloop, rfl⟩ := h.clauses hfor
  refine ⟨fun e recover he => h.parse he recover, c, hloop, rfl, ?_, ?_⟩
  · intro m hm hbody m' x
    exact Machine.run_iff_exec.trans (Clauses.run_iff ⟨hm, hbody⟩)
  · intro m hm hmode hinit m' x hrun
    obtain ⟨init, test, step, body⟩ := c
    obtain ⟨s, rfl⟩ := Option.isSome_iff_exists.1 hinit
    exact (Machine.run_iff_exec.1 hrun).names_block hm hmode

/-- The tokens of `for (var i = "a"; i; i = null) { var i = i; print i; }`. -/
def shadowingTokens : List Token :=
  let word (k : TokenKind) (s : String) : Token := ⟨k, s, none, 1, ⟨0, 0⟩⟩
  [word .kwFor "for", word .leftParen "(", word .kwVar "var", word .identifier "i",
    word .equal "=", ⟨.string, "\"a\"", some (.text "a"), 1, ⟨0, 0⟩⟩, word .semicolon ";",
    word .identifier "i", word .semicolon ";", word .identifier "i", word .equal "=",
    word .kwNull "null", word .rightParen ")", word .leftBrace "\x7b", word .kwVar "var",
    word .identifier "i", word .equal "=", word .identifier "i", word .semicolon ";",
    word .kwPrint "print", word .identifier "i", word .semicolon ";", word .rightBrace "\x7d"]

/-- The statement that they are read as. -/
def shadowing : Stmt :=
  .block [.declare ⟨"i", 1⟩ (.literal (.text "a")),
    .while (.var ⟨"i", 1⟩) (.block [
      .block [.declare ⟨"i", 1⟩ (.var ⟨"i", 1⟩), .print (.var ⟨"i", 1⟩)],
      .expression (.assign ⟨"i", 1⟩ (.literal .null))])]

/-- Each round has a variable of the same name as the loop, and so has what is around it, where the
variable keeps its value. -/
theorem shadowing_runs_as_loop :
    let m : Machine := ⟨⟨.lexical, [], [("i", .boolean true)]⟩, .buffer ""⟩
    m.env.Coherent ∧ ∃ d c, Grammar.Statement d shadowingTokens shadowing ∧
      Grammar.Loop d shadowingTokens c ∧ c.body.here = [] ∧
        c.run m { m with sink := .buffer "a\n" } none := by
  intro m
  have hw : ∀ t ∈ shadowingTokens, t.kind ≠ .eof := by decide
  have hl : ∀ t ∈ shadowingTokens, Grammar.Carried t := by
    unfold Grammar.Carried
    decide
  have hprogram := (Grammar.parse_iff (e := .eof 1 0) rfl hw hl false [shadowing]).1 rfl
  obtain ⟨d, hs⟩ := hprogram.single
  obtain ⟨-, c, hloop, htree, hruns, -⟩ := for_runs_as_loop hs rfl
  have hbody : c.body.here = [] := by
    obtain ⟨_ | init, test, _ | step, body⟩ := c
    all_goals simp [shadowing, Clauses.tree, Stmt.counting] at htree
    · rw [← htree.2.2]
      rfl
    · rw [← htree.2.2.1]
      rfl
  have hm : m.env.Coherent := by
    rintro ⟨⟩
  have hrun : m.Ends [shadowing] { m with sink := .buffer "a\n" } none := ⟨1, by cbv⟩
  exact ⟨hm, d, c, hs, hloop, hbody, (hruns m hm (fun _ => hbody) _ _).1 hrun⟩

end TinyScript
