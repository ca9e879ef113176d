import TinyScript.Proofs.Bindings
import TinyScript.Proofs.Execution
import TinyScript.Proofs.Lines

/-!
What a run does not depend on: lines only turn up in its error, and what has been printed before
stays in front of what it prints.
-/

namespace TinyScript

/-- The error, if its statement stands on another line. -/
def RuntimeError.onLine (f : Nat → Nat) (x : RuntimeError) : RuntimeError := ⟨x.fault, f x.line⟩

theorem mapError_ok {α ε ε' : Type} (f : ε → ε') (v : α) :
    (Except.ok v : Except ε α).mapError f = .ok v := rfl

theorem Expr.eval_mapLines [Binary64.NaNChoice] (f : Nat → Nat) (e : Expr) (env : Environment) :
    (e.mapLines f).eval env = ((e.eval env).1, (e.eval env).2.mapError (.onLine f)) := by
  induction e generalizing env with
  | literal v => rfl
  | group e ih => exact ih env
  | unary op line e ih =>
    rw [mapLines, eval, ih, eval]
    rcases e.eval env with ⟨env', _ | v⟩
    · rfl
    · simp only [mapError_ok, Evaluated.ofOperation_eq]
      cases op.apply v <;> rfl
  | binary op line l r ihl ihr =>
    rw [mapLines, eval, ihl, eval]
    rcases l.eval env with ⟨env', _ | a⟩
    · rfl
    · simp only [mapError_ok, ihr]
      rcases r.eval env' with ⟨env'', _ | b⟩
      · rfl
      · simp only [mapError_ok, Evaluated.ofOperation_eq]
        cases op.apply a b <;> rfl
  | logical op l r ihl ihr =>
    rw [mapLines, eval, ihl, eval]
    rcases l.eval env with ⟨env', _ | a⟩
    · rfl
    · simp only [mapError_ok, ihr]
      split <;> rfl
  | assign x e ih =>
    rw [mapLines, eval, ih, eval]
    rcases e.eval env with ⟨env', _ | v⟩
    · rfl
    · simp only [mapError_ok, Environment.store, Ident.mapLines]
      split <;> rfl
  | var x =>
    simp only [mapLines, eval, Environment.read, Ident.mapLines]
    split <;> rfl

theorem Machine.evaluate_mapLines [Binary64.NaNChoice] (f : Nat → Nat) (m : Machine) (e : Expr) :
    m.evaluate (e.mapLines f) = ((m.evaluate e).1, (m.evaluate e).2.mapError (.onLine f)) := by
  rw [evaluate_eq, evaluate_eq, Expr.eval_mapLines]

theorem Stmt.head?_mapLines (f : Nat → Nat) (s : Stmt) :
    (s.mapLines f).head? = s.head?.map (Expr.mapLines f) := by
  cases s <;> rfl

theorem Stmt.goOn_mapLines (f : Nat → Nat) (m : Machine) (v : Value) (s : Stmt) :
    (s.mapLines f).goOn m v = ((s.goOn m v).1, mapLinesIn f (s.goOn m v).2) := by
  cases s with
  | ifThen test yes | ifElse test yes no | «while» test body =>
    simp only [mapLines, goOn]
    split <;> rfl
  | _ => rfl

namespace Exec

variable [Binary64.NaNChoice] {m m' : Machine} {ss : List Stmt} {x : Option RuntimeError}

theorem mapLines (f : Nat → Nat) (h : Exec m ss m' x) :
    Exec m (mapLinesIn f ss) m' (x.map (.onLine f)) := by
  induction h with
  | done => exact .done
  | @goes m m₁ m' s ss e v x he hv _ ih =>
    have he' : (s.mapLines f).head? = some (e.mapLines f) := by
      rw [Stmt.head?_mapLines, he]
      rfl
    have hv' : m.evaluate (e.mapLines f) = (m₁, .ok v) := by
      rw [Machine.evaluate_mapLines, hv]
      rfl
    rw [mapLinesIn_append] at ih
    refine .goes he' hv' ?_
    rw [Stmt.goOn_mapLines]
    exact ih
  | @fails m m' s ss e y he hy =>
    have he' : (s.mapLines f).head? = some (e.mapLines f) := by
      rw [Stmt.head?_mapLines, he]
      rfl
    refine .fails he' ?_
    rw [Machine.evaluate_mapLines, hy]
    rfl
  | block _ _ ihbody ih => exact .block ihbody ih
  | blockFails _ ihbody => exact .blockFails ihbody

/-- Nothing is lost if the lines can be mapped back. -/
theorem mapLines_iff {f g : Nat → Nat} (hgf : ∀ n, g (f n) = n) :
    Exec m (mapLinesIn f ss) m' x ↔ ∃ y, Exec m ss m' y ∧ x = y.map (.onLine f) := by
  constructor
  · intro h
    have hback := h.mapLines g
    rw [mapLinesIn_cancel hgf] at hback
    exact ⟨_, hback, (h.deterministic (hback.mapLines f)).2⟩
  · rintro ⟨y, h, rfl⟩
    exact h.mapLines f

end Exec

namespace Sink

/-- Prints a text as it is. -/
def write (text : String) : Sink → Sink
  | buffer t => buffer (t ++ text)
  | silent => silent

theorem write_empty (sink : Sink) : sink.write "" = sink := by
  cases sink with
  | buffer t => rw [write, String.append_empty]
  | silent => rfl

theorem write_write (sink : Sink) (s t : String) :
    (sink.write s).write t = sink.write (s ++ t) := by
  cases sink with
  | buffer u => rw [write, write, write, String.append_assoc]
  | silent => rfl

theorem printLine_eq (sink : Sink) (line : String) :
    sink.printLine line = sink.write (line.push '\n') := by
  cases sink with
  | buffer t =>
    rw [printLine, write, String.push_eq_append, String.push_eq_append, String.append_assoc]
  | silent => rfl

end Sink

theorem Stmt.goOn_sink (s : Stmt) (env : Environment) (v : Value) :
    ∃ (env' : Environment) (next : List Stmt) (text : String),
      ∀ sink, s.goOn ⟨env, sink⟩ v = (⟨env', sink.write text⟩, next) := by
  cases s with
  | print e => exact ⟨env, [], v.display.push '\n', fun sink => by rw [goOn, Sink.printLine_eq]⟩
  | declare x e =>
    exact ⟨env.define x.name v, [], "", fun sink => by rw [goOn, Sink.write_empty]⟩
  | _ => exact ⟨env, _, "", fun sink => by rw [goOn, Sink.write_empty]⟩

/-- A run prints the same text whatever the sink, behind all that has been printed before. -/
theorem Exec.prints [Binary64.NaNChoice] {m m' : Machine} {ss : List Stmt}
    {x : Option RuntimeError} (h : Exec m ss m' x) : ∃ text, m'.sink = m.sink.write text ∧
      ∀ sink, Exec ⟨m.env, sink⟩ ss ⟨m'.env, sink.write text⟩ x := by
  have hevaluate : ∀ {m m₁ : Machine} {e : Expr} {r : Except RuntimeError Value},
      m.evaluate e = (m₁, r) → m₁.sink = m.sink ∧
        ∀ sink, Machine.evaluate ⟨m.env, sink⟩ e = (⟨m₁.env, sink⟩, r) := by
    rintro m m₁ e r h
    cases h
    exact ⟨rfl, fun sink => rfl⟩
  induction h with
  | done => exact ⟨"", (Sink.write_empty _).symm, fun sink => sink.write_empty.symm ▸ .done⟩
  | @goes m m₁ m' s ss e v x he hv _ ih =>
    obtain ⟨hsink, hv'⟩ := hevaluate hv
    obtain ⟨env', next, shown, hgo⟩ := s.goOn_sink m₁.env v
    obtain ⟨text, htext, hrun⟩ := ih
    rw [hgo m₁.sink] at htext hrun
    refine ⟨shown ++ text, ?_, fun sink => .goes he (hv' sink) ?_⟩
    · rw [htext, Sink.write_write, hsink]
    · rw [hgo, ← Sink.write_write]
      exact hrun (sink.write shown)
  | @fails m m' s ss e y he hy =>
    obtain ⟨hsink, hy'⟩ := hevaluate hy
    refine ⟨"", hsink.trans (Sink.write_empty _).symm, fun sink => ?_⟩
    rw [Sink.write_empty]
    exact .fails he (hy' sink)
  | @block m m₁ m' body ss x _ _ ihbody ih =>
    obtain ⟨inside, hinside, hbody⟩ := ihbody
    obtain ⟨text, htext, hrun⟩ := ih
    refine ⟨inside ++ text, ?_, fun sink => .block (hbody sink) ?_⟩
    · rw [htext, ← Sink.write_write]
      exact congrArg _ hinside
    · rw [← Sink.write_write]
      exact hrun (sink.write inside)
  | @blockFails m m₁ body ss y _ ihbody =>
    obtain ⟨inside, hinside, hbody⟩ := ihbody
    have hfails : ∀ sink, Exec ⟨m.env, sink⟩ (.block body :: ss)
        (Machine.pop ⟨m₁.env, sink.write inside⟩) (some y) := fun sink => .blockFails (hbody sink)
    exact ⟨inside, hinside, hfails⟩

/-- With enough rounds the machine runs the program to that end. -/
def Machine.Ends [Binary64.NaNChoice] (m : Machine) (program : List Stmt) (m' : Machine)
    (x : Option RuntimeError) : Prop := ∃ rounds, Machine.run rounds m program = some (m', x)

end TinyScript
