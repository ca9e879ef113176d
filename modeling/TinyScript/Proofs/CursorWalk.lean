import TinyScript.Proofs.Attempts
import TinyScript.Token.Cursor

/-!
Reading a program with a cursor, one move at a time: take a token, complete a statement, give one
up, skip a token. A move that takes no token is followed by one that does, unless reading is over,
and the cursor does not move on from the first end. So reading is over after a number of moves that
the tokens in front of the first end set, and has then found what a parse finds.
-/

namespace TinyScript

namespace TokenCursor

/-- In front of the cursor are some tokens, then the end `e` with the index `last`, then `v`. -/
structure Faces (c : TokenCursor) (left : List Token) (e : Token) (v : List Token) (last : Nat) :
    Prop where
  rest : c.tokens.drop c.position = left ++ e :: v
  last : c.position + left.length = last
  plain : ∀ t ∈ left, t.kind ≠ .eof
  eof : e.kind = .eof

namespace Faces

variable {c : TokenCursor} {t e : Token} {left v : List Token} {last : Nat}

theorem current (h : c.Faces left e v last) : c.current = left.headD e := by
  have hhead := congrArg List.head? h.rest
  rw [List.head?_drop] at hhead
  rw [TokenCursor.current, hhead]
  cases left <;> rfl

/-- The current token is the first of those to come. -/
theorem exists_tail (h : c.Faces left e v last) : ∃ ts, left ++ e :: v = c.current :: ts := by
  rw [h.current]
  cases left with
  | nil => exact ⟨v, rfl⟩
  | cons t left => exact ⟨left ++ e :: v, rfl⟩

theorem exists_cons (h : c.Faces left e v last) (hc : c.current.kind ≠ .eof) :
    ∃ ts, left = c.current :: ts := by
  rw [h.current] at hc ⊢
  cases left with
  | nil => exact absurd h.eof hc
  | cons t left => exact ⟨left, rfl⟩

theorem atEnd_iff (h : c.Faces left e v last) : c.atEnd = true ↔ left = [] := by
  rw [atEnd, h.current, beq_iff_eq]
  cases left with
  | nil => simp [h.eof]
  | cons t left => simp [h.plain]

theorem position_advance (h : c.Faces (t :: left) e v last) :
    c.advance = { c with position := c.position + 1 } := by
  rw [TokenCursor.advance, if_neg]
  rw [h.atEnd_iff]
  exact List.cons_ne_nil _ _

theorem advance (h : c.Faces (t :: left) e v last) : c.advance.Faces left e v last := by
  rw [h.position_advance]
  refine ⟨?_, ?_, (List.forall_mem_cons.1 h.plain).2, h.eof⟩
  · rw [← List.drop_drop, h.rest]
    rfl
  · have hlast := h.last
    rw [List.length_cons] at hlast
    exact (Nat.add_right_comm _ 1 _).trans hlast

theorem position_le (h : c.Faces left e v last) : c.position ≤ last :=
  h.last ▸ Nat.le_add_right _ _

end Faces

end TokenCursor

inductive Activity where
  /-- At a place where a statement of the program may start. -/
  | between
  /-- In a statement that has been begun at an index. -/
  | reading (start : Nat) (stage : Stage)
  /-- Behind an error. -/
  | skipping
  | stopped

/-- Statements and errors are kept with the last one first. -/
structure Walker where
  cursor : TokenCursor
  activity : Activity
  statements : List Stmt
  errors : List SyntaxError

namespace Walker

def start (tokens : List Token) : Walker := ⟨.ofList tokens, .between, [], []⟩

/-- The statement begun at an index is given up. If nothing has been taken for it, a token is taken
now; a semicolon is the end of the statement then. -/
def giveUp (recover : Bool) (w : Walker) (start : Nat) (fault : SyntaxFault) : Walker :=
  let cursor := if fault.tookToken then w.cursor.advance else w.cursor
  let errors := ⟨fault, w.cursor.current⟩ :: w.errors
  if !recover then ⟨cursor, .stopped, w.statements, errors⟩
  else if cursor.position = start then
    ⟨cursor.advance, if cursor.check .semicolon then .between else .skipping, w.statements, errors⟩
  else ⟨cursor, .skipping, w.statements, errors⟩

def read (recover : Bool) (w : Walker) (start : Nat) (stage : Stage) : Walker :=
  match stage.judge w.cursor.current with
  | .taken next => { w with cursor := w.cursor.advance, activity := .reading start next }
  | .behind s => { w with activity := .between, statements := s :: w.statements }
  | .wrong fault => w.giveUp recover start fault

def skip (w : Walker) : Walker :=
  if w.cursor.atEnd then { w with activity := .between }
  else if w.cursor.check .semicolon then
    { w with cursor := w.cursor.advance, activity := .between }
  else if TokenSet.statementStart.contains w.cursor.current.kind then
    { w with activity := .between }
  else { w with cursor := w.cursor.advance }

/-- One move, unless reading is over. -/
def next? (recover : Bool) (w : Walker) : Option Walker :=
  match w.activity with
  | .between =>
    if w.cursor.atEnd then none else some (w.read recover w.cursor.position .start)
  | .reading start stage => some (w.read recover start stage)
  | .skipping => some w.skip
  | .stopped => none

/-- The given number of moves, or all up to the last. -/
def run (recover : Bool) : Nat → Walker → Walker
  | 0, w => w
  | n + 1, w =>
    match w.next? recover with
    | none => w
    | some w' => run recover n w'

def parsed (w : Walker) : Parsed := ⟨w.statements.reverse, w.errors.reverse⟩

/-- What a parse finds that goes on from here. -/
def outcome (recover : Bool) (w : Walker) : Parsed :=
  let goOn (stage : Option Stage) : Parsed :=
    (Reading.run recover ⟨stage, w.statements, w.errors⟩
      (w.cursor.tokens.drop w.cursor.position)).parsed
  match w.activity with
  | .between => goOn (some .start)
  | .reading _ stage => goOn (some stage)
  | .skipping => goOn none
  | .stopped => w.parsed

end Walker

namespace Activity

/-- The moves that may follow, up to one that takes a token. -/
def rank : Activity → Nat
  | stopped => 0
  | between => 1
  | skipping => 2
  -- The statement goes wrong, skipping ends in front of a statement, and that one is begun.
  | reading _ _ => 3

end Activity

namespace Reading

variable {recover : Bool} {stage : Stage} {t : Token} {out : List Stmt} {errors : List SyntaxError}

theorem run_taken {next : Stage} (h : stage.judge t = .taken next)
    (hgo : recover = false → errors = []) (ts : List Token) :
    run recover ⟨some stage, out, errors⟩ (t :: ts) = run recover ⟨some next, out, errors⟩ ts := by
  have ht : t.kind ≠ .eof := fun ht => Stage.judge_eof ht stage next h
  have hmore : (recover || errors.isEmpty) = true := by
    cases recover with
    | false => rw [hgo rfl]; rfl
    | true => rfl
  rw [run, if_neg ht, feed_eq rfl, h]
  exact if_pos hmore

theorem run_behind {s : Stmt} (h : stage.judge t = .behind s) (ts : List Token) :
    (run recover ⟨some stage, out, errors⟩ (t :: ts)).parsed =
      (run recover ⟨some .start, s :: out, errors⟩ (t :: ts)).parsed := by
  by_cases ht : t.kind = .eof
  · have hend := resumed_behind out errors h ts
    rw [resumed_eof _ _ ht, resumed_eof _ _ ht] at hend
    rw [run_eof ht, run_eof ht, hend]
  · have hfeed : feed ⟨some stage, out, errors⟩ t = feed ⟨some .start, s :: out, errors⟩ t := by
      rw [feed_eq rfl, h]
      exact (proceed_stage ⟨some stage, s :: out, errors⟩ (some .start) t
        (Stage.statement [] t)).symm
    rw [run, run, if_neg ht, if_neg ht, hfeed]

/-- Without recovery an error is the last thing that is found. -/
theorem run_wrong {fault : SyntaxFault} (hstart : t.kind = .eof → stage ≠ .start)
    (h : stage.judge t = .wrong fault) (ts : List Token) :
    (run false ⟨some stage, out, errors⟩ (t :: ts)).parsed =
      ⟨out.reverse, (⟨fault, t⟩ :: errors).reverse⟩ := by
  by_cases ht : t.kind = .eof
  · obtain ⟨hstatements, herrors⟩ :=
      errors_finish_wrong (r := ⟨some stage, out, errors⟩) rfl (hstart ht) h
    rw [run_eof ht, parsed, hstatements, herrors]
  · rw [run_cons ht, feed_eq rfl, h]
    rfl

theorem run_end {e : Token} (he : e.kind = .eof) (ts : List Token) :
    (run recover ⟨some .start, out, errors⟩ (e :: ts)).parsed = ⟨out.reverse, errors.reverse⟩ := by
  rw [run_eof he]
  rfl

end Reading

namespace Walker

/-- The walker has the first end in front of it. It does not begin a statement twice, and without
recovery it goes on only as long as there is no error. -/
structure Sound (recover : Bool) (e : Token) (v : List Token) (last : Nat) (left : List Token)
    (w : Walker) : Prop where
  faces : w.cursor.Faces left e v last
  begun : ∀ start stage, w.activity = .reading start stage →
    stage ≠ .start ∧ start < w.cursor.position
  clean : recover = false → w.activity ≠ .stopped → w.errors = [] ∧ w.activity ≠ .skipping

def weight (left : List Token) (w : Walker) : Nat := 3 * left.length + w.activity.rank

section Steps

variable {recover : Bool} {e : Token} {left v : List Token} {last n start : Nat} {w : Walker}
  {stage : Stage} {fault : SyntaxFault} {out : Parsed}

/-- The walker is on the way to the outcome, with less than `n` moves to go. -/
def OnWay (recover : Bool) (e : Token) (v : List Token) (last n : Nat) (out : Parsed)
    (w : Walker) : Prop :=
  ∃ left, Sound recover e v last left w ∧ weight left w < n ∧ w.outcome recover = out

section Arrivals

variable {c : TokenCursor} {ss : List Stmt} {es : List SyntaxError}

theorem onWay_between (hfaces : c.Faces left e v last) (hclean : recover = false → es = [])
    (hn : 3 * left.length + 1 < n) :
    OnWay recover e v last n
      (Reading.run recover ⟨some .start, ss, es⟩ (left ++ e :: v)).parsed ⟨c, .between, ss, es⟩ :=
  ⟨left, ⟨hfaces, nofun, fun hrecover _ => ⟨hclean hrecover, nofun⟩⟩, hn,
    by rw [outcome, hfaces.rest]⟩

theorem onWay_reading (hfaces : c.Faces left e v last) (hclean : recover = false → es = [])
    (hstage : stage ≠ .start) (hstart : start < c.position) (hn : 3 * left.length + 3 < n) :
    OnWay recover e v last n (Reading.run recover ⟨some stage, ss, es⟩ (left ++ e :: v)).parsed
      ⟨c, .reading start stage, ss, es⟩ := by
  refine ⟨left, ⟨hfaces, ?_, fun hrecover _ => ⟨hclean hrecover, nofun⟩⟩, hn, ?_⟩
  · rintro _ _ ⟨⟩
    exact ⟨hstage, hstart⟩
  · rw [outcome, hfaces.rest]

theorem onWay_skipping (hfaces : c.Faces left e v last) (hn : 3 * left.length + 2 < n) :
    OnWay true e v last n (Reading.resumed none ss es (left ++ e :: v)) ⟨c, .skipping, ss, es⟩ :=
  ⟨left, ⟨hfaces, nofun, nofun⟩, hn, by rw [outcome, hfaces.rest, Reading.resumed]⟩

theorem onWay_stopped (hfaces : c.Faces left e v last) (hn : 3 * left.length < n) :
    OnWay recover e v last n ⟨ss.reverse, es.reverse⟩ ⟨c, .stopped, ss, es⟩ :=
  ⟨left, ⟨hfaces, nofun, fun _ hgo => absurd rfl hgo⟩, hn, rfl⟩

theorem onWay_skip (hfaces : c.Faces left e v last) (hn : 3 * left.length + 2 = n) :
    OnWay true e v last n (Reading.resumed none ss es (left ++ e :: v))
      (skip ⟨c, .skipping, ss, es⟩) := by
  have hbetween : synchronize (left ++ e :: v) = 0 → OnWay true e v last n
      (Reading.resumed none ss es (left ++ e :: v)) ⟨c, .between, ss, es⟩ := by
    intro hzero
    rw [Reading.resumed_skip, hzero]
    exact onWay_between hfaces nofun (by omega)
  cases left with
  | nil =>
    rw [skip, if_pos (hfaces.atEnd_iff.2 rfl)]
    exact hbetween (if_pos hfaces.eof)
  | cons t ts =>
    have ht : t.kind ≠ .eof := hfaces.plain t List.mem_cons_self
    have hcurrent : c.current = t := hfaces.current
    rw [List.length_cons] at hn
    rw [skip, if_neg (fun hend => List.cons_ne_nil _ _ (hfaces.atEnd_iff.1 hend))]
    simp only [TokenCursor.check, hcurrent, beq_iff_eq]
    split
    · next hsemicolon =>
      have hone : synchronize (t :: ts ++ e :: v) = 1 := by
        rw [List.cons_append, synchronize, if_neg ht, if_pos hsemicolon]
      rw [Reading.resumed_skip, hone]
      exact onWay_between hfaces.advance nofun (by omega)
    · next hsemicolon =>
      split
      · next hstarter =>
        refine hbetween ?_
        rw [List.cons_append, synchronize, if_neg ht, if_neg hsemicolon, if_pos hstarter]
      · next hstarter =>
        rw [List.cons_append, Reading.resumed_skip,
          synchronize_other ht hsemicolon hstarter, List.drop_succ_cons, ← Reading.resumed_skip]
        exact onWay_skipping hfaces.advance (by omega)

/-- The first token of a statement is wrong: it is taken, so that reading does not stay there. -/
theorem onWay_stepOver {t : Token} {ts : List Token} (hfaces : c.Faces (t :: ts) e v last)
    (hjudge : Stage.start.judge t = .wrong fault) (hn : 3 * ts.length + 3 ≤ n) :
    OnWay true e v last n (Reading.resumed none ss es (t :: ts ++ e :: v))
      ⟨c.advance, if c.check .semicolon then .between else .skipping, ss, es⟩ := by
  have hcurrent : c.current = t := hfaces.current
  have hstarter : ¬TokenSet.statementStart.contains t.kind = true :=
    fun hstarter => Stage.judge_starter hstarter fault hjudge
  rw [List.cons_append, Reading.resumed_cons _ _ (hfaces.plain t List.mem_cons_self)]
  change OnWay _ _ _ _ _ (Reading.run true ⟨Reading.resume t, ss, es⟩ _).parsed _
  simp only [TokenCursor.check, hcurrent, beq_iff_eq, Reading.resume, if_neg hstarter]
  split
  · exact onWay_between hfaces.advance (fun h => absurd h.symm Bool.false_ne_true) (by omega)
  · exact onWay_skipping hfaces.advance (by omega)

end Arrivals

/-- The walker is about to judge its current token, in a stage of the statement begun at `start`.
With nothing taken yet a token of the program has to come, for only that makes up for the move. -/
structure Poised (recover : Bool) (e : Token) (v : List Token) (last n start : Nat) (stage : Stage)
    (left : List Token) (w : Walker) : Prop where
  faces : w.cursor.Faces left e v last
  clean : recover = false → w.errors = []
  cost : 3 * left.length < n
  first : stage = .start → start = w.cursor.position ∧ left ≠ []
  later : stage ≠ .start → start < w.cursor.position ∧ 3 * left.length + 2 < n

namespace Poised

theorem ne_start (h : Poised recover e v last n start stage left w)
    (heof : w.cursor.current.kind = .eof) : stage ≠ .start := by
  intro hstage
  obtain ⟨t, ts, rfl⟩ := List.exists_cons_of_ne_nil (h.first hstage).2
  rw [h.faces.current] at heof
  exact h.faces.plain t List.mem_cons_self heof

theorem start_le (h : Poised recover e v last n start stage left w) : start ≤ w.cursor.position := by
  by_cases hstage : stage = .start
  · exact Nat.le_of_eq (h.first hstage).1
  · exact Nat.le_of_lt (h.later hstage).1

/-- What is taken before it turns out to be wrong is not the end. -/
theorem exists_cons (h : Poised recover e v last n start stage left w)
    (hjudge : stage.judge w.cursor.current = .wrong fault) (htook : fault.tookToken = true) :
    ∃ ts, left = w.cursor.current :: ts := by
  refine h.faces.exists_cons ?_
  rw [Stage.kind_of_tookToken hjudge htook]
  decide

theorem taken {next : Stage} (h : Poised recover e v last n start stage left w)
    (hjudge : stage.judge w.cursor.current = .taken next) :
    OnWay recover e v last n
      (Reading.run recover ⟨some stage, w.statements, w.errors⟩ (left ++ e :: v)).parsed
      { w with cursor := w.cursor.advance, activity := .reading start next } := by
  obtain ⟨ts, hleft⟩ := h.faces.exists_cons fun heof => Stage.judge_eof heof _ _ hjudge
  have hcost := h.cost
  have hfaces := h.faces
  rw [hleft] at hfaces
  have hposition : start < w.cursor.advance.position := by
    rw [hfaces.position_advance]
    exact Nat.lt_succ_of_le h.start_le
  rw [hleft, List.length_cons] at hcost
  rw [hleft, List.cons_append, Reading.run_taken hjudge h.clean]
  exact onWay_reading hfaces.advance h.clean (Stage.ne_start_of_judge hjudge) hposition (by omega)

theorem behind {s : Stmt} (h : Poised recover e v last n start stage left w)
    (hjudge : stage.judge w.cursor.current = .behind s) :
    OnWay recover e v last n
      (Reading.run recover ⟨some stage, w.statements, w.errors⟩ (left ++ e :: v)).parsed
      { w with activity := .between, statements := s :: w.statements } := by
  have hstage : stage ≠ .start := by
    rintro rfl
    exact Stage.judge_start_ne_behind _ _ hjudge
  have hcost := (h.later hstage).2
  obtain ⟨ts, hts⟩ := h.faces.exists_tail
  rw [hts, Reading.run_behind hjudge, ← hts]
  exact onWay_between h.faces h.clean (by omega)

theorem stops (h : Poised false e v last n start stage left w)
    (hjudge : stage.judge w.cursor.current = .wrong fault) :
    OnWay false e v last n
      (Reading.run false ⟨some stage, w.statements, w.errors⟩ (left ++ e :: v)).parsed
      (w.giveUp false start fault) := by
  obtain ⟨ts, hts⟩ := h.faces.exists_tail
  rw [hts, Reading.run_wrong h.ne_start hjudge, giveUp]
  cases htook : fault.tookToken with
  | true =>
    obtain ⟨ts, hleft⟩ := h.exists_cons hjudge htook
    have hcost := h.cost
    have hfaces := h.faces
    rw [hleft] at hfaces
    rw [hleft, List.length_cons] at hcost
    exact onWay_stopped hfaces.advance (by omega)
  | false => exact onWay_stopped h.faces h.cost

/-- With recovery tokens are skipped then, beginning with the wrong one unless it has been taken. -/
theorem goesOn (h : Poised true e v last n start stage left w)
    (hjudge : stage.judge w.cursor.current = .wrong fault) :
    OnWay true e v last n
      (Reading.resumed (some stage) w.statements w.errors (left ++ e :: v))
      (w.giveUp true start fault) := by
  obtain ⟨ts, hts⟩ := h.faces.exists_tail
  rw [hts, Reading.resumed_wrong _ _ h.ne_start hjudge, giveUp]
  cases htook : fault.tookToken with
  | true =>
    obtain ⟨left, rfl⟩ := h.exists_cons hjudge htook
    cases hts
    have hcost := h.cost
    have hmoved : w.cursor.advance.position ≠ start := by
      rw [h.faces.position_advance]
      exact Nat.ne_of_gt (Nat.lt_succ_of_le h.start_le)
    rw [List.length_cons] at hcost
    simp only [if_true, Bool.not_true, Bool.false_eq_true, if_false, if_neg hmoved]
    exact onWay_skipping h.faces.advance (by omega)
  | false =>
    simp only [Bool.not_true, Bool.false_eq_true, if_false]
    rw [← hts]
    by_cases hstage : stage = .start
    · obtain ⟨rfl, hne⟩ := h.first hstage
      obtain ⟨t, left, rfl⟩ := List.exists_cons_of_ne_nil hne
      have hcost := h.cost
      rw [List.length_cons] at hcost
      rw [hstage, h.faces.current] at hjudge
      rw [if_pos rfl]
      exact onWay_stepOver h.faces hjudge (by omega)
    · obtain ⟨hlt, hcost⟩ := h.later hstage
      rw [if_neg (Nat.ne_of_gt hlt)]
      exact onWay_skipping h.faces hcost

theorem read (h : Poised recover e v last n start stage left w) :
    OnWay recover e v last n
      (Reading.run recover ⟨some stage, w.statements, w.errors⟩ (left ++ e :: v)).parsed
      (w.read recover start stage) := by
  rw [Walker.read]
  split
  · next hjudge => exact h.taken hjudge
  · next hjudge => exact h.behind hjudge
  · next hjudge =>
    cases recover with
    | false => exact h.stops hjudge
    | true => exact h.goesOn hjudge

end Poised

/-- One move: either reading is over and the outcome is there, or there is less to do for it. -/
theorem next_onWay (h : Sound recover e v last left w) :
    w.next? recover = none ∧ w.parsed = w.outcome recover ∨
      ∃ w', w.next? recover = some w' ∧
        OnWay recover e v last (weight left w) (w.outcome recover) w' := by
  obtain ⟨c, activity, ss, es⟩ := w
  have hfaces : c.Faces left e v last := h.faces
  simp only [outcome, weight, next?, hfaces.rest]
  cases activity with
  | between =>
    dsimp only
    split
    · next hend =>
      obtain rfl := hfaces.atEnd_iff.1 hend
      exact .inl ⟨rfl, (Reading.run_end hfaces.eof v).symm⟩
    · next hend =>
      have hpoised : Poised recover e v last (3 * left.length + 1) c.position .start left
          ⟨c, .between, ss, es⟩ :=
        ⟨hfaces, fun hrecover => (h.clean hrecover nofun).1, Nat.lt_succ_self _,
          fun _ => ⟨rfl, fun hleft => hend (hfaces.atEnd_iff.2 hleft)⟩,
          fun hstage => absurd rfl hstage⟩
      exact .inr ⟨_, rfl, hpoised.read⟩
  | reading start stage =>
    obtain ⟨hstage, hlt⟩ := h.begun start stage rfl
    have hpoised : Poised recover e v last (3 * left.length + 3) start stage left
        ⟨c, .reading start stage, ss, es⟩ :=
      ⟨hfaces, fun hrecover => (h.clean hrecover nofun).1, by omega,
        fun hstart => absurd hstart hstage, fun _ => ⟨hlt, Nat.lt_succ_self _⟩⟩
    exact .inr ⟨_, rfl, hpoised.read⟩
  | skipping =>
    cases recover with
    | false => exact absurd rfl (h.clean rfl nofun).2
    | true => exact .inr ⟨_, rfl, onWay_skip hfaces rfl⟩
  | stopped => exact .inl ⟨rfl, rfl⟩

/-- Any number of moves: the walker stays in front of the first end and keeps to the outcome, and
each move leaves less to do. -/
theorem run_sound (moves : Nat) (h : Sound recover e v last left w) :
    ∃ left', Sound recover e v last left' (w.run recover moves) ∧
      (w.run recover moves).outcome recover = w.outcome recover ∧
      ((w.run recover moves).next? recover = none ∨
        weight left' (w.run recover moves) + moves ≤ weight left w) := by
  induction moves generalizing left w with
  | zero => exact ⟨left, h, rfl, .inr (Nat.le_refl _)⟩
  | succ moves ih =>
    obtain ⟨hover, -⟩ | ⟨w', hnext, left', h', hless, hout⟩ := next_onWay h
    · have hrun : w.run recover (moves + 1) = w := by
        rw [run, hover]
      rw [hrun]
      exact ⟨left, h, rfl, .inl hover⟩
    · have hrun : w.run recover (moves + 1) = w'.run recover moves := by
        rw [run, hnext]
      rw [hrun, ← hout]
      obtain ⟨left'', hsound, hkept, hend⟩ := ih h'
      exact ⟨left'', hsound, hkept, hend.imp_right fun hle => by omega⟩

end Steps

theorem sound_start {u : List Token} {e : Token} (hu : ∀ t ∈ u, t.kind ≠ .eof)
    (he : e.kind = .eof) (v : List Token) (recover : Bool) :
    Sound recover e v u.length u (start (u ++ e :: v)) :=
  ⟨⟨rfl, Nat.zero_add _, hu, he⟩, nofun, fun _ _ => ⟨rfl, nofun⟩⟩

end Walker

/-- The first end among the tokens, and where it is. -/
theorem exists_first_end {tokens : List Token} (h : ∃ t ∈ tokens, t.kind = .eof) :
    ∃ u e v, tokens = u ++ e :: v ∧ (∀ t ∈ u, t.kind ≠ .eof) ∧ e.kind = .eof ∧
      tokens.findIdx (·.kind == .eof) = u.length := by
  induction tokens with
  | nil => simp at h
  | cons t ts ih =>
    by_cases ht : t.kind = .eof
    · exact ⟨[], t, ts, rfl, nofun, ht, by simp [List.findIdx_cons, ht]⟩
    · obtain ⟨u, e, v, rfl, hu, he, hindex⟩ := ih (by simpa [ht] using h)
      refine ⟨t :: u, e, v, rfl, List.forall_mem_cons.2 ⟨ht, hu⟩, he, ?_⟩
      have hne : (t.kind == .eof) = false := beq_false_of_ne ht
      rw [List.findIdx_cons, hne, hindex]
      rfl

theorem Reading.run_append_eof {u : List Token} {e : Token} (hu : ∀ t ∈ u, t.kind ≠ .eof)
    (he : e.kind = .eof) (recover : Bool) (r : Reading) (v v' : List Token) :
    run recover r (u ++ e :: v) = run recover r (u ++ e :: v') := by
  induction u generalizing r with
  | nil => rw [List.nil_append, List.nil_append, run_eof he, run_eof he]
  | cons t u ih =>
    obtain ⟨ht, hu⟩ := List.forall_mem_cons.1 hu
    have hrest := ih hu (r.feed t)
    rw [List.cons_append, List.cons_append, run, run, if_neg ht, if_neg ht]
    dsimp only
    rw [hrest]

/-- The parser does not move its cursor on from the first end, is over after a number of moves that
the tokens in front of that end bound, and what it finds does not depend on what follows. A list
without tokens is read as one that holds an end only. -/
theorem parser_stays_before_first_end {tokens : List Token}
    (h : tokens = [] ∨ ∃ t ∈ tokens, t.kind = .eof) (recover : Bool) :
    let last := tokens.findIdx (·.kind == .eof)
    let walk := fun moves => (Walker.start tokens).run recover moves
    (∃ moves ≤ 3 * last + 2, (walk moves).next? recover = none ∧
        (walk moves).parsed = parse tokens recover) ∧
      (∀ moves, (walk moves).cursor.position ≤ last) ∧
      (∀ tokens', tokens'.take (last + 1) = tokens.take (last + 1) →
        parse tokens' recover = parse tokens recover) ∧
      parse [] recover = parse [Token.eof 1 0] recover := by
  intro last walk
  obtain rfl | hend := h
  · have hwalk : ∀ moves, walk moves = .start [] := by
      rintro (_ | moves) <;> rfl
    refine ⟨⟨0, Nat.zero_le _, ?_⟩, fun moves => ?_, fun tokens' htokens => ?_, rfl⟩
    · rw [hwalk]
      exact ⟨rfl, rfl⟩
    · rw [hwalk]
      exact Nat.zero_le _
    · rw [List.take_nil, List.take_eq_nil_iff] at htokens
      rw [htokens.resolve_left (Nat.succ_ne_zero last)]
  · obtain ⟨u, e, v, rfl, hu, he, hlast⟩ := exists_first_end hend
    have hsound := Walker.sound_start hu he v recover
    have hweight : Walker.weight u (.start (u ++ e :: v)) = 3 * last + 1 := by
      rw [show last = u.length from hlast]
      rfl
    refine ⟨⟨3 * last + 2, Nat.le_refl _, ?_⟩, fun moves => ?_, fun tokens' htokens => ?_, rfl⟩
    · obtain ⟨left, hsound', hout, hover | hmore⟩ := Walker.run_sound (3 * last + 2) hsound
      · refine ⟨hover, ?_⟩
        obtain ⟨-, hparsed⟩ | ⟨w', hnext, -⟩ := Walker.next_onWay hsound'
        · exact hparsed.trans hout
        · cases hover.symm.trans hnext
      · omega
    · obtain ⟨left, hsound', -⟩ := Walker.run_sound moves hsound
      have hle := hsound'.faces.position_le
      rwa [← hlast] at hle
    · have htake : tokens'.take (last + 1) = u ++ [e] := by
        rw [htokens, show last = u.length from hlast, List.append_cons, List.take_left' (by simp)]
      rw [← List.take_append_drop (last + 1) tokens', htake, List.append_assoc,
        List.singleton_append, parse, parse]
      rw [Reading.run_append_eof hu he recover .start _ v]

/-- A semicolon and an operator where statements should start, and a block that the end leaves open;
what follows the end is not looked at. -/
theorem open_block_stays_before_first_end :
    let word (k : TokenKind) (s : String) : Token := ⟨k, s, none, 1, ⟨0, 0⟩⟩
    let tokens := [word .semicolon ";", word .plus "+", word .leftBrace "\x7b", .eof 1 0,
      word .kwPrint "print", word .semicolon ";"]
    (tokens = [] ∨ ∃ t ∈ tokens, t.kind = .eof) ∧
      (∀ moves, ((Walker.start tokens).run true moves).cursor.position ≤ 3) ∧
      parse (tokens.take 4) true = parse tokens true ∧
      (parse tokens true).errors.map (·.token.kind) = [.semicolon, .plus, .eof] := by
  intro word tokens
  have hend : tokens = [] ∨ ∃ t ∈ tokens, t.kind = .eof :=
    .inr ⟨.eof 1 0, by simp [tokens], rfl⟩
  obtain ⟨-, hposition, hparse, -⟩ := parser_stays_before_first_end hend true
  exact ⟨hend, hposition, hparse _ rfl, by cbv⟩

end TinyScript
