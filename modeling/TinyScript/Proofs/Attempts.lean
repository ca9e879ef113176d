import TinyScript.Proofs.CorrectPrefix

/-!
A parse with recovery as a sequence of attempts. An attempt reads one statement of the program. It
ends in front of the token behind the statement, or at a token that is wrong; then tokens are
skipped and the next attempt begins. What the attempts find is what the parse gives.
-/

namespace TinyScript

namespace Stage

/-- What a token is to a statement that is being read. -/
inductive Verdict where
  | taken (stage : Stage)
  /-- The statement is complete in front of the token. -/
  | behind (s : Stmt)
  | wrong (fault : SyntaxFault)

def Verdict.ofNext : Next → Verdict
  | .ok stage => taken stage
  | .error fault => wrong fault

def judge (t : Token) : Stage → Verdict
  | inside mode enclosing => .ofNext (step mode enclosing t)
  | finished s enclosing =>
    match settle t.kind s enclosing with
    | .outermost s => .behind s
    | .within mode enclosing => .ofNext (step mode enclosing t)
    | .atElse test yes enclosing => .taken (inside .statement (.elseBranch test yes :: enclosing))

/-- The index of the token that ends the statement, if the first one has index `n`, and what comes
of the statement. There is no answer if the tokens run out. -/
def ends (n : Nat) (stage : Stage) : List Token → Option (Nat × Except SyntaxError Stmt)
  | [] => none
  | t :: ts =>
    match stage.judge t with
    | .taken next => ends (n + 1) next ts
    | .behind s => some (n, .ok s)
    | .wrong fault => some (n, .error ⟨fault, t⟩)

end Stage

/-- The number of tokens to skip: up to behind a semicolon, or up to a token that starts a
statement, or up to the end. -/
def synchronize : List Token → Nat
  | [] => 0
  | t :: ts =>
    if t.kind = .eof then 0
    else if t.kind = .semicolon then 1
    else if TokenSet.statementStart.contains t.kind then 0
    else synchronize ts + 1

structure Attempt where
  /-- The index of the first token. -/
  start : Nat
  /-- The index of the token behind the statement, or of the one that is wrong. -/
  stop : Nat
  ending : Except SyntaxError Stmt

namespace Attempt

def statement? (a : Attempt) : Option Stmt := a.ending.toOption

def error? (a : Attempt) : Option SyntaxError :=
  match a.ending with
  | .ok _ => none
  | .error x => some x

/-- Where the attempt leaves the cursor. -/
def left (a : Attempt) : Nat :=
  match a.ending with
  | .ok _ => a.stop
  | .error x => if x.fault.tookToken then a.stop + 1 else a.stop

/-- Where reading goes on. An attempt that has read nothing is followed by a step of one token, and
a semicolon skipped by it ends the skipping. -/
def resume (tokens : List Token) (a : Attempt) : Nat :=
  match a.ending with
  | .ok _ => a.left
  | .error _ =>
    if a.left = a.start then
      if tokens[a.left]?.map Token.kind = some .semicolon then a.left + 1
      else a.left + 1 + synchronize (tokens.drop (a.left + 1))
    else a.left + synchronize (tokens.drop a.left)

/-- The attempt that begins at an index. -/
def at? (tokens : List Token) (i : Nat) : Option Attempt :=
  (Stage.start.ends i (tokens.drop i)).map fun (stop, ending) => ⟨i, stop, ending⟩

end Attempt

namespace Stage

theorem verdict_ofNext_taken {next : Next} {stage : Stage} (h : Verdict.ofNext next = .taken stage) :
    next = .ok stage := by
  cases next with
  | ok stage' =>
    cases h
    rfl
  | error fault => cases h

theorem verdict_ofNext_wrong {next : Next} {fault : SyntaxFault}
    (h : Verdict.ofNext next = .wrong fault) : next = .error fault := by
  cases next with
  | ok stage => cases h
  | error fault' =>
    cases h
    rfl

theorem verdict_ofNext_ne_behind (next : Next) (s : Stmt) : Verdict.ofNext next ≠ .behind s := by
  cases next <;> exact nofun

/-- A statement that has been begun is not begun again, and only an equals sign is read before it
turns out to be wrong. -/
def Proper (t : Token) : Next → Prop
  | .ok stage => stage ≠ start
  | .error fault => fault.tookToken = true → t.kind = .equal

section

variable (t : Token) (enclosing : List Enclosing)

theorem proper_operand (ps : List Pending) (purpose : Purpose) :
    Proper t (operand ps purpose enclosing t) := by
  unfold operand
  split
  · exact nofun
  · split
    · exact nofun
    · split <;> exact nofun

theorem proper_expect (kind : TokenKind) (context : String) {next : Stage} (h : next ≠ start) :
    Proper t (expect t kind context next) := by
  unfold expect
  split
  · exact h
  · exact nofun

theorem proper_ending (e : Expr) (ps : List Pending) (purpose : Purpose) :
    Proper t (ending e ps purpose enclosing t) := by
  unfold ending
  split
  · exact proper_expect t _ _ nofun
  · exact proper_expect t _ _ (by cases purpose <;> exact nofun)

theorem proper_operator (e : Expr) (ps : List Pending) (purpose : Purpose) :
    Proper t (operator e ps purpose enclosing t) := by
  unfold operator
  split
  · exact nofun
  · split
    · next hequal =>
      unfold equals
      split
      · exact proper_ending t enclosing e ps purpose
      · split
        · exact nofun
        · exact fun _ => hequal
    · exact proper_ending t enclosing e ps purpose

theorem proper_statement : Proper t (statement enclosing t) := by
  unfold statement
  split
  case h_9 => exact proper_operand t _ [] .discard
  all_goals exact nofun

theorem proper_step (mode : Mode) : Proper t (step mode enclosing t) := by
  cases mode with
  | statement => exact proper_statement t enclosing
  | operand ps purpose => exact proper_operand t enclosing ps purpose
  | operator e ps purpose => exact proper_operator t enclosing e ps purpose
  | ifParen | whileParen | forParen | varName | varEqual x =>
    refine proper_expect t _ _ fun h => ?_
    cases h
  | forInit =>
    rw [step]
    split
    · intro h
      cases h
    · intro h
      cases h
    · exact proper_operand t _ _ _
  | forTest init | forStep init test =>
    rw [step]
    split
    · intro h
      cases h
    · exact proper_operand t _ _ _

end

theorem settle_ne_start (k : TokenKind) (s : Stmt) (enclosing : List Enclosing) :
    settle k s enclosing ≠ .within .statement [] := by
  induction enclosing generalizing s with
  | nil =>
    intro h
    cases h
  | cons head outer ih =>
    cases head with
    | block before | forInit =>
      intro h
      cases h
    | thenBranch test =>
      rw [settle]
      split
      · intro h
        cases h
      · exact ih _
    | elseBranch test yes | whileBody test | forBody init test step => exact ih _

theorem ne_start_of_judge {t : Token} {stage next : Stage} (h : stage.judge t = .taken next) :
    next ≠ start := by
  have hstep : ∀ mode enclosing, Verdict.ofNext (step mode enclosing t) = .taken next →
      next ≠ start := by
    intro mode enclosing hnext
    have hproper := proper_step t enclosing mode
    rw [verdict_ofNext_taken hnext] at hproper
    exact hproper
  unfold judge at h
  split at h
  · exact hstep _ _ h
  · split at h
    · cases h
    · exact hstep _ _ h
    · cases h
      exact nofun

theorem kind_of_tookToken {t : Token} {stage : Stage} {fault : SyntaxFault}
    (h : stage.judge t = .wrong fault) (hf : fault.tookToken = true) : t.kind = .equal := by
  have hstep : ∀ mode enclosing, Verdict.ofNext (step mode enclosing t) = .wrong fault →
      t.kind = .equal := by
    intro mode enclosing hnext
    have hproper := proper_step t enclosing mode
    rw [verdict_ofNext_wrong hnext] at hproper
    exact hproper hf
  unfold judge at h
  split at h
  · exact hstep _ _ h
  · split at h
    · cases h
    · exact hstep _ _ h
    · cases h

/-- What starts a statement is read wherever one may stand. -/
theorem statement_of_starter {t : Token} (ht : TokenSet.statementStart.contains t.kind = true)
    (enclosing : List Enclosing) : ∃ stage, statement enclosing t = .ok stage := by
  have hstarter : ∀ k, TokenSet.statementStart.contains k = true →
      k = .kwVar ∨ k = .kwFor ∨ k = .kwIf ∨ k = .kwWhile ∨ k = .kwPrint ∨ k = .leftBrace := by
    intro k
    cases k <;> decide
  rcases hstarter _ ht with h | h | h | h | h | h <;> exact ⟨_, by simp only [statement, h]; rfl⟩

end Stage

namespace Stage

/-- The end belongs to no statement. -/
theorem judge_eof {t : Token} (ht : t.kind = .eof) (stage next : Stage) :
    stage.judge t ≠ .taken next := by
  have hstep : ∀ mode enclosing, Verdict.ofNext (step mode enclosing t) ≠ .taken next := by
    intro mode enclosing
    obtain ⟨fault, hfault⟩ := Grammar.step_eof ht mode enclosing
    rw [hfault]
    exact nofun
  unfold judge
  split
  · exact hstep _ _
  · split
    · exact nofun
    · exact hstep _ _
    · next hsettle =>
      have helse : t.kind ≠ .kwElse := by
        rw [ht]
        decide
      exact absurd hsettle (settle_ne_atElse helse _ _ _ _ _)

theorem judge_start_ne_behind (t : Token) (s : Stmt) : start.judge t ≠ .behind s :=
  verdict_ofNext_ne_behind _ s

/-- A token that starts a statement cannot be what is wrong with it. -/
theorem judge_starter {t : Token} (ht : TokenSet.statementStart.contains t.kind = true)
    (fault : SyntaxFault) : start.judge t ≠ .wrong fault := by
  obtain ⟨stage, hstage⟩ := statement_of_starter ht []
  intro h
  have hnext := verdict_ofNext_wrong h
  rw [step, hstage] at hnext
  cases hnext

section

variable {n k : Nat} {stage : Stage} {ts : List Token} {ending : Except SyntaxError Stmt}

theorem ends_cons_taken {t : Token} {next : Stage} (h : stage.judge t = .taken next) :
    stage.ends n (t :: ts) = next.ends (n + 1) ts := by
  rw [ends, h]

/-- The token at which a statement ends is one of the list. -/
theorem le_of_ends (h : stage.ends n ts = some (k, ending)) : n ≤ k ∧ k < n + ts.length := by
  induction ts generalizing n stage with
  | nil => cases h
  | cons t ts ih =>
    rw [ends] at h
    rw [List.length_cons]
    split at h
    · have := ih h
      omega
    · cases h
      omega
    · cases h
      omega

/-- What comes of a statement is decided by the token at which it ends. -/
theorem judge_of_ends (h : stage.ends n ts = some (k, ending)) :
    ∃ (last : Stage) (t : Token), ts[k - n]? = some t ∧
      ((∃ s, ending = .ok s ∧ last.judge t = .behind s) ∨
        ∃ fault, ending = .error ⟨fault, t⟩ ∧ last.judge t = .wrong fault) := by
  induction ts generalizing n stage with
  | nil => cases h
  | cons t ts ih =>
    have hle := le_of_ends h
    rw [ends] at h
    split at h
    · next next hnext =>
      have hlt := (le_of_ends h).1
      obtain ⟨last, u, hu, hend⟩ := ih h
      refine ⟨last, u, ?_, hend⟩
      rwa [show k - n = k - (n + 1) + 1 by omega, List.getElem?_cons_succ]
    · next s hs =>
      cases h
      exact ⟨stage, t, by simp, .inl ⟨s, rfl, hs⟩⟩
    · next fault hf =>
      cases h
      exact ⟨stage, t, by simp, .inr ⟨fault, rfl, hf⟩⟩

/-- The first token belongs to the statement, or is wrong. -/
theorem ends_start {t : Token} (h : start.ends n (t :: ts) = some (k, ending)) :
    n < k ∨ ∃ fault, start.judge t = .wrong fault ∧ k = n ∧ ending = .error ⟨fault, t⟩ := by
  rw [ends] at h
  split at h
  · have := (le_of_ends h).1
    exact .inl (by omega)
  · next s hs => exact absurd hs (judge_start_ne_behind t s)
  · next fault hfault =>
    cases h
    exact .inr ⟨fault, hfault, rfl, rfl⟩

/-- A list that holds an end holds the end of the statement, and does so before that. -/
theorem exists_ends (n : Nat) (stage : Stage) (hend : ∃ t ∈ ts, t.kind = .eof) :
    ∃ k ending, stage.ends n ts = some (k, ending) ∧ ∃ t ∈ ts.drop (k - n), t.kind = .eof := by
  induction ts generalizing n stage with
  | nil => simp at hend
  | cons t ts ih =>
    rcases hjudge : stage.judge t with next | s | fault
    · have hrest : ∃ u ∈ ts, u.kind = .eof := by
        have heof : t.kind ≠ .eof := fun heof => judge_eof heof stage next hjudge
        simpa [heof] using hend
      obtain ⟨k, ending, hends, hkeep⟩ := ih (n + 1) next hrest
      have hle := (le_of_ends hends).1
      refine ⟨k, ending, (ends_cons_taken hjudge).trans hends, ?_⟩
      rwa [show k - n = k - (n + 1) + 1 by omega, List.drop_succ_cons]
    · exact ⟨n, .ok s, by rw [ends, hjudge], by simpa using hend⟩
    · exact ⟨n, .error ⟨fault, t⟩, by rw [ends, hjudge], by simpa using hend⟩

end

end Stage

theorem synchronize_other {t : Token} (heof : t.kind ≠ .eof) (hsemicolon : t.kind ≠ .semicolon)
    (hstarter : ¬TokenSet.statementStart.contains t.kind = true) (ts : List Token) :
    synchronize (t :: ts) = synchronize ts + 1 := by
  rw [synchronize, if_neg heof, if_neg hsemicolon, if_neg hstarter]

/-- Of what may start or end a statement, only a semicolon is skipped, and it comes last. -/
theorem synchronize_skips (ts : List Token) :
    (∀ t ∈ ts.take (synchronize ts), t.kind ≠ .eof ∧
      TokenSet.statementStart.contains t.kind = false) ∧
      ∀ t ∈ (ts.take (synchronize ts)).dropLast, t.kind ≠ .semicolon := by
  induction ts with
  | nil => simp
  | cons t ts ih =>
    by_cases heof : t.kind = .eof
    · simp [synchronize, heof]
    by_cases hsemicolon : t.kind = .semicolon
    · have hno : TokenSet.statementStart.contains .semicolon = false := by decide
      simp [synchronize, hsemicolon, hno]
    by_cases hstarter : TokenSet.statementStart.contains t.kind = true
    · simp [synchronize, heof, hsemicolon, hstarter]
    · rw [synchronize_other heof hsemicolon hstarter, List.take_succ_cons]
      refine ⟨List.forall_mem_cons.2 ⟨⟨heof, Bool.eq_false_iff.2 hstarter⟩, ih.1⟩, ?_⟩
      intro u hu
      rcases hskipped : ts.take (synchronize ts) with _ | ⟨v, vs⟩
      · rw [hskipped] at hu
        cases hu
      · rw [hskipped, List.dropLast_cons_cons, List.mem_cons, ← hskipped] at hu
        rcases hu with rfl | hu
        · exact hsemicolon
        · exact ih.2 u hu

theorem synchronize_stops {ts : List Token} (hend : ∃ t ∈ ts, t.kind = .eof) :
    (∃ t, (ts.take (synchronize ts)).getLast? = some t ∧ t.kind = .semicolon) ∨
      ∃ t, ts[synchronize ts]? = some t ∧
        (TokenSet.statementStart.contains t.kind = true ∨ t.kind = .eof) := by
  induction ts with
  | nil => simp at hend
  | cons t ts ih =>
    by_cases heof : t.kind = .eof
    · simp [synchronize, heof]
    by_cases hsemicolon : t.kind = .semicolon
    · simp [synchronize, hsemicolon]
    by_cases hstarter : TokenSet.statementStart.contains t.kind = true
    · simp [synchronize, heof, hsemicolon, hstarter]
    · have hrest : ∃ u ∈ ts, u.kind = .eof := by simpa [heof] using hend
      rw [synchronize_other heof hsemicolon hstarter, List.take_succ_cons, List.getElem?_cons_succ]
      rcases ih hrest with ⟨u, hu, hk⟩ | hstop
      · refine .inl ⟨u, ?_, hk⟩
        rw [List.getLast?_cons, hu]
        rfl
      · exact .inr hstop

namespace Attempt

variable {tokens : List Token} {i : Nat} {a : Attempt}

theorem at?_eq_some (h : at? tokens i = some a) :
    a.start = i ∧ Stage.start.ends i (tokens.drop i) = some (a.stop, a.ending) := by
  unfold at? at h
  obtain ⟨⟨stop, ending⟩, hends, rfl⟩ := Option.map_eq_some_iff.1 h
  exact ⟨rfl, hends⟩

theorem exists_of_at? (h : at? tokens i = some a) :
    ∃ t, tokens.drop i = t :: tokens.drop (i + 1) ∧ tokens[i]? = some t := by
  have hlt : i < tokens.length := by
    refine Nat.lt_of_not_le fun hge => ?_
    have hends := (at?_eq_some h).2
    rw [List.drop_eq_nil_of_le hge] at hends
    cases hends
  exact ⟨tokens[i], List.drop_eq_getElem_cons hlt, List.getElem?_eq_getElem hlt⟩

/-- Reading goes on behind where the attempt began. -/
theorem lt_resume (h : at? tokens i = some a) : i < a.resume tokens := by
  obtain ⟨rfl, hends⟩ := at?_eq_some h
  obtain ⟨t, hdrop, -⟩ := exists_of_at? h
  have hle := (Stage.le_of_ends hends).1
  rw [hdrop] at hends
  cases hending : a.ending with
  | ok s =>
    rcases Stage.ends_start hends with hlt | ⟨fault, -, -, hfault⟩
    · rw [resume, left, hending]
      exact hlt
    · rw [hending] at hfault
      cases hfault
  | error x =>
    have hleft : a.start ≤ a.left := by
      rw [left, hending]
      dsimp only
      split <;> omega
    rw [resume, hending]
    dsimp only
    split
    · split <;> omega
    · omega

end Attempt

/-- The attempts of a parse with recovery, from an index on. -/
def attempts (tokens : List Token) (i : Nat) : List Attempt :=
  match tokens[i]? with
  | none => []
  | some t =>
    if t.kind = .eof then []
    else
      match _h : Attempt.at? tokens i with
      | none => []
      | some a => a :: attempts tokens (a.resume tokens)
termination_by tokens.length - i
decreasing_by
  have hat : Attempt.at? tokens i = some a := ‹_›
  obtain ⟨t, -, ht⟩ := Attempt.exists_of_at? hat
  have := (List.getElem?_eq_some_iff.1 ht).1
  have := Attempt.lt_resume hat
  omega

namespace Reading

/-- What a parse gives that ends with the reading. -/
def parsed (r : Reading) : Parsed := ⟨r.statements.reverse, r.errors.reverse⟩

theorem feed_eq {r : Reading} {stage : Stage} (h : r.stage = some stage) (t : Token) :
    r.feed t = match stage.judge t with
      | .taken next => { r with stage := some next }
      | .behind s =>
        { r with statements := s :: r.statements }.proceed t (Stage.statement [] t)
      | .wrong fault => r.proceed t (.error fault) := by
  have hnext : ∀ next, r.proceed t next = match Stage.Verdict.ofNext next with
      | .taken next => { r with stage := some next }
      | .behind s =>
        { r with statements := s :: r.statements }.proceed t (Stage.statement [] t)
      | .wrong fault => r.proceed t (.error fault) := by
    rintro (fault | stage) <;> rfl
  rcases stage with ⟨mode, enclosing⟩ | ⟨s, enclosing⟩
  · simp only [feed, h, Stage.judge]
    exact hnext _
  · rcases hsettle : Stage.settle t.kind s enclosing with s' | ⟨mode, outer⟩ | ⟨test, yes, outer⟩
    · simp only [feed, h, Stage.judge, hsettle]
    · simp only [feed, h, Stage.judge, hsettle]
      exact hnext _
    · simp only [feed, h, Stage.judge, hsettle]

theorem unfinished_of_step {mode : Mode} {enclosing : List Enclosing} {t : Token}
    {fault : SyntaxFault} (hne : Stage.inside mode enclosing ≠ .start)
    (h : Stage.step mode enclosing t = .error fault) :
    unfinished mode enclosing t = [⟨fault, t⟩] := by
  unfold unfinished
  split
  · exact absurd rfl hne
  · rw [h]

/-- Reading the end where it is wrong. -/
theorem errors_finish_wrong {r : Reading} {stage : Stage} {t : Token} {fault : SyntaxFault}
    (hr : r.stage = some stage) (hne : stage ≠ .start) (h : stage.judge t = .wrong fault) :
    (r.finish t).statements = r.statements ∧ (r.finish t).errors = ⟨fault, t⟩ :: r.errors := by
  rcases stage with ⟨mode, enclosing⟩ | ⟨s, enclosing⟩
  · rw [finish, hr]
    dsimp only
    rw [unfinished_of_step hne (Stage.verdict_ofNext_wrong h)]
    exact ⟨rfl, rfl⟩
  · rw [Stage.judge] at h
    rcases hsettle : Stage.settle t.kind s enclosing with s' | ⟨mode, outer⟩ | ⟨test, yes, outer⟩
    · rw [hsettle] at h
      cases h
    · rw [hsettle] at h
      have hwithin : Stage.inside mode outer ≠ .start := by
        intro hstart
        cases hstart
        exact Stage.settle_ne_start _ _ _ hsettle
      simp [finish, hr, hsettle, unfinished_of_step hwithin (Stage.verdict_ofNext_wrong h)]
    · rw [hsettle] at h
      cases h

/-- Reading with recovery, from a stage on. -/
def resumed (stage : Option Stage) (statements : List Stmt) (errors : List SyntaxError)
    (ts : List Token) : Parsed := (run true ⟨stage, statements, errors⟩ ts).parsed

section

variable (out : List Stmt) (errors : List SyntaxError)

theorem resumed_cons {t : Token} (ht : t.kind ≠ .eof) (stage : Option Stage) (ts : List Token) :
    resumed stage out errors (t :: ts) = (run true (feed ⟨stage, out, errors⟩ t) ts).parsed := by
  rw [resumed, run, if_neg ht]
  rfl

theorem resumed_eof {t : Token} (ht : t.kind = .eof) (stage : Option Stage) (ts : List Token) :
    resumed stage out errors (t :: ts) = (finish ⟨stage, out, errors⟩ t).parsed := by
  rw [resumed, run, if_pos ht]

/-- Skipping ends where the next statement is begun. -/
theorem resumed_skip (ts : List Token) : resumed none out errors ts =
    resumed (some .start) out errors (ts.drop (synchronize ts)) := by
  induction ts with
  | nil => rfl
  | cons t ts ih =>
    by_cases heof : t.kind = .eof
    · rw [synchronize, if_pos heof, List.drop_zero, resumed_eof _ _ heof, resumed_eof _ _ heof]
      rfl
    rw [resumed_cons _ _ heof]
    by_cases hsemicolon : t.kind = .semicolon
    · rw [synchronize, if_neg heof, if_pos hsemicolon, List.drop_succ_cons, List.drop_zero, feed,
        resume, if_pos hsemicolon]
      rfl
    by_cases hstarter : TokenSet.statementStart.contains t.kind = true
    · obtain ⟨stage, hstage⟩ := Stage.statement_of_starter hstarter []
      rw [synchronize, if_neg heof, if_neg hsemicolon, if_pos hstarter, List.drop_zero,
        resumed_cons _ _ heof]
      simp only [feed, resume, if_neg hsemicolon, if_pos hstarter, Stage.start, Stage.step, hstage]
      rfl
    · rw [synchronize_other heof hsemicolon hstarter, List.drop_succ_cons, ← ih, feed, resume,
        if_neg hsemicolon, if_neg hstarter]
      rfl

/-- Behind a wrong token all is skipped, beginning with that token unless it has been read. -/
theorem resumed_wrong {stage : Stage} {t : Token} {fault : SyntaxFault}
    (hstart : t.kind = .eof → stage ≠ .start) (h : stage.judge t = .wrong fault) (ts : List Token) :
    resumed (some stage) out errors (t :: ts) =
      resumed none out (⟨fault, t⟩ :: errors) (if fault.tookToken then ts else t :: ts) := by
  by_cases heof : t.kind = .eof
  · have htook : fault.tookToken = false := by
      rw [Bool.eq_false_iff]
      intro htook
      have := Stage.kind_of_tookToken h htook
      rw [heof] at this
      cases this
    obtain ⟨hstatements, herrors⟩ :=
      errors_finish_wrong (r := ⟨some stage, out, errors⟩) rfl (hstart heof) h
    rw [htook, if_neg Bool.false_ne_true, resumed_eof _ _ heof, resumed_eof _ _ heof, parsed,
      hstatements, herrors]
    rfl
  · rw [resumed_cons _ _ heof, feed_eq rfl, h]
    cases htook : fault.tookToken with
    | true =>
      simp only [proceed, htook, if_true]
      rfl
    | false =>
      rw [if_neg Bool.false_ne_true, resumed_cons _ _ heof]
      simp only [proceed, htook]
      rfl

/-- Behind a complete statement reading starts anew. -/
theorem resumed_behind {stage : Stage} {t : Token} {s : Stmt} (h : stage.judge t = .behind s)
    (ts : List Token) : resumed (some stage) out errors (t :: ts) =
      resumed (some .start) (s :: out) errors (t :: ts) := by
  by_cases heof : t.kind = .eof
  · rw [resumed_eof _ _ heof, resumed_eof _ _ heof]
    rcases stage with ⟨mode, enclosing⟩ | ⟨s', enclosing⟩
    · exact absurd h (Stage.verdict_ofNext_ne_behind _ s)
    · rw [Stage.judge] at h
      rcases hsettle : Stage.settle t.kind s' enclosing with s'' | ⟨mode, outer⟩ | ⟨test, yes, outer⟩
      · rw [hsettle] at h
        cases h
        simp [finish, hsettle, parsed, Stage.start, unfinished]
      · rw [hsettle] at h
        exact absurd h (Stage.verdict_ofNext_ne_behind _ s)
      · rw [hsettle] at h
        cases h
  · rw [resumed_cons _ _ heof, resumed_cons _ _ heof, feed_eq rfl, h]
    have hstage := proceed_stage ⟨some stage, s :: out, errors⟩ (some .start) t
      (Stage.statement [] t)
    exact congrArg (fun r => (run true r ts).parsed) hstage.symm

/-- One attempt, from any stage of it: the statement is kept, or the error is and what has been
read is given up. -/
theorem resumed_ends {stage : Stage} {ts : List Token} {n k : Nat}
    {ending : Except SyntaxError Stmt} (h : stage.ends n ts = some (k, ending))
    (hstart : ∀ t ∈ ts.head?, t.kind = .eof → stage ≠ .start) :
    resumed (some stage) out errors ts =
      match ending with
      | .ok s => resumed (some .start) (s :: out) errors (ts.drop (k - n))
      | .error x => resumed none out (x :: errors)
          (ts.drop (if x.fault.tookToken then k + 1 - n else k - n)) := by
  induction ts generalizing n stage with
  | nil => cases h
  | cons t ts ih =>
    have hle := Stage.le_of_ends h
    rw [Stage.ends] at h
    split at h
    · next next hnext =>
      have hlt := (Stage.le_of_ends h).1
      have heof : t.kind ≠ .eof := fun heof => Stage.judge_eof heof stage next hnext
      have hdrop : ∀ m, n + 1 ≤ m → (t :: ts).drop (m - n) = ts.drop (m - (n + 1)) := by
        intro m hm
        rw [show m - n = m - (n + 1) + 1 by omega, List.drop_succ_cons]
      have hrest := ih h fun _ _ _ => Stage.ne_start_of_judge hnext
      rw [resumed_cons _ _ heof, feed_eq rfl, hnext]
      refine Eq.trans hrest ?_
      cases ending with
      | ok s =>
        dsimp only
        rw [hdrop k hlt]
      | error x =>
        dsimp only
        split
        · rw [hdrop (k + 1) (by omega)]
        · rw [hdrop k hlt]
    · next s hs =>
      cases h
      simp only [Nat.sub_self, List.drop_zero]
      exact resumed_behind out errors hs ts
    · next fault hfault =>
      cases h
      dsimp only
      rw [resumed_wrong out errors (hstart t rfl) hfault]
      split
      · rw [Nat.add_sub_cancel_left, List.drop_succ_cons, List.drop_zero]
      · rw [Nat.sub_self, List.drop_zero]

end

end Reading

namespace Attempt

variable {tokens : List Token} {i : Nat} {a : Attempt}

theorem getElem?_stop (h : at? tokens i = some a) {x : SyntaxError} (hx : a.ending = .error x) :
    tokens[a.stop]? = some x.token ∧
      (x.fault.tookToken = true → x.token.kind = .equal) := by
  obtain ⟨rfl, hends⟩ := at?_eq_some h
  have hle := (Stage.le_of_ends hends).1
  obtain ⟨last, t, ht, ⟨s, hs, -⟩ | ⟨fault, hfault, hwrong⟩⟩ := Stage.judge_of_ends hends
  · rw [hx] at hs
    cases hs
  · rw [hx] at hfault
    cases hfault
    refine ⟨?_, Stage.kind_of_tookToken hwrong⟩
    rw [List.getElem?_drop] at ht
    rwa [show a.start + (a.stop - a.start) = a.stop by omega] at ht

/-- After an error the skipping starts where the attempt has left the cursor, whether it has read
anything or not. -/
theorem resume_of_error (h : at? tokens i = some a) {x : SyntaxError} (hx : a.ending = .error x)
    (hi : tokens[i]?.map Token.kind ≠ some .eof) :
    a.resume tokens = a.left + synchronize (tokens.drop a.left) := by
  obtain ⟨t, hdrop, ht⟩ := exists_of_at? h
  obtain ⟨rfl, hends⟩ := at?_eq_some h
  have hle := (Stage.le_of_ends hends).1
  rw [hdrop] at hends
  rw [resume, hx]
  dsimp only
  split
  · next hleft =>
    -- the token at which nothing could be begun starts no statement
    have hfirst : TokenSet.statementStart.contains t.kind = false := by
      rw [Bool.eq_false_iff]
      intro hstarter
      rcases Stage.ends_start hends with hlt | ⟨fault, hwrong, -, -⟩
      · rw [left, hx] at hleft
        dsimp only at hleft
        split at hleft <;> omega
      · exact Stage.judge_starter hstarter fault hwrong
    have heof : t.kind ≠ .eof := by
      intro heof
      rw [ht, Option.map_some, heof] at hi
      exact hi rfl
    rw [hleft, hdrop, ht, Option.map_some]
    simp only [Option.some.injEq]
    by_cases hsemicolon : t.kind = .semicolon
    · rw [if_pos hsemicolon, synchronize, if_neg heof, if_pos hsemicolon]
    · rw [if_neg hsemicolon, synchronize_other heof hsemicolon (Bool.eq_false_iff.1 hfirst)]
      omega
  · rfl

theorem eof_mem_drop_stop (h : at? tokens i = some a)
    (hend : ∃ t ∈ tokens.drop i, t.kind = .eof) : ∃ t ∈ tokens.drop a.stop, t.kind = .eof := by
  obtain ⟨-, hends⟩ := at?_eq_some h
  have hle := (Stage.le_of_ends hends).1
  obtain ⟨k, ending, hends', hkeep⟩ := Stage.exists_ends i .start hend
  rw [hends] at hends'
  cases hends'
  rwa [List.drop_drop, show i + (a.stop - i) = a.stop by omega] at hkeep

/-- A wrong token that has been read is not the end. -/
theorem eof_mem_drop_left (h : at? tokens i = some a)
    (hend : ∃ t ∈ tokens.drop i, t.kind = .eof) {x : SyntaxError} (hx : a.ending = .error x) :
    ∃ t ∈ tokens.drop a.left, t.kind = .eof := by
  obtain ⟨htoken, htook⟩ := getElem?_stop h hx
  have hstop := eof_mem_drop_stop h hend
  rw [left, hx]
  dsimp only
  split
  · next hf =>
    have hne : x.token.kind ≠ .eof := by
      rw [htook hf]
      decide
    obtain ⟨hlt, hget⟩ := List.getElem?_eq_some_iff.1 htoken
    rw [List.drop_eq_getElem_cons hlt, hget] at hstop
    simpa [hne] using hstop
  · exact hstop

/-- An attempt does not go past the end, and neither does the skipping behind it. -/
theorem eof_mem_drop_resume (h : at? tokens i = some a)
    (hend : ∃ t ∈ tokens.drop i, t.kind = .eof) (hi : tokens[i]?.map Token.kind ≠ some .eof) :
    ∃ t ∈ tokens.drop (a.resume tokens), t.kind = .eof := by
  cases hending : a.ending with
  | ok s =>
    rw [resume, left, hending]
    exact eof_mem_drop_stop h hend
  | error x =>
    have hleft := eof_mem_drop_left h hend hending
    rw [resume_of_error h hending hi, ← List.drop_drop]
    obtain ⟨t, ht, heof⟩ := hleft
    rw [← List.take_append_drop (synchronize (tokens.drop a.left)) (tokens.drop a.left),
      List.mem_append] at ht
    rcases ht with ht | ht
    · exact absurd heof ((synchronize_skips _).1 t ht).1
    · exact ⟨t, ht, heof⟩

/-- Reading goes on behind an attempt with what has come of it. -/
theorem resumed_eq (h : at? tokens i = some a) (hi : tokens[i]?.map Token.kind ≠ some .eof)
    (out : List Stmt) (errors : List SyntaxError) :
    Reading.resumed (some .start) out errors (tokens.drop i) =
      Reading.resumed (some .start) (a.statement?.toList ++ out) (a.error?.toList ++ errors)
        (tokens.drop (a.resume tokens)) := by
  obtain ⟨t, hdrop, ht⟩ := exists_of_at? h
  obtain ⟨rfl, hends⟩ := at?_eq_some h
  have hle := (Stage.le_of_ends hends).1
  have hstart : ∀ u ∈ (tokens.drop a.start).head?, u.kind = .eof → Stage.start ≠ .start := by
    intro u hu heof
    rw [hdrop, List.head?_cons, Option.mem_some_iff] at hu
    subst hu
    rw [ht, Option.map_some, heof] at hi
    exact absurd rfl hi
  cases hending : a.ending with
  | ok s =>
    rw [hending] at hends
    rw [Reading.resumed_ends out errors hends hstart, resume, left, statement?, error?, hending]
    dsimp only
    rw [List.drop_drop, show a.start + (a.stop - a.start) = a.stop by omega]
    rfl
  | error x =>
    rw [hending] at hends
    rw [Reading.resumed_ends out errors hends hstart, resume_of_error h hending hi,
      ← List.drop_drop, ← Reading.resumed_skip, left, statement?, error?, hending]
    dsimp only
    rw [List.drop_drop]
    split
    · rw [show a.start + (a.stop + 1 - a.start) = a.stop + 1 by omega]
      rfl
    · rw [show a.start + (a.stop - a.start) = a.stop by omega]
      rfl

end Attempt

section

variable {tokens : List Token} {i : Nat}

theorem attempts_end (h : tokens[i]?.map Token.kind = some .eof) : attempts tokens i = [] := by
  obtain ⟨t, ht, heof⟩ := Option.map_eq_some_iff.1 h
  rw [attempts, ht]
  exact if_pos heof

theorem attempts_cons {a : Attempt} (hi : tokens[i]?.map Token.kind ≠ some .eof)
    (h : Attempt.at? tokens i = some a) :
    attempts tokens i = a :: attempts tokens (a.resume tokens) := by
  obtain ⟨t, -, ht⟩ := Attempt.exists_of_at? h
  rw [attempts, ht]
  dsimp only
  rw [if_neg fun heof => hi (by rw [ht, Option.map_some, heof])]
  split
  · next hnone =>
    rw [h] at hnone
    cases hnone
  · next b hb =>
    rw [h] at hb
    cases hb
    rfl

/-- There is an attempt wherever the end has not come yet. -/
theorem Attempt.exists_at? (hend : ∃ t ∈ tokens.drop i, t.kind = .eof) :
    ∃ a, at? tokens i = some a := by
  obtain ⟨k, ending, hends, -⟩ := Stage.exists_ends i .start hend
  exact ⟨⟨i, k, ending⟩, by rw [at?, hends]; rfl⟩

end

/-- The attempts in front of an end can be gone through one by one. -/
theorem attempts_induction {tokens : List Token} {P : Nat → List Attempt → Prop}
    (stop : ∀ i, tokens[i]?.map Token.kind = some .eof → P i [])
    (step : ∀ i a, (∃ t ∈ tokens.drop i, t.kind = .eof) → Attempt.at? tokens i = some a →
      tokens[i]?.map Token.kind ≠ some .eof →
      P (a.resume tokens) (attempts tokens (a.resume tokens)) →
      P i (a :: attempts tokens (a.resume tokens)))
    (i : Nat) (hend : ∃ t ∈ tokens.drop i, t.kind = .eof) : P i (attempts tokens i) := by
  induction hn : tokens.length - i using Nat.strongRecOn generalizing i with
  | ind n ih =>
    by_cases hi : tokens[i]?.map Token.kind = some .eof
    · rw [attempts_end hi]
      exact stop i hi
    · obtain ⟨a, ha⟩ := Attempt.exists_at? hend
      have hrest := Attempt.eof_mem_drop_resume ha hend hi
      have hlt := Attempt.lt_resume ha
      obtain ⟨t, -, ht⟩ := Attempt.exists_of_at? ha
      have hlength := (List.getElem?_eq_some_iff.1 ht).1
      rw [attempts_cons hi ha]
      exact step i a hend ha hi (ih _ (by omega) _ hrest rfl)

/-- The attempts give what a reading with recovery gives. -/
theorem resumed_attempts {tokens : List Token} {i : Nat}
    (hend : ∃ t ∈ tokens.drop i, t.kind = .eof) (out : List Stmt) (errors : List SyntaxError) :
    Reading.resumed (some .start) out errors (tokens.drop i) =
      ⟨out.reverse ++ (attempts tokens i).filterMap Attempt.statement?,
        errors.reverse ++ (attempts tokens i).filterMap Attempt.error?⟩ := by
  revert out errors
  refine attempts_induction (P := fun i as => ∀ out errors, Reading.resumed (some .start) out errors
    (tokens.drop i) = ⟨out.reverse ++ as.filterMap Attempt.statement?,
      errors.reverse ++ as.filterMap Attempt.error?⟩) ?_ ?_ i hend
  · intro i hi out errors
    obtain ⟨t, ht, heof⟩ := Option.map_eq_some_iff.1 hi
    obtain ⟨hlt, hget⟩ := List.getElem?_eq_some_iff.1 ht
    rw [List.drop_eq_getElem_cons hlt, hget, Reading.resumed_eof _ _ heof]
    simp [Reading.finish, Stage.start, Reading.unfinished, Reading.parsed]
  · intro i a _ ha hi ih out errors
    rw [Attempt.resumed_eq ha hi, ih]
    simp only [List.reverse_append, List.append_assoc, Parsed.mk.injEq]
    constructor
    · cases hs : a.statement? <;> simp [hs]
    · cases hx : a.error? <;> simp [hx]

theorem parse_eq_attempts {tokens : List Token} {i : Nat}
    (hend : ∃ t ∈ tokens.drop i, t.kind = .eof) :
    parse (tokens.drop i) true = ⟨(attempts tokens i).filterMap Attempt.statement?,
      (attempts tokens i).filterMap Attempt.error?⟩ :=
  resumed_attempts hend [] []

end TinyScript
