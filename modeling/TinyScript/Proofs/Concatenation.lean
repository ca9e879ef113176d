import TinyScript.Proofs.CorrectPrefix

/-!
Tokens behind those of a program are read as if they stood alone. A program that is complete leaves
reading where it began, but for the statements that have been found, and no step looks at these.
Only an `else` could still belong to the last statement.
-/

namespace TinyScript

/-- Any two tokens that are no `else` lead to the same place behind a statement. -/
theorem Stage.settle_congr {k k' : TokenKind} (hk : k ≠ .kwElse) (hk' : k' ≠ .kwElse) (s : Stmt)
    (enclosing : List Enclosing) : settle k s enclosing = settle k' s enclosing := by
  induction enclosing generalizing s with
  | nil => rfl
  | cons head outer ih => cases head <;> simp [settle, hk, hk', ih]

namespace Reading

/-- The reading with these statements found before it, the last one first. -/
def after (r : Reading) (before : List Stmt) : Reading :=
  { r with statements := r.statements ++ before }

section After

variable (r : Reading) (before : List Stmt) (t : Token)

theorem proceed_after (next : Stage.Next) :
    (r.after before).proceed t next = (r.proceed t next).after before := by
  cases next <;> rfl

theorem feed_after : (r.after before).feed t = (r.feed t).after before := by
  obtain ⟨_ | ⟨mode, enclosing⟩ | ⟨s, enclosing⟩, statements, errors⟩ := r
  · rfl
  · exact proceed_after _ before t _
  · simp only [feed, after]
    split
    · exact proceed_after ⟨_, _ :: statements, errors⟩ before t _
    · exact proceed_after ⟨_, statements, errors⟩ before t _
    · rfl

theorem finish_after : (r.after before).finish t = (r.finish t).after before := by
  obtain ⟨_ | ⟨mode, enclosing⟩ | ⟨s, enclosing⟩, statements, errors⟩ := r
  · rfl
  · rfl
  · simp only [finish, after]
    split <;> rfl

theorem run_after (recover : Bool) (ts : List Token) :
    run recover (r.after before) ts = (run recover r ts).after before := by
  induction ts generalizing r with
  | nil => exact finish_after r before _
  | cons t ts ih =>
    have herrors : ((r.feed t).after before).errors = (r.feed t).errors := rfl
    simp only [run, finish_after, feed_after, ih, herrors]
    split
    · rfl
    · split <;> rfl

end After

/-- A reading without errors is not skipping. -/
theorem stage_feed {r : Reading} {t : Token} (hr : r.stage ≠ none) (h : (r.feed t).errors = []) :
    (r.feed t).stage ≠ none := by
  have hproceed : ∀ (r : Reading) (next : Stage.Next), (r.proceed t next).errors = [] →
      (r.proceed t next).stage ≠ none := by
    rintro r (fault | stage) h
    · cases h
    · exact nofun
  unfold feed at h ⊢
  split at h
  · contradiction
  · exact hproceed _ _ h
  · split at h
    · exact hproceed _ _ h
    · exact hproceed _ _ h
    · exact nofun

theorem stage_feeds {r : Reading} {ts : List Token} (hr : r.stage ≠ none)
    (h : (r.feeds ts).errors = []) : (r.feeds ts).stage ≠ none := by
  induction ts generalizing r with
  | nil => exact hr
  | cons t ts ih => exact ih (stage_feed hr (errors_nil_of_feeds h)) h

/-- Where a program could end, reading stands where it started. -/
theorem settled_of_finish {r : Reading} {e : Token} (he : e.kind = .eof) (hr : r.stage ≠ none)
    (h : (r.finish e).errors = []) {k : TokenKind} (hk : k ≠ .kwElse) :
    r.settled k = start.after (r.finish e).statements := by
  obtain ⟨_ | ⟨mode, enclosing⟩ | ⟨s, enclosing⟩, statements, errors⟩ := r
  · exact absurd rfl hr
  · obtain ⟨hnone, rfl⟩ := List.append_eq_nil_iff.1 h
    obtain ⟨rfl, rfl⟩ := Grammar.unfinished_eq_nil he hnone
    rfl
  · have hsettle := Stage.settle_congr hk (he ▸ by decide : e.kind ≠ .kwElse) s enclosing
    simp only [finish, settled, hsettle] at h ⊢
    cases hnext : Stage.settle e.kind s enclosing with
    | outermost s' =>
      rw [hnext] at h
      obtain rfl : errors = [] := h
      rfl
    | within mode enclosing' =>
      rw [hnext] at h
      obtain ⟨hnone, rfl⟩ := List.append_eq_nil_iff.1 h
      obtain ⟨rfl, rfl⟩ := Grammar.unfinished_eq_nil he hnone
      rfl
    | atElse test yes outer =>
      exact absurd hnext (Stage.settle_ne_atElse (he ▸ by decide) _ _ _ _ _)

/-- Where reading settles before the first token makes no difference to what it finds. -/
theorem run_settled (recover : Bool) (r : Reading) (t : Token) (ts : List Token) :
    (run recover (r.settled t.kind) (t :: ts)).statements = (run recover r (t :: ts)).statements ∧
      (run recover (r.settled t.kind) (t :: ts)).errors = (run recover r (t :: ts)).errors := by
  by_cases ht : t.kind = .eof
  · rw [run_eof ht, run_eof ht]
    exact (finish_settled r t).symm
  · rw [run, run, if_neg ht, if_neg ht, feed_settled]
    exact ⟨rfl, rfl⟩

theorem run_append {u : List Token} (hu : ∀ t ∈ u, t.kind ≠ .eof) (recover : Bool) (r : Reading)
    (h : (r.feeds u).errors = []) (w : List Token) :
    run recover r (u ++ w) = run recover (r.feeds u) w := by
  induction u generalizing r with
  | nil => rfl
  | cons t u ih =>
    obtain ⟨ht, hu⟩ := List.forall_mem_cons.1 hu
    have hnil : (r.feed t).errors = [] := errors_nil_of_feeds h
    rw [List.cons_append, run, if_neg ht, feeds_cons, ← ih hu _ h]
    simp [hnil]

end Reading

/-- If the first tokens are a program, those behind them are parsed as if they stood alone: their
statements follow those of the program, and their errors are all there are. -/
theorem parse_append {u v : List Token} {e e' : Token} {ss : List Stmt} {recover' : Bool}
    (hu : ∀ t ∈ u, t.kind ≠ .eof) (he' : e'.kind = .eof)
    (hparse : parse (u ++ [e']) recover' = ⟨ss, []⟩) (he : e.kind = .eof)
    (hv : ∀ t, v.head? = some t → t.kind ≠ .kwElse) (recover : Bool) :
    parse (u ++ v ++ [e]) recover =
      ⟨ss ++ (parse (v ++ [e]) recover).statements, (parse (v ++ [e]) recover).errors⟩ := by
  obtain ⟨hfinish, rfl⟩ := (parse_eq_ok_iff he' hu recover' ss).1 hparse
  have hfeeds := Reading.errors_nil_of_finish hfinish
  have hstage := Reading.stage_feeds (r := .start) nofun hfeeds
  obtain ⟨t, ts, hts, ht⟩ : ∃ t ts, v ++ [e] = t :: ts ∧ t.kind ≠ .kwElse := by
    cases v with
    | nil => exact ⟨e, [], rfl, he ▸ by decide⟩
    | cons t v => exact ⟨t, v ++ [e], rfl, hv t rfl⟩
  obtain ⟨hstatements, herrors⟩ := Reading.run_settled recover (Reading.start.feeds u) t ts
  rw [Reading.settled_of_finish he' hstage hfinish ht, Reading.run_after] at hstatements herrors
  rw [List.append_assoc, hts, parse, parse, Reading.run_append hu _ _ hfeeds, ← hstatements,
    ← herrors]
  simp [Reading.after]

/-- Behind `while (a) if (b) c;` a parenthesis is wrong, and the `else` that comes later has no `if`
to belong to. -/
theorem wrong_tokens_appended :
    let word (k : TokenKind) (s : String) : Token := ⟨k, s, none, 1, ⟨0, 0⟩⟩
    let u := [word .kwWhile "while", word .leftParen "(", word .identifier "a",
      word .rightParen ")", word .kwIf "if", word .leftParen "(", word .identifier "b",
      word .rightParen ")", word .identifier "c", word .semicolon ";"]
    let v := [word .rightParen ")", word .semicolon ";", word .kwElse "else",
      word .semicolon ";", word .identifier "d", word .semicolon ";"]
    let e := Token.eof 1 0
    (∀ t ∈ u, t.kind ≠ .eof) ∧ e.kind = .eof ∧ (parse (u ++ [e]) false).errors = [] ∧
      (∀ t, v.head? = some t → t.kind ≠ .kwElse) ∧
      (parse (u ++ v ++ [e]) true).statements.length = 2 ∧
      (parse (u ++ v ++ [e]) true).errors = (parse (v ++ [e]) true).errors ∧
      (parse (v ++ [e]) true).errors.map (·.token.kind) = [.rightParen, .kwElse] := by
  intro word u v e
  have hu : ∀ t ∈ u, t.kind ≠ .eof := by decide
  have hv : ∀ t, v.head? = some t → t.kind ≠ .kwElse := by
    rintro t ⟨⟩
    decide
  have hparse : (parse (u ++ [e]) false).errors = [] := rfl
  have hprogram : parse (u ++ [e]) false = ⟨(parse (u ++ [e]) false).statements, []⟩ :=
    congrArg (Parsed.mk _) hparse
  have happend := parse_append hu rfl hprogram (e := e) rfl hv true
  refine ⟨hu, rfl, hparse, hv, ?_, ?_, by cbv⟩
  · rw [happend]
    cbv
  · rw [happend]

end TinyScript
