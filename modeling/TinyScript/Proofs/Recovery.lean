import Mathlib.Data.List.Perm.Subperm
import TinyScript.Proofs.Attempts
import TinyScript.Script

/-!
What recovery does and what it leaves alone. Each error blames a token of its own, and reading goes
on where a statement can begin. Up to the first error a parse does not depend on recovery, so a
source has the same outcome with it and without it.
-/

namespace TinyScript

namespace Attempt

/-- The index of the token that is wrong. -/
def blamed? (a : Attempt) : Option Nat := a.error?.map fun _ => a.stop

/-- The tokens between where the attempt leaves the cursor and where reading goes on. -/
def skipped (tokens : List Token) (a : Attempt) : List Token :=
  (tokens.drop a.left).take (a.resume tokens - a.left)

/-- The attempt has failed with `x`, and reading goes on at the next boundary. -/
structure Fails (tokens : List Token) (a : Attempt) (x : SyntaxError) : Prop where
  token : tokens[a.stop]? = some x.token
  line : x.toDiagnostic.line = x.token.line
  location : x.toDiagnostic.location =
    some (if x.token.kind = .eof then "at end" else "at '" ++ x.token.lexeme ++ "'")
  progress : a.start < a.resume tokens
  left_le : a.left ≤ a.resume tokens
  starter : ∀ t ∈ a.skipped tokens, TokenSet.statementStart.contains t.kind = false
  semicolon : ∀ t ∈ (a.skipped tokens).dropLast, t.kind ≠ .semicolon
  boundary : (∃ t, (a.skipped tokens).getLast? = some t ∧ t.kind = .semicolon) ∨
    ∃ t, tokens[a.resume tokens]? = some t ∧
      (TokenSet.statementStart.contains t.kind = true ∨ t.kind = .eof)

theorem ending_of_error? {a : Attempt} {x : SyntaxError} (h : a.error? = some x) :
    a.ending = .error x := by
  unfold error? at h
  split at h
  · cases h
  · next hending =>
    cases h
    exact hending

theorem stop_le_left (a : Attempt) : a.stop ≤ a.left := by
  unfold left
  split
  · exact Nat.le_refl _
  · split <;> omega

section

variable {tokens : List Token} {i : Nat} {a : Attempt}

theorem fails (h : at? tokens i = some a) (hi : tokens[i]?.map Token.kind ≠ some .eof)
    (hend : ∃ t ∈ tokens.drop i, t.kind = .eof) {x : SyntaxError} (hx : a.ending = .error x) :
    a.Fails tokens x := by
  obtain ⟨hstart, hends⟩ := at?_eq_some h
  have hresume := resume_of_error h hx hi
  have hskipped : a.skipped tokens =
      (tokens.drop a.left).take (synchronize (tokens.drop a.left)) := by
    rw [skipped, hresume, Nat.add_sub_cancel_left]
  have hskips := synchronize_skips (tokens.drop a.left)
  rw [← hskipped] at hskips
  refine ⟨(getElem?_stop h hx).1, rfl, ?_, hstart ▸ lt_resume h, by omega,
    fun t ht => (hskips.1 t ht).2, hskips.2, ?_⟩
  · change some x.location = _
    rw [SyntaxError.location]
  · rw [hskipped, hresume, ← List.getElem?_drop]
    exact synchronize_stops (eof_mem_drop_left h hend hx)

/-- What starts a statement does not end it. -/
theorem le_stop (h : at? tokens i = some a) : i ≤ a.stop ∧
    (tokens[i]?.map (TokenSet.statementStart.contains ·.kind) = some true → i < a.stop) := by
  obtain ⟨rfl, hends⟩ := at?_eq_some h
  obtain ⟨t, hdrop, ht⟩ := exists_of_at? h
  refine ⟨(Stage.le_of_ends hends).1, fun hstarter => ?_⟩
  rw [hdrop] at hends
  rcases Stage.ends_start hends with hlt | ⟨fault, hwrong, -, -⟩
  · exact hlt
  · rw [ht, Option.map_some, Option.some.injEq] at hstarter
    exact absurd hwrong (Stage.judge_starter hstarter fault)

end

end Attempt

/-- From an index on, no token is blamed twice. -/
theorem blamed_increasing {tokens : List Token} {i : Nat}
    (hend : ∃ t ∈ tokens.drop i, t.kind = .eof) :
    ((attempts tokens i).filterMap Attempt.blamed?).Pairwise (· < ·) ∧
      ∀ k ∈ (attempts tokens i).filterMap Attempt.blamed?, i ≤ k ∧
        (tokens[i]?.map (TokenSet.statementStart.contains ·.kind) = some true → i < k) := by
  refine attempts_induction (P := fun i as => (as.filterMap Attempt.blamed?).Pairwise (· < ·) ∧
    ∀ k ∈ as.filterMap Attempt.blamed?, i ≤ k ∧
      (tokens[i]?.map (TokenSet.statementStart.contains ·.kind) = some true → i < k)) ?_ ?_ i hend
  · intro i _
    simp
  · intro i a hend ha hi ⟨hincreasing, hlower⟩
    have hlt := Attempt.lt_resume ha
    cases hending : a.ending with
    | ok s =>
      have hnone : a.blamed? = none := by
        rw [Attempt.blamed?, Attempt.error?, hending]
        rfl
      rw [List.filterMap_cons_none hnone]
      refine ⟨hincreasing, fun k hk => ?_⟩
      have := (hlower k hk).1
      exact ⟨by omega, fun _ => by omega⟩
    | error x =>
      have hsome : a.blamed? = some a.stop := by
        rw [Attempt.blamed?, Attempt.error?, hending]
        rfl
      have hfails := Attempt.fails ha hi hend hending
      have hlater : ∀ k ∈ (attempts tokens (a.resume tokens)).filterMap Attempt.blamed?,
          a.stop < k := by
        intro k hk
        have hk' := hlower k hk
        by_cases hpast : a.stop < a.resume tokens
        · omega
        -- nothing was skipped, so the wrong token itself starts the next statement
        have hleft := hfails.left_le
        have hstop : a.stop ≤ a.left := Attempt.stop_le_left a
        have hnone : a.skipped tokens = [] := by
          rw [Attempt.skipped, show a.resume tokens - a.left = 0 by omega, List.take_zero]
        rcases hfails.boundary with ⟨t, ht, -⟩ | ⟨t, ht, hstarter | heof⟩
        · rw [hnone] at ht
          cases ht
        · have := hk'.2 (by rw [ht, Option.map_some, hstarter])
          omega
        · rw [attempts_end (by rw [ht, Option.map_some, heof])] at hk
          cases hk
      rw [List.filterMap_cons_some hsome]
      refine ⟨List.pairwise_cons.2 ⟨hlater, hincreasing⟩, ?_⟩
      have hstop := Attempt.le_stop ha
      intro k hk
      rcases List.mem_cons.1 hk with rfl | hk
      · exact hstop
      · have := hlater k hk
        exact ⟨by omega, fun hstarter => by omega⟩

/-- The attempts follow one another up to the end: each begins where reading goes on after the one
before it, and what is found from there on is what a parse of the other tokens gives. -/
inductive Linked (tokens : List Token) : Nat → List Attempt → Prop where
  | stop {i : Nat} (hi : tokens[i]?.map Token.kind = some .eof) : Linked tokens i []
  | step {i : Nat} {a : Attempt} {as : List Attempt} (ha : Attempt.at? tokens i = some a)
      (hi : tokens[i]?.map Token.kind ≠ some .eof)
      (hparse : parse (tokens.drop i) true = ⟨(a :: as).filterMap Attempt.statement?,
        (a :: as).filterMap Attempt.error?⟩)
      (hrest : Linked tokens (a.resume tokens) as) : Linked tokens i (a :: as)

theorem linked_attempts {tokens : List Token} {i : Nat}
    (hend : ∃ t ∈ tokens.drop i, t.kind = .eof) : Linked tokens i (attempts tokens i) := by
  refine attempts_induction (P := Linked tokens) (fun i hi => .stop hi) ?_ i hend
  intro i a hend ha hi ih
  refine .step ha hi ?_ ih
  rw [← attempts_cons hi ha]
  exact parse_eq_attempts hend

theorem attempts_fail {tokens : List Token} {i : Nat}
    (hend : ∃ t ∈ tokens.drop i, t.kind = .eof) :
    ∀ a ∈ attempts tokens i, ∀ x, a.ending = .error x → a.Fails tokens x := by
  refine attempts_induction (P := fun _ as => ∀ a ∈ as, ∀ x, a.ending = .error x →
    a.Fails tokens x) ?_ ?_ i hend
  · intro i _ a ha
    cases ha
  · intro i a hend ha hi ih b hb x hx
    rcases List.mem_cons.1 hb with rfl | hb
    · exact Attempt.fails ha hi hend hx
    · exact ih b hb x hx

/-- With recovery a parse consists of attempts that follow one another up to the end. The tokens
that are blamed come in order, so none is blamed twice; each attempt that fails is followed by
another one later on; and what is skipped between them ends at the first semicolon, or in front of
the first token that starts a statement. -/
theorem recovery_resumes_at_boundaries {w : List Token} {e : Token} (he : e.kind = .eof) :
    let as := attempts (w ++ [e]) 0
    parse (w ++ [e]) true =
        ⟨as.filterMap Attempt.statement?, as.filterMap Attempt.error?⟩ ∧
      Linked (w ++ [e]) 0 as ∧ (as.filterMap Attempt.blamed?).Pairwise (· < ·) ∧
      (parse (w ++ [e]) true).errors.length ≤ w.length + 1 ∧
      ∀ a ∈ as, ∀ x, a.ending = .error x → a.Fails (w ++ [e]) x := by
  intro as
  have hend : ∃ t ∈ (w ++ [e]).drop 0, t.kind = .eof := ⟨e, by simp, he⟩
  have hparse : parse (w ++ [e]) true = _ := parse_eq_attempts hend
  have hfails := attempts_fail hend
  have hincreasing := (blamed_increasing hend).1
  refine ⟨hparse, linked_attempts hend, hincreasing, ?_, hfails⟩
  have hlength : (as.filterMap Attempt.error?).length = (as.filterMap Attempt.blamed?).length := by
    have hblamed : Attempt.blamed? = fun a => a.error?.map fun _ => a.stop := rfl
    simp only [hblamed, List.length_filterMap_eq_countP, Option.isSome_map]
  have hrange : as.filterMap Attempt.blamed? ⊆ List.range (w.length + 1) := by
    intro k hk
    obtain ⟨a, ha, hk⟩ := List.mem_filterMap.1 hk
    obtain ⟨x, hx, rfl⟩ := Option.map_eq_some_iff.1 hk
    obtain ⟨hlt, -⟩ := List.getElem?_eq_some_iff.1 (hfails a ha x (Attempt.ending_of_error? hx)).token
    rw [List.length_append, List.length_singleton] at hlt
    exact List.mem_range.2 hlt
  have hsub := List.subperm_of_subset (hincreasing.imp Nat.ne_of_lt) hrange
  rw [hparse, hlength]
  simpa using hsub.length_le

/-- In `print var var; x + x = ); ; x` a `var` is wrong and starts the next statement, the equals
sign has been read when it is wrong, and a semicolon is skipped by itself. -/
theorem second_var_resumes :
    let word (k : TokenKind) (s : String) : Token := ⟨k, s, none, 1, ⟨0, 0⟩⟩
    let w := [word .kwPrint "print", word .kwVar "var", word .kwVar "var", word .semicolon ";",
      word .identifier "x", word .plus "+", word .identifier "x", word .equal "=",
      word .rightParen ")", word .semicolon ";", word .semicolon ";", word .identifier "x"]
    let tokens := w ++ [Token.eof 1 0]
    (Token.eof 1 0).kind = .eof ∧
      (attempts tokens 0).map (fun a => (a.start, a.stop, a.left, a.resume tokens)) =
        [(0, 1, 1, 1), (1, 2, 2, 2), (2, 3, 3, 4), (4, 7, 8, 10), (10, 10, 10, 11),
          (11, 12, 12, 12)] ∧
      ∀ a ∈ attempts tokens 0, ∀ x, a.ending = .error x → a.Fails tokens x := by
  intro word w tokens
  have he : (Token.eof 1 0).kind = .eof := rfl
  obtain ⟨-, -, -, -, hfails⟩ := recovery_resumes_at_boundaries (w := w) he
  exact ⟨he, by decide +kernel, hfails⟩

namespace Reading

/-- What has been read and what was wrong is kept. -/
structure Grows (r r' : Reading) : Prop where
  statements : r.statements <:+ r'.statements
  errors : r.errors <:+ r'.errors

namespace Grows

theorem refl (r : Reading) : Grows r r := ⟨List.suffix_refl _, List.suffix_refl _⟩

theorem trans {r r' r'' : Reading} (h : Grows r r') (h' : Grows r' r'') : Grows r r'' :=
  ⟨h.statements.trans h'.statements, h.errors.trans h'.errors⟩

end Grows

theorem statements_proceed (r : Reading) (t : Token) (next : Stage.Next) :
    (r.proceed t next).statements = r.statements := by
  cases next <;> rfl

theorem grows_feed (r : Reading) (t : Token) : Grows r (r.feed t) := by
  refine ⟨?_, errors_suffix_feed r t⟩
  unfold feed
  split
  · exact List.suffix_refl _
  · exact ⟨[], (statements_proceed _ _ _).symm⟩
  · split
    · rw [statements_proceed]
      exact List.suffix_cons _ _
    · exact ⟨[], (statements_proceed _ _ _).symm⟩
    · exact List.suffix_refl _

theorem grows_finish (r : Reading) (t : Token) : Grows r (r.finish t) := by
  refine ⟨?_, errors_suffix_finish r t⟩
  unfold finish
  split
  · exact List.suffix_refl _
  · exact List.suffix_refl _
  · split
    · exact List.suffix_cons _ _
    · exact List.suffix_refl _
    · exact List.suffix_refl _

theorem grows_run (recover : Bool) (r : Reading) (ts : List Token) :
    Grows r (run recover r ts) := by
  induction ts generalizing r with
  | nil => exact grows_finish r _
  | cons t ts ih =>
    rw [run]
    split
    · exact grows_finish r t
    · dsimp only
      split
      · exact (grows_feed r t).trans (ih _)
      · exact grows_feed r t

/-- A reading that does not recover is one that does, or stops at the first error of one. -/
theorem run_cases (r : Reading) (hr : r.errors = []) (ts : List Token) :
    (run false r ts).errors = [] ∧ run true r ts = run false r ts ∨
      (∃ x, (run false r ts).errors = [x]) ∧ Grows (run false r ts) (run true r ts) := by
  have hend : ∀ {r : Reading} (t : Token), r.errors = [] → (r.finish t).errors = [] ∧
      r.finish t = r.finish t ∨ (∃ x, (r.finish t).errors = [x]) ∧
        Grows (r.finish t) (r.finish t) := by
    intro r t hr
    rcases first_error_finish hr t with hnone | ⟨fault, hfault⟩
    · exact .inl ⟨hnone, rfl⟩
    · exact .inr ⟨⟨_, hfault⟩, .refl _⟩
  induction ts generalizing r with
  | nil => exact hend _ hr
  | cons t ts ih =>
    by_cases heof : t.kind = .eof
    · rw [run_eof heof, run_eof heof]
      exact hend t hr
    have htrue : run true r (t :: ts) = run true (r.feed t) ts := by
      rw [run, if_neg heof]
      rfl
    rw [htrue, run_cons heof]
    rcases first_error_feed hr t with hnone | ⟨fault, hfault⟩
    · rw [if_pos hnone]
      exact ih _ hnone
    · rw [if_neg (by rw [hfault]; exact List.cons_ne_nil _ _)]
      exact .inr ⟨⟨_, hfault⟩, grows_run true _ ts⟩

end Reading

/-- Up to its first error a parse is the same with recovery and without. -/
theorem parse_cases (tokens : List Token) :
    (parse tokens false).errors = [] ∧ parse tokens true = parse tokens false ∨
      (∃ x, (parse tokens false).errors = [x]) ∧
        (parse tokens false).statements <+: (parse tokens true).statements ∧
        (parse tokens false).errors <+: (parse tokens true).errors := by
  rcases Reading.run_cases .start rfl tokens with ⟨hnone, hsame⟩ | ⟨⟨x, hx⟩, hgrows⟩
  · refine .inl ⟨?_, ?_⟩
    · rw [parse, hnone, List.reverse_nil]
    · rw [parse, parse, hsame]
  · refine .inr ⟨⟨x, ?_⟩, ?_, ?_⟩
    · rw [parse, hx, List.reverse_singleton]
    · exact List.reverse_prefix.2 hgrows.statements
    · exact List.reverse_prefix.2 hgrows.errors

/-- A source with an error in it is not run, however it is read. -/
theorem runSource_of_diagnostics {rounds : Nat} {config : RunConfig} {sink : Sink}
    {source : String} (h : (Script.read source config.recover).diagnostics ≠ []) :
    runSource rounds config sink source =
      some ⟨(Script.read source config.recover).diagnostics, .dataError, sink⟩ := by
  rw [runSource]
  rw [if_neg (by rwa [List.isEmpty_iff])]

/-- A source that is read in the same way does the same. -/
theorem runSource_of_read {rounds : Nat} {scoping : ScopeMode} {recover recover' : Bool}
    {sink : Sink} {source : String} (h : Script.read source recover = Script.read source recover') :
    runSource rounds ⟨scoping, recover⟩ sink source =
      runSource rounds ⟨scoping, recover'⟩ sink source := by
  rw [runSource, runSource, h]

/-- Recovery adds to what is reported behind the first error of syntax, and changes nothing else:
not what is read before it, not whether there is one, and not what becomes of a source. -/
theorem recovery_keeps_outcome :
    (∀ tokens : List Token,
      (parse tokens false).errors = (parse tokens true).errors.take 1 ∧
      ((parse tokens false).errors = [] ↔ (parse tokens true).errors = []) ∧
      (parse tokens false).statements <+: (parse tokens true).statements ∧
      ((parse tokens true).errors = [] → parse tokens true = parse tokens false)) ∧
    ∀ (rounds : Nat) (scoping : ScopeMode) (sink : Sink) (source : String),
      Option.Rel (fun o o' => o.status = o'.status ∧ o.sink = o'.sink ∧
          o.diagnostics <+: o'.diagnostics)
        (runSource rounds ⟨scoping, false⟩ sink source)
        (runSource rounds ⟨scoping, true⟩ sink source) := by
  refine ⟨fun tokens => ?_, fun rounds scoping sink source => ?_⟩
  · rcases parse_cases tokens with ⟨hnone, hsame⟩ | ⟨⟨x, hx⟩, hstatements, herrors⟩
    · rw [hsame, hnone]
      exact ⟨rfl, Iff.rfl, List.prefix_refl _, fun _ => rfl⟩
    · rw [hx] at herrors ⊢
      obtain ⟨more, hmore⟩ := herrors
      rw [← hmore]
      exact ⟨rfl, iff_of_false (List.cons_ne_nil _ _) (List.cons_ne_nil _ _), hstatements, nofun⟩
  · rcases parse_cases (scan source).tokens with ⟨-, hsame⟩ | ⟨⟨x, hx⟩, -, herrors⟩
    · have hread : Script.read source false = Script.read source true := by
        rw [Script.read, Script.read, hsame]
      rw [runSource_of_read hread]
      cases runSource rounds ⟨scoping, true⟩ sink source with
      | none => exact .none
      | some o => exact .some ⟨rfl, rfl, List.prefix_refl _⟩
    · have hprefix : (Script.read source false).diagnostics <+:
          (Script.read source true).diagnostics :=
        (List.prefix_append_right_inj _).2 (herrors.map _)
      have hplain : (Script.read source false).diagnostics ≠ [] := by
        rw [Script.read, hx]
        exact List.append_ne_nil_of_right_ne_nil _ (List.cons_ne_nil _ _)
      have hrecover : (Script.read source true).diagnostics ≠ [] :=
        fun hnone => hplain (List.prefix_nil.1 (hnone ▸ hprefix))
      rw [runSource_of_diagnostics hplain, runSource_of_diagnostics hrecover]
      exact .some ⟨rfl, rfl, hprefix⟩

/-- In `x x;` and in a source that goes wrong once more, what is found first is found either way. -/
theorem missing_semicolon_found_first :
    let word (k : TokenKind) (s : String) : Token := ⟨k, s, none, 1, ⟨0, 0⟩⟩
    let good := [word .identifier "x", word .semicolon ";", Token.eof 1 0]
    let bad := [word .identifier "x", word .identifier "x", word .semicolon ";",
      word .plus "+", Token.eof 1 0]
    (parse good true).errors = [] ∧ parse good true = parse good false ∧
      (parse bad true).errors.map (·.fault) =
        [.expectedToken .semicolon "after expression", .expectedExpression] ∧
      (parse bad false).errors = (parse bad true).errors.take 1 := by
  intro word good bad
  have hgood : (parse good true).errors = [] := by
    rw [← List.length_eq_zero_iff]
    decide +kernel
  exact ⟨hgood, (recovery_keeps_outcome.1 good).2.2.2 hgood, by decide +kernel,
    (recovery_keeps_outcome.1 bad).1⟩

end TinyScript
