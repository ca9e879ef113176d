import TinyScript.Proofs.Soundness

/-!
An error of syntax is reported as soon as it is there. What has been read before can always be
completed, whatever the stage: parentheses, blocks and clauses are closed one after the other. And
once a token has been refused, no later token is looked at.
-/

namespace TinyScript

theorem Stage.settle_ne_atElse {k : TokenKind} (hk : k ≠ .kwElse) (s : Stmt)
    (enclosing : List Enclosing) (test : Expr) (yes : Stmt) (outer : List Enclosing) :
    settle k s enclosing ≠ .atElse test yes outer := by
  induction enclosing generalizing s with
  | nil =>
    intro h
    cases h
  | cons head rest ih =>
    cases head with
    | block before =>
      intro h
      cases h
    | thenBranch test =>
      rw [settle, if_neg hk]
      exact ih _
    | elseBranch test yes => exact ih _
    | whileBody test => exact ih _
    | forInit =>
      intro h
      cases h
    | forBody init test step => exact ih _

theorem Pending.length_close_le (l : Level) (e : Expr) (ps : List Pending) :
    (close l e ps).2.length ≤ ps.length := by
  induction ps generalizing e with
  | nil => exact Nat.le_refl _
  | cons p ps ih =>
    rw [close]
    split
    · exact Nat.le_succ_of_le (ih _)
    · exact Nat.le_refl _

namespace Reading

/-- A token for completing a program. -/
def filler (k : TokenKind) : Token := ⟨k, "", none, 1, ⟨0, 0⟩⟩

/-- The kinds of token that suffice to complete any beginning. -/
def closers : List TokenKind :=
  [.leftParen, .rightParen, .leftBrace, .rightBrace, .semicolon, .equal, .identifier, .kwNull]

theorem filler_fair : ∀ k ∈ closers, (filler k).kind ≠ .eof ∧ Grammar.Carried (filler k) := by
  unfold Grammar.Carried
  decide

/-- Some tokens complete the program. -/
def Completable (r : Reading) : Prop :=
  ∃ ks : List TokenKind, (∀ k ∈ ks, k ∈ closers) ∧
    ∀ e : Token, e.kind = .eof → ((r.feeds (ks.map filler)).finish e).errors = []

namespace Completable

/-- One token in a mode that expects it. -/
theorem step {mode : Mode} {enclosing : List Enclosing} {out : List Stmt} {stage : Stage}
    (k : TokenKind) (hk : k ∈ closers)
    (hstep : Stage.step mode enclosing (filler k) = .ok stage)
    (h : Completable (clean stage out)) : Completable (clean (.inside mode enclosing) out) := by
  obtain ⟨ks, hks, h⟩ := h
  refine ⟨k :: ks, List.forall_mem_cons.2 ⟨hk, hks⟩, fun e he => ?_⟩
  rw [List.map_cons, feeds_cons, feed_of_step hstep]
  exact h e he

/-- Completions do not start with an `else`, so a statement may be settled first. -/
theorem settled {r r' : Reading} (h : ∀ k ≠ .kwElse, r.settled k = r'.settled k)
    (hr : Completable r') : Completable r := by
  obtain ⟨ks, hks, hfinish⟩ := hr
  refine ⟨ks, hks, fun e he => ?_⟩
  cases ks with
  | nil =>
    have hk := h e.kind (he ▸ by decide)
    exact (finish_settled r e).1.symm.trans
      (hk ▸ (finish_settled r' e).1.trans (hfinish e he))
  | cons k ks =>
    have hne : k ≠ .kwElse := by
      rintro rfl
      exact absurd (List.forall_mem_cons.1 hks).1 (by decide)
    have hfeeds : r.feeds ((k :: ks).map filler) = r'.feeds ((k :: ks).map filler) := by
      rw [List.map_cons, ← feeds_settled r, ← feeds_settled r']
      exact congrArg (Reading.feeds · _) (h k hne)
    rw [hfeeds]
    exact hfinish e he

/-- The statement and what encloses it may be put in another form that leads to the same. -/
theorem finished_congr {s s' : Stmt} {enclosing enclosing' : List Enclosing} {out : List Stmt}
    (h : ∀ k ≠ .kwElse, Stage.settle k s enclosing = Stage.settle k s' enclosing')
    (hs : Completable (clean (.finished s' enclosing') out)) :
    Completable (clean (.finished s enclosing) out) := by
  refine settled (fun k hk => ?_) hs
  simp only [Reading.settled, clean, h k hk]
  split
  · rfl
  · rfl
  · next heq => exact absurd heq (Stage.settle_ne_atElse hk _ _ _ _ _)

/-- An empty block is a statement. -/
theorem statement_of_finished {enclosing : List Enclosing} {out : List Stmt}
    (h : Completable (clean (.finished (.block []) enclosing) out)) :
    Completable (clean (.inside .statement enclosing) out) := by
  have hopen : Stage.step .statement enclosing (filler .leftBrace) =
      .ok (.inside .statement (.block [] :: enclosing)) := by
    cases enclosing <;> rfl
  have hclose : Stage.step .statement (.block [] :: enclosing) (filler .rightBrace) =
      .ok (.finished (.block []) enclosing) := rfl
  exact step .leftBrace (by decide) hopen (step .rightBrace (by decide) hclose h)

theorem finished (enclosing : List Enclosing) (s : Stmt) (out : List Stmt) :
    Completable (clean (.finished s enclosing) out) := by
  induction enclosing generalizing s out with
  | nil => exact ⟨[], nofun, fun e _ => rfl⟩
  | cons head outer ih =>
    cases head with
    | block before =>
      have hbrace : Stage.step .statement (.block (s :: before) :: outer) (filler .rightBrace) =
          .ok (.finished (.block (s :: before).reverse) outer) := rfl
      have hsame : ∀ k ≠ .kwElse, (clean (.finished s (.block before :: outer)) out).settled k =
          (clean (.inside .statement (.block (s :: before) :: outer)) out).settled k :=
        fun k _ => rfl
      exact settled hsame (step .rightBrace (by decide) hbrace (ih _ out))
    | thenBranch test =>
      have hsame : ∀ k ≠ .kwElse, Stage.settle k s (.thenBranch test :: outer) =
          Stage.settle k (.ifThen test s) outer := fun k hk => if_neg hk
      exact finished_congr hsame (ih _ out)
    | elseBranch test yes =>
      have hsame : ∀ k ≠ .kwElse, Stage.settle k s (.elseBranch test yes :: outer) =
          Stage.settle k (.ifElse test yes s) outer := fun k _ => rfl
      exact finished_congr hsame (ih _ out)
    | whileBody test =>
      have hsame : ∀ k ≠ .kwElse, Stage.settle k s (.whileBody test :: outer) =
          Stage.settle k (.while test s) outer := fun k _ => rfl
      exact finished_congr hsame (ih _ out)
    | forInit =>
      -- the remaining clauses may be empty, and the body an empty block
      have hbody : ∀ k ≠ .kwElse, Stage.settle k (.block [])
          (.forBody (some s) (.literal (.boolean true)) none :: outer) =
          Stage.settle k (.counting (some s) (.literal (.boolean true)) none (.block [])) outer :=
        fun k _ => rfl
      have hsemicolon : Stage.step (.forTest (some s)) outer (filler .semicolon) =
          .ok (.inside (.forStep (some s) (.literal (.boolean true))) outer) := rfl
      have hparen : Stage.step (.forStep (some s) (.literal (.boolean true))) outer
          (filler .rightParen) = .ok (.inside .statement
            (.forBody (some s) (.literal (.boolean true)) none :: outer)) := rfl
      have hsame : ∀ k ≠ .kwElse, (clean (.finished s (.forInit :: outer)) out).settled k =
          (clean (.inside (.forTest (some s)) outer) out).settled k := fun k _ => rfl
      exact settled hsame (step .semicolon (by decide) hsemicolon
        (step .rightParen (by decide) hparen
          (statement_of_finished (finished_congr hbody (ih _ out)))))
    | forBody init test clause =>
      have hsame : ∀ k ≠ .kwElse, Stage.settle k s (.forBody init test clause :: outer) =
          Stage.settle k (.counting init test clause s) outer := fun k _ => rfl
      exact finished_congr hsame (ih _ out)

theorem statement (enclosing : List Enclosing) (out : List Stmt) :
    Completable (clean (.inside .statement enclosing) out) :=
  statement_of_finished (finished enclosing _ out)

theorem forStep (init : Option Stmt) (test : Expr) (enclosing : List Enclosing)
    (out : List Stmt) : Completable (clean (.inside (.forStep init test) enclosing) out) :=
  step .rightParen (by decide) rfl (statement (.forBody init test none :: enclosing) out)

theorem fulfil (purpose : Purpose) (e : Expr) (enclosing : List Enclosing) (out : List Stmt) :
    Completable (clean (purpose.fulfil e enclosing) out) := by
  cases purpose with
  | print | initial _ | discard => exact finished enclosing _ out
  | ifTest | whileTest | forStep _ _ => exact statement _ out
  | forTest init => exact forStep init e enclosing out

theorem operator (ps : List Pending) (e : Expr) (purpose : Purpose) (enclosing : List Enclosing)
    (out : List Stmt) : Completable (clean (.inside (.operator e ps purpose) enclosing) out) := by
  -- each closing parenthesis ends one of the groups that are open
  induction hn : ps.length using Nat.strongRecOn generalizing ps e with
  | ind n ih =>
    have hlength := Pending.length_close_le .assignment e ps
    have hstep : ∀ k, k = .rightParen ∨ k = .semicolon →
        Stage.step (.operator e ps purpose) enclosing (filler k) =
          Stage.ending e ps purpose enclosing (filler k) := by
      rintro k (rfl | rfl) <;> rfl
    rcases hclose : Pending.close .assignment e ps with ⟨e', _ | ⟨p, ps'⟩⟩
    · have hend : Stage.step (.operator e ps purpose) enclosing (filler purpose.terminator.1) =
          .ok (purpose.fulfil e' enclosing) := by
        rw [hstep _ purpose.terminator_kind.symm, Stage.ending, hclose]
        exact if_pos rfl
      have hk : purpose.terminator.1 ∈ closers := by
        rcases purpose.terminator_kind with hp | hp <;> rw [hp] <;> decide
      exact step _ hk hend (fulfil purpose e' enclosing out)
    · have hend : Stage.step (.operator e ps purpose) enclosing (filler .rightParen) =
          .ok (.inside (.operator (p.complete e') ps' purpose) enclosing) := by
        rw [hstep _ (.inl rfl), Stage.ending, hclose]
        rfl
      rw [hclose, List.length_cons] at hlength
      exact step .rightParen (by decide) hend (ih ps'.length (by omega) ps' (p.complete e') rfl)

theorem operand (ps : List Pending) (purpose : Purpose) (enclosing : List Enclosing)
    (out : List Stmt) : Completable (clean (.inside (.operand ps purpose) enclosing) out) :=
  step .kwNull (by decide) rfl (operator ps (.literal .null) purpose enclosing out)

theorem forTest (init : Option Stmt) (enclosing : List Enclosing) (out : List Stmt) :
    Completable (clean (.inside (.forTest init) enclosing) out) :=
  step .semicolon (by decide) rfl (forStep init (.literal (.boolean true)) enclosing out)

theorem forInit (enclosing : List Enclosing) (out : List Stmt) :
    Completable (clean (.inside .forInit enclosing) out) :=
  step .semicolon (by decide) rfl (forTest none enclosing out)

theorem inside (mode : Mode) (enclosing : List Enclosing) (out : List Stmt) :
    Completable (clean (.inside mode enclosing) out) := by
  have hequal : ∀ x, Completable (clean (.inside (.varEqual x) enclosing) out) :=
    fun x => step .equal (by decide) rfl (operand [] (.initial x) enclosing out)
  cases mode with
  | statement => exact statement enclosing out
  | operand ps purpose => exact operand ps purpose enclosing out
  | operator e ps purpose => exact operator ps e purpose enclosing out
  | ifParen => exact step .leftParen (by decide) rfl (operand [] .ifTest enclosing out)
  | whileParen => exact step .leftParen (by decide) rfl (operand [] .whileTest enclosing out)
  | forParen => exact step .leftParen (by decide) rfl (forInit enclosing out)
  | forInit => exact forInit enclosing out
  | forTest init => exact forTest init enclosing out
  | forStep init test => exact forStep init test enclosing out
  | varName => exact step .identifier (by decide) rfl (hequal ⟨"", 1⟩)
  | varEqual x => exact hequal x

/-- Whatever has been read without error is the beginning of a program. -/
theorem of_errors_nil {r : Reading} (h : r.errors = []) : Completable r := by
  obtain ⟨stage, out, errors⟩ := r
  subst h
  cases stage with
  | none => exact ⟨[], nofun, fun e _ => rfl⟩
  | some stage =>
    cases stage with
    | inside mode enclosing => exact inside mode enclosing out
    | finished s enclosing => exact finished enclosing s out

end Completable

/-- The index of the token at which reading stops with an error. -/
def stop (r : Reading) : List Token → Option Nat
  | [] => none
  | t :: ts =>
    if t.kind = .eof then if (r.finish t).errors.isEmpty then none else some 0
    else if (r.feed t).errors.isEmpty then (stop (r.feed t) ts).map (· + 1) else some 0

theorem first_error_feed {r : Reading} (hr : r.errors = []) (t : Token) :
    (r.feed t).errors = [] ∨ ∃ fault, (r.feed t).errors = [⟨fault, t⟩] := by
  have h := r.errors_feed t
  rwa [hr] at h

theorem first_error_finish {r : Reading} (hr : r.errors = []) (t : Token) :
    (r.finish t).errors = [] ∨ ∃ fault, (r.finish t).errors = [⟨fault, t⟩] := by
  have h := r.errors_finish t
  rwa [hr] at h

/-- A reading that fails stops at one token: up to there it had no error, the error blames that
token, and what follows it makes no difference. -/
theorem stop_of_errors {w : List Token} {e : Token} (he : e.kind = .eof)
    (hw : ∀ t ∈ w, t.kind ≠ .eof) (r : Reading) (hr : r.errors = [])
    (herrors : (run false r (w ++ [e])).errors ≠ []) :
    ∃ k t fault, stop r (w ++ [e]) = some k ∧ k ≤ w.length ∧ (w ++ [e])[k]? = some t ∧
      (run false r (w ++ [e])).errors = [⟨fault, t⟩] ∧ (r.feeds (w.take k)).errors = [] ∧
      ∀ rest, (run false r ((w ++ [e]).take (k + 1) ++ rest)).errors ≠ [] := by
  induction w generalizing r with
  | nil =>
    rw [List.nil_append, run_eof he] at herrors ⊢
    obtain hn | ⟨fault, hfault⟩ := first_error_finish hr e
    · exact absurd hn herrors
    · refine ⟨0, e, fault, ?_, Nat.le_refl 0, rfl, hfault, hr, fun rest => ?_⟩
      · rw [stop, if_pos he, hfault]
        rfl
      · exact (run_eof he r false rest).symm ▸ herrors
  | cons t w ih =>
    obtain ⟨ht, hw⟩ := List.forall_mem_cons.1 hw
    rw [List.cons_append] at herrors ⊢
    obtain hn | ⟨fault, hfault⟩ := first_error_feed hr t
    · rw [run_cons ht, if_pos hn] at herrors
      obtain ⟨k, u, fault, hstop, hk, hu, hfault, hbefore, hafter⟩ := ih hw (r.feed t) hn herrors
      refine ⟨k + 1, u, fault, ?_, Nat.succ_le_succ hk, hu, ?_, hbefore, fun rest => ?_⟩
      · rw [stop, if_neg ht, hn, hstop]
        rfl
      · rw [run_cons ht, if_pos hn]
        exact hfault
      · rw [List.take_succ_cons, List.cons_append, run_cons ht, if_pos hn]
        exact hafter rest
    · have hne : (r.feed t).errors ≠ [] := by
        rw [hfault]
        exact List.cons_ne_nil _ _
      refine ⟨0, t, fault, ?_, Nat.zero_le _, rfl, ?_, hr, fun rest => ?_⟩
      · rw [stop, if_neg ht, hfault]
        rfl
      · rw [run_cons ht, if_neg hne]
        exact hfault
      · rw [List.take_succ_cons, List.cons_append, run_cons ht, if_neg hne]
        exact hne

end Reading

/-- The error of a parse is at the first token with which no program goes on: the tokens before it
are the beginning of one, and those up to and including it are not. -/
theorem parse_error_at_first_wrong_token {w : List Token} {e : Token} (he : e.kind = .eof)
    (hw : ∀ t ∈ w, t.kind ≠ .eof) (herrors : (parse (w ++ [e]) false).errors ≠ []) :
    ∃ k t fault, Reading.start.stop (w ++ [e]) = some k ∧ k ≤ w.length ∧
      (w ++ [e])[k]? = some t ∧ (parse (w ++ [e]) false).errors = [⟨fault, t⟩] ∧
      (∃ x : List Token, (∀ u ∈ x, u.kind ≠ .eof ∧ Grammar.Carried u) ∧
        (parse (w.take k ++ x ++ [e]) false).errors = []) ∧
      ∀ v : List Token, (w ++ [e]).take (k + 1) <+: v → (parse v false).errors ≠ [] := by
  have hreverse : ∀ v, (parse v false).errors = (Reading.run false .start v).errors.reverse :=
    fun _ => rfl
  rw [hreverse, ne_eq, List.reverse_eq_nil_iff] at herrors
  obtain ⟨k, t, fault, hstop, hk, ht, hfault, hbefore, hafter⟩ :=
    Reading.stop_of_errors he hw .start rfl herrors
  refine ⟨k, t, fault, hstop, hk, ht, ?_, ?_, ?_⟩
  · rw [hreverse, hfault]
    rfl
  · obtain ⟨ks, hks, hfinish⟩ := Reading.Completable.of_errors_nil hbefore
    have hx : ∀ u ∈ ks.map Reading.filler, u.kind ≠ .eof ∧ Grammar.Carried u := by
      intro u hu
      obtain ⟨kind, hkind, rfl⟩ := List.mem_map.1 hu
      exact Reading.filler_fair kind (hks kind hkind)
    have hall : ∀ u ∈ w.take k ++ ks.map Reading.filler, u.kind ≠ .eof := by
      intro u hu
      obtain hu | hu := List.mem_append.1 hu
      · exact hw u (List.mem_of_mem_take hu)
      · exact (hx u hu).1
    refine ⟨ks.map Reading.filler, hx, ?_⟩
    rw [hreverse, List.reverse_eq_nil_iff, Reading.run_errors_nil_iff he hall,
      Reading.feeds_append]
    exact hfinish e he
  · rintro v ⟨rest, rfl⟩
    rw [hreverse, ne_eq, List.reverse_eq_nil_iff]
    exact hafter rest

/-- In `print a; b + c = "s";` the equals sign is wrong, although an operator could stand there. -/
theorem sum_as_target_error_at_equals :
    let word (k : TokenKind) (s : String) : Token := ⟨k, s, none, 1, ⟨0, 0⟩⟩
    let w := [word .kwPrint "print", word .identifier "a", word .semicolon ";",
      word .identifier "b", word .plus "+", word .identifier "c", word .equal "=",
      ⟨.string, "\"s\"", some (.text "s"), 1, ⟨0, 0⟩⟩, word .semicolon ";"]
    (∀ t ∈ w, t.kind ≠ .eof) ∧ (parse (w ++ [Token.eof 1 0]) false).errors ≠ [] ∧
      Reading.start.stop (w ++ [Token.eof 1 0]) = some 6 ∧
      ∀ v : List Token, (w ++ [Token.eof 1 0]).take 7 <+: v → (parse v false).errors ≠ [] := by
  intro word w
  have hw : ∀ t ∈ w, t.kind ≠ .eof := by decide
  have herrors : (parse (w ++ [Token.eof 1 0]) false).errors ≠ [] := by nofun
  have hsix : Reading.start.stop (w ++ [Token.eof 1 0]) = some 6 := rfl
  obtain ⟨k, t, fault, hstop, -, -, -, -, hwrong⟩ :=
    parse_error_at_first_wrong_token (e := Token.eof 1 0) rfl hw herrors
  obtain rfl : k = 6 := Option.some.inj (hstop.symm.trans hsix)
  exact ⟨hw, herrors, hsix, hwrong⟩

end TinyScript
