import TinyScript.Syntax.Parse

/-!
How a reading moves over a list of tokens. Errors are never taken back, so a reading without
errors at the end had none on the way, and then stopping at the first error makes no difference.
-/

namespace TinyScript.Reading

/-- Reads tokens none of which is the end, whatever errors turn up. -/
def feeds (r : Reading) (ts : List Token) : Reading := ts.foldl feed r

@[simp] theorem feeds_nil (r : Reading) : r.feeds [] = r := rfl

@[simp] theorem feeds_cons (r : Reading) (t : Token) (ts : List Token) :
    r.feeds (t :: ts) = (r.feed t).feeds ts := rfl

theorem feeds_append (r : Reading) (ts us : List Token) :
    r.feeds (ts ++ us) = (r.feeds ts).feeds us := List.foldl_append

/-- A reading in the given stage, with no error so far. -/
def clean (stage : Stage) (statements : List Stmt) : Reading := ⟨some stage, statements, []⟩

theorem feed_inside (mode : Mode) (enclosing : List Enclosing) (out : List Stmt) (t : Token) :
    feed (clean (.inside mode enclosing) out) t =
      proceed (clean (.inside mode enclosing) out) t (Stage.step mode enclosing t) := rfl

theorem feed_of_step {mode : Mode} {enclosing : List Enclosing} {t : Token} {stage : Stage}
    (h : Stage.step mode enclosing t = .ok stage) (out : List Stmt) :
    feed (clean (.inside mode enclosing) out) t = clean stage out := by
  rw [feed_inside, h]
  rfl

/-- What a reading is once it is known that a token of kind `k` follows. -/
def settled (k : TokenKind) (r : Reading) : Reading :=
  match r.stage with
  | some (.finished s enclosing) =>
    match Stage.settle k s enclosing with
    | .outermost s =>
      { r with stage := some (.inside .statement []), statements := s :: r.statements }
    | .within mode enclosing => { r with stage := some (.inside mode enclosing) }
    | .atElse _ _ _ => r
  | _ => r

/-- Only where the statement leads matters, if it does not wait for an `else`. -/
theorem settled_congr {k : TokenKind} {s s' : Stmt} {enclosing enclosing' inner : List Enclosing}
    {mode : Mode} {out out' : List Stmt}
    (h : Stage.settle k s' enclosing' = Stage.settle k s enclosing)
    (hs : settled k (clean (.finished s enclosing) out) = clean (.inside mode inner) out') :
    settled k (clean (.finished s' enclosing') out) = clean (.inside mode inner) out' := by
  rw [← hs]
  simp only [settled, clean, h] at hs ⊢
  split
  · rfl
  · rfl
  · next hk => simp [hk] at hs

/-- The stage in which a token is read is forgotten. -/
theorem proceed_stage (r : Reading) (stage : Option Stage) (t : Token) (next : Stage.Next) :
    proceed { r with stage := stage } t next = r.proceed t next := by
  cases next <;> rfl

theorem feed_settled (r : Reading) (t : Token) : (r.settled t.kind).feed t = r.feed t := by
  unfold settled
  split
  · next s enclosing hr =>
    split
    · next s' hs =>
      have h := proceed_stage { r with statements := s' :: r.statements }
        (some (.inside .statement [])) t (Stage.statement [] t)
      simpa only [feed, hr, hs, Stage.step] using h
    · next mode enclosing' hs =>
      simp only [feed, hr, hs]
      exact proceed_stage r _ t _
    · rfl
  · rfl

theorem feeds_settled (r : Reading) (t : Token) (w : List Token) :
    (r.settled t.kind).feeds (t :: w) = r.feeds (t :: w) := by
  rw [feeds_cons, feeds_cons, feed_settled]

theorem finish_settled (r : Reading) (t : Token) :
    ((r.settled t.kind).finish t).errors = (r.finish t).errors ∧
      ((r.settled t.kind).finish t).statements = (r.finish t).statements := by
  unfold settled
  split
  · next s enclosing hr =>
    split
    · next s' hs => simp [finish, hr, hs, unfinished]
    · next mode enclosing' hs => simp [finish, hr, hs]
    · exact ⟨rfl, rfl⟩
  · exact ⟨rfl, rfl⟩

/-- A token adds an error about itself, or none. -/
theorem errors_proceed (r : Reading) (t : Token) (next : Stage.Next) :
    (r.proceed t next).errors = r.errors ∨
      ∃ fault, (r.proceed t next).errors = ⟨fault, t⟩ :: r.errors := by
  cases next with
  | ok stage => exact .inl rfl
  | error fault => exact .inr ⟨fault, rfl⟩

theorem errors_feed (r : Reading) (t : Token) :
    (r.feed t).errors = r.errors ∨ ∃ fault, (r.feed t).errors = ⟨fault, t⟩ :: r.errors := by
  unfold feed
  split
  · exact .inl rfl
  · exact r.errors_proceed t _
  · split
    · next s _ => exact errors_proceed { r with statements := s :: r.statements } t _
    · exact r.errors_proceed t _
    · exact .inl rfl

theorem errors_unfinished (mode : Mode) (enclosing : List Enclosing) (t : Token) :
    unfinished mode enclosing t = [] ∨ ∃ fault, unfinished mode enclosing t = [⟨fault, t⟩] := by
  unfold unfinished
  split
  · exact .inl rfl
  · split
    · exact .inl rfl
    · next fault _ => exact .inr ⟨fault, rfl⟩

theorem errors_finish (r : Reading) (t : Token) :
    (r.finish t).errors = r.errors ∨ ∃ fault, (r.finish t).errors = ⟨fault, t⟩ :: r.errors := by
  have hunfinished : ∀ (mode : Mode) (enclosing : List Enclosing),
      unfinished mode enclosing t ++ r.errors = r.errors ∨
        ∃ fault, unfinished mode enclosing t ++ r.errors = ⟨fault, t⟩ :: r.errors := by
    intro mode enclosing
    rcases errors_unfinished mode enclosing t with h | ⟨fault, h⟩
    · exact .inl (by rw [h, List.nil_append])
    · exact .inr ⟨fault, by rw [h, List.singleton_append]⟩
  unfold finish
  split
  · exact .inl rfl
  · exact hunfinished _ _
  · split
    · exact .inl rfl
    · exact hunfinished _ _
    · exact .inl rfl

theorem suffix_of_errors {es fs : List SyntaxError} {t : Token}
    (h : fs = es ∨ ∃ fault, fs = ⟨fault, t⟩ :: es) : es <:+ fs := by
  obtain rfl | ⟨fault, rfl⟩ := h
  · exact List.suffix_refl _
  · exact List.suffix_cons _ _

theorem errors_suffix_feed (r : Reading) (t : Token) : r.errors <:+ (r.feed t).errors :=
  suffix_of_errors (r.errors_feed t)

theorem errors_suffix_feeds (r : Reading) (ts : List Token) :
    r.errors <:+ (r.feeds ts).errors := by
  induction ts generalizing r with
  | nil => exact List.suffix_refl _
  | cons t ts ih => exact (errors_suffix_feed r t).trans (ih (r.feed t))

theorem errors_suffix_finish (r : Reading) (t : Token) : r.errors <:+ (r.finish t).errors :=
  suffix_of_errors (r.errors_finish t)

theorem eq_nil_of_suffix {es fs : List SyntaxError} (h : es <:+ fs) (hf : fs = []) : es = [] := by
  subst hf
  exact List.suffix_nil.1 h

theorem errors_nil_of_feeds {r : Reading} {ts : List Token} (h : (r.feeds ts).errors = []) :
    r.errors = [] := eq_nil_of_suffix (errors_suffix_feeds r ts) h

theorem errors_nil_of_finish {r : Reading} {t : Token} (h : (r.finish t).errors = []) :
    r.errors = [] := eq_nil_of_suffix (errors_suffix_finish r t) h

/-- One step of a reading that stops at the first error. -/
theorem run_cons {t : Token} (ht : t.kind ≠ .eof) (r : Reading) (ts : List Token) :
    run false r (t :: ts) =
      if (r.feed t).errors = [] then run false (r.feed t) ts else r.feed t := by
  rw [run, if_neg ht]
  simp [List.isEmpty_iff]

theorem run_eof {e : Token} (he : e.kind = .eof) (r : Reading) (recover : Bool) (ts : List Token) :
    run recover r (e :: ts) = r.finish e := by
  rw [run, if_pos he]

/-- Whether a reading succeeds can be told from the unstopped one. -/
theorem run_errors_nil_iff {w : List Token} {e : Token} (he : e.kind = .eof)
    (hw : ∀ t ∈ w, t.kind ≠ .eof) (r : Reading) :
    (run false r (w ++ [e])).errors = [] ↔ ((r.feeds w).finish e).errors = [] := by
  induction w generalizing r with
  | nil => rw [List.nil_append, run_eof he, feeds_nil]
  | cons t w ih =>
    obtain ⟨ht, hw⟩ := List.forall_mem_cons.1 hw
    rw [List.cons_append, run_cons ht, feeds_cons]
    split
    · exact ih hw (r.feed t)
    · next hne =>
      refine ⟨fun h => absurd h hne, fun h => absurd ?_ hne⟩
      exact errors_nil_of_feeds (errors_nil_of_finish h)

theorem run_eq_of_errors_nil {w : List Token} {e : Token} (he : e.kind = .eof)
    (hw : ∀ t ∈ w, t.kind ≠ .eof) (r : Reading) (h : ((r.feeds w).finish e).errors = []) :
    run false r (w ++ [e]) = (r.feeds w).finish e := by
  induction w generalizing r with
  | nil => rw [List.nil_append, run_eof he, feeds_nil]
  | cons t w ih =>
    obtain ⟨ht, hw⟩ := List.forall_mem_cons.1 hw
    have hn : (r.feed t).errors = [] := errors_nil_of_feeds (errors_nil_of_finish h)
    rw [List.cons_append, run_cons ht, if_pos hn]
    exact ih hw (r.feed t) h

/-- With recovery nothing stops a reading. -/
theorem run_recover {w : List Token} {e : Token} (he : e.kind = .eof)
    (hw : ∀ t ∈ w, t.kind ≠ .eof) (r : Reading) :
    run true r (w ++ [e]) = (r.feeds w).finish e := by
  induction w generalizing r with
  | nil => rw [List.nil_append, run_eof he, feeds_nil]
  | cons t w ih =>
    obtain ⟨ht, hw⟩ := List.forall_mem_cons.1 hw
    rw [List.cons_append, run, if_neg ht]
    exact ih hw (r.feed t)

end TinyScript.Reading

namespace TinyScript

/-- What a parse without errors is, in terms of the unstopped reading. -/
theorem parse_eq_ok_iff {w : List Token} {e : Token} (he : e.kind = .eof)
    (hw : ∀ t ∈ w, t.kind ≠ .eof) (recover : Bool) (ss : List Stmt) :
    parse (w ++ [e]) recover = ⟨ss, []⟩ ↔
      ((Reading.start.feeds w).finish e).errors = [] ∧
        ((Reading.start.feeds w).finish e).statements.reverse = ss := by
  cases recover with
  | false =>
    have hiff := Reading.run_errors_nil_iff he hw .start
    simp only [parse, Parsed.mk.injEq, List.reverse_eq_nil_iff, hiff]
    constructor
    · rintro ⟨hs, hn⟩
      rw [Reading.run_eq_of_errors_nil he hw .start hn] at hs
      exact ⟨hn, hs⟩
    · rintro ⟨hn, hs⟩
      rw [Reading.run_eq_of_errors_nil he hw .start hn]
      exact ⟨hs, hn⟩
  | true =>
    simp only [parse, Parsed.mk.injEq, List.reverse_eq_nil_iff, Reading.run_recover he hw]
    exact And.comm

end TinyScript
