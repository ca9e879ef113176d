import TinyScript.Proofs.Joining

/-!
Characters that are not part of the language. Each is a fault by itself, and what stands in front of
it ends there as it ends at a blank. So with blanks in place of these characters, as many as they
have bytes, all else in the source is scanned as before.
-/

namespace TinyScript

/-- The text, which stands at the byte offset `n`, with blanks in place of the characters at the
marked offsets, as many as each has bytes. -/
def blankAt (marked : Nat → Bool) (n : Nat) : List Char → List Char
  | [] => []
  | c :: cs =>
    (if marked n then List.replicate c.utf8Size ' ' else [c]) ++ blankAt marked (n + c.utf8Size) cs

def LexicalError.isStray (e : LexicalError) : Bool := e.fault.code == .unexpectedCharacter

namespace Scanned

/-- An unexpected character is reported at this offset. -/
def strayAt (r : Scanned) (n : Nat) : Bool := r.errors.any fun e => e.isStray && e.span.start == n

/-- The source with blanks in place of the unexpected characters that its scan reports. -/
def cleared (source : String) : String :=
  String.ofList (blankAt (scan source).strayAt 0 source.toList)

end Scanned

namespace Lexical

/-- The character is a fault wherever a piece starts with it. -/
def Stray (c : Char) : Prop := Cut [c] (.fault (.unexpectedCharacter c)) []

theorem Stray.not_isBlank {c : Char} (h : Stray c) : isBlank c = false := by
  rw [Bool.eq_false_iff]
  intro hblank
  exact h.not_lexeme.2 [] ⟨_, .blank (eq_of_isBlank hblank), nofun⟩

/-- The second text has blanks where the first one has some of its stray characters. -/
inductive Fades : List Char → List Char → Prop where
  | nil : Fades [] []
  | keep {cs ds : List Char} (c : Char) (h : Fades cs ds) : Fades (c :: cs) (c :: ds)
  | blank {c : Char} {cs ds : List Char} (hc : Stray c) (h : Fades cs ds) :
      Fades (c :: cs) (List.replicate c.utf8Size ' ' ++ ds)

theorem replicate_blank (c : Char) :
    ∃ n, List.replicate c.utf8Size ' ' = ' ' :: List.replicate n ' ' := by
  obtain ⟨n, hn⟩ := Nat.exists_eq_succ_of_ne_zero (Nat.ne_of_gt c.utf8Size_pos)
  exact ⟨n, by rw [hn, List.replicate_succ]⟩

namespace Fades

variable {cs ds : List Char}

theorem append_left (h : Fades cs ds) (text : List Char) : Fades (text ++ cs) (text ++ ds) := by
  induction text with
  | nil => exact h
  | cons c text ih => exact .keep c ih

/-- What comes first stays, or is a blank now. -/
theorem head (h : Fades cs ds) :
    ds.head? = cs.head? ∨ ds.head? = some ' ' ∧ ∃ c, cs.head? = some c ∧ Stray c := by
  cases h with
  | nil => exact .inl rfl
  | keep c _ => exact .inl rfl
  | @blank c _ ds hc _ =>
    obtain ⟨n, hn⟩ := replicate_blank c
    exact .inr ⟨by rw [hn]; rfl, c, rfl, hc⟩

theorem head_ne (h : Fades cs ds) {x : Char} (hx : x ≠ ' ') (hne : cs.head? ≠ some x) :
    ds.head? ≠ some x := by
  obtain hhead | ⟨hhead, -⟩ := h.head
  · rwa [hhead]
  · rw [hhead]
    exact fun heq => hx (Option.some.inj heq).symm

theorem stops (h : Fades cs ds) {p : Char → Bool} (hp : p ' ' = false) (hstops : Stops p cs) :
    Stops p ds := by
  intro c hc
  obtain hhead | ⟨hhead, -⟩ := h.head
  · exact hstops c (hhead ▸ hc)
  · rw [hhead] at hc
    cases hc
    exact hp

/-- The end of a line is not a stray character, so a comment ends where it did. -/
theorem stops_line (h : Fades cs ds) (hstops : Stops (· != '\n') cs) : Stops (· != '\n') ds := by
  obtain hhead | ⟨-, c, hc, hstray⟩ := h.head
  · exact fun c hc => hstops c (hhead ▸ hc)
  · have hline : c = '\n' := by simpa using hstops c hc
    have hblank := hstray.not_isBlank
    rw [hline] at hblank
    cases hblank

theorem fraction (h : Fades cs ds)
    (hnone : ∀ e more, cs = '.' :: e :: more → e.isDigit = false) (e : Char) (more : List Char)
    (hds : ds = '.' :: e :: more) : e.isDigit = false := by
  subst hds
  generalize hwhole : '.' :: e :: more = whole at h
  cases h with
  | nil => cases hwhole
  | @keep cs ds c h =>
    obtain ⟨rfl, rfl⟩ := List.cons.inj hwhole
    obtain hhead | ⟨hhead, -⟩ := h.head
    · obtain ⟨more', rfl⟩ := List.head?_eq_some_iff.1 hhead.symm
      exact hnone e more' rfl
    · cases hhead
      rfl
  | @blank c _ _ _ _ =>
    obtain ⟨n, hn⟩ := replicate_blank c
    rw [hn] at hwhole
    cases hwhole

end Fades

/-- A piece is the same if stray characters behind it become blanks. -/
theorem Cut.fades {text rest rest' : List Char} {p : Piece} (h : Cut text p rest)
    (hrest : Fades rest rest') : Cut text p rest' := by
  cases h with
  | blank h => exact .blank h
  | comment h hline => exact .comment h (hrest.stops_line hline)
  | punctuation h => exact .punctuation h
  | single h hne => exact .single h (hrest.head_ne (by decide) hne)
  | double h => exact .double h
  | slash hne => exact .slash (hrest.head_ne (by decide) hne)
  | text h => exact .text h
  | whole h hstops hfraction => exact .whole h (hrest.stops rfl hstops) (hrest.fraction hfraction)
  | decimal h hne h' hstops => exact .decimal h hne h' (hrest.stops rfl hstops)
  | word h h' hstops => exact .word h h' (hrest.stops (by decide) hstops)
  | unterminated h =>
    cases hrest
    exact .unterminated h
  | unexpected hblank hpunctuation hoperator hslash hquote hdigit hname =>
    exact .unexpected hblank hpunctuation hoperator hslash hquote hdigit hname

end Lexical

open Lexical

theorem Place.advance_replicate (p : Place) (n : Nat) :
    p.advance (List.replicate n ' ') = ⟨p.offset + n, p.line⟩ := by
  induction n generalizing p with
  | zero => rfl
  | succ n ih =>
    rw [List.replicate_succ, advance_cons, ih, if_neg (by decide), Place.mk.injEq]
    have hsize : ' '.utf8Size = 1 := rfl
    exact ⟨by simp only [hsize]; omega, rfl⟩

theorem blankAt_append (marked : Nat → Bool) (p : Place) (a b : List Char) :
    blankAt marked p.offset (a ++ b) =
      blankAt marked p.offset a ++ blankAt marked (p.advance a).offset b := by
  induction a generalizing p with
  | nil => rfl
  | cons c a ih =>
    have hrest := ih ⟨p.offset + c.utf8Size, if c = '\n' then p.line + 1 else p.line⟩
    rw [List.cons_append, blankAt, blankAt, List.append_assoc, Place.advance_cons, ← hrest]

theorem blankAt_of_unmarked {marked : Nat → Bool} {p : Place} {a : List Char}
    (h : ∀ n, p.offset ≤ n → n < (p.advance a).offset → marked n = false) :
    blankAt marked p.offset a = a := by
  induction a generalizing p with
  | nil => rfl
  | cons c a ih =>
    have hpos := c.utf8Size_pos
    rw [Place.advance_cons] at h
    have hle := Place.offset_advance
      ⟨p.offset + c.utf8Size, if c = '\n' then p.line + 1 else p.line⟩ a
    have hrest := ih (p := ⟨p.offset + c.utf8Size, if c = '\n' then p.line + 1 else p.line⟩)
      fun n hstart => h n (by simp only at hstart; omega)
    have hfirst : marked p.offset = false := h p.offset (Nat.le_refl _) (by simp only at hle; omega)
    rw [blankAt, hfirst, hrest]
    rfl

namespace Stretch

def isStray (s : Stretch) : Bool :=
  match s.piece with
  | .fault (.unexpectedCharacter _) => true
  | _ => false

/-- The text of the stretch, or blanks if that is an unexpected character. -/
def kept (s : Stretch) : List Char :=
  match s.piece with
  | .fault (.unexpectedCharacter c) => List.replicate c.utf8Size ' '
  | _ => s.text

theorem isStray_iff {s : Stretch} :
    s.isStray ↔ ∃ c, s.piece = .fault (.unexpectedCharacter c) := by
  unfold isStray
  split
  · next c hpiece => exact iff_of_true rfl ⟨c, hpiece⟩
  · next hpiece => exact iff_of_false Bool.false_ne_true fun ⟨c, hc⟩ => hpiece c hc

theorem kept_of_not_isStray {s : Stretch} (h : s.isStray = false) : s.kept = s.text := by
  unfold kept
  split
  · next c hpiece =>
    rw [isStray, hpiece] at h
    cases h
  · rfl

/-- A piece is a stray character and nothing else, or its stretch keeps the text. -/
theorem stray_or_kept {text rest : List Char} {piece : Piece} (h : Cut text piece rest)
    (p q : Place) : (∃ c, Stray c ∧ text = [c] ∧ piece = .fault (.unexpectedCharacter c)) ∨
      isStray ⟨piece, text, p, q⟩ = false ∧ kept ⟨piece, text, p, q⟩ = text := by
  cases hstray : isStray ⟨piece, text, p, q⟩ with
  | false => exact .inr ⟨rfl, kept_of_not_isStray hstray⟩
  | true =>
    obtain ⟨c, hpiece⟩ := isStray_iff.1 hstray
    obtain rfl : piece = .fault (.unexpectedCharacter c) := hpiece
    obtain ⟨rfl, -⟩ := h.not_lexeme
    exact .inl ⟨c, h.alone, rfl, rfl⟩

/-- Induction on the pieces of a text, the first of which stands at `p`. -/
theorem cut_induction {motive : Place → List Char → Prop} (nil : ∀ p, motive p [])
    (cut : ∀ p text piece rest, Cut text piece rest → motive (p.advance text) rest →
      motive p (text ++ rest)) (p : Place) (cs : List Char) : motive p cs := by
  fun_induction sequence p cs with
  | case1 p => exact nil p
  | case2 p c rest text ih =>
    have h := cut p _ _ _ (cut_first c rest) ih
    rwa [List.cons_append, List.take_append_drop] at h

theorem sequence_nil (p : Place) : sequence p [] = [] := by rw [sequence]

theorem sequence_fades (p : Place) (cs : List Char) :
    Fades cs ((sequence p cs).flatMap kept) := by
  induction p, cs using cut_induction with
  | nil p =>
    rw [sequence_nil]
    exact .nil
  | cut p text piece rest hcut ih =>
    rw [sequence_cut hcut, List.flatMap_cons]
    obtain ⟨c, hc, rfl, rfl⟩ | ⟨-, hkept⟩ := stray_or_kept hcut p (p.advance text)
    · exact .blank hc ih
    · rw [hkept]
      exact ih.append_left text

/-- The blanks lead where the character did. -/
theorem advance_blanks {c : Char} (hc : Stray c) (p : Place) :
    p.advance (List.replicate c.utf8Size ' ') = p.advance [c] := by
  have hline : c ≠ '\n' := by
    rintro rfl
    cases hc.not_isBlank
  rw [Place.advance_replicate, Place.advance_cons, if_neg hline]
  rfl

theorem advance_sequence (p : Place) (cs : List Char) :
    p.advance ((sequence p cs).flatMap kept) = p.advance cs := by
  induction p, cs using cut_induction with
  | nil p => rw [sequence_nil, List.flatMap_nil]
  | cut p text piece rest hcut ih =>
    rw [sequence_cut hcut, List.flatMap_cons, Place.advance_append, Place.advance_append, ← ih]
    obtain ⟨c, hc, rfl, rfl⟩ | ⟨-, hkept⟩ := stray_or_kept hcut p (p.advance text)
    · rw [kept, advance_blanks hc]
    · rw [hkept]

theorem filterMap_blanks {β : Type} {f : Stretch → Option β}
    (hf : ∀ s, s.piece = .blank → f s = none) (p : Place) (n : Nat) (cs : List Char) :
    (sequence p (List.replicate n ' ' ++ cs)).filterMap f =
      (sequence (p.advance (List.replicate n ' ')) cs).filterMap f := by
  induction n generalizing p with
  | zero => rfl
  | succ n ih =>
    have hblank : Cut [' '] .blank (List.replicate n ' ' ++ cs) := .blank (.inl rfl)
    rw [List.replicate_succ, ← List.singleton_append, List.append_assoc, sequence_cut hblank,
      List.filterMap_cons_none (hf _ rfl), ih, ← Place.advance_append]

/-- With blanks in their place, the stray characters are all that is missing from the stretches
that are not blank. -/
theorem filterMap_sequence {β : Type} {f : Stretch → Option β}
    (hf : ∀ s, s.piece = .blank → f s = none) (p : Place) (cs : List Char) :
    (sequence p ((sequence p cs).flatMap kept)).filterMap f =
      ((sequence p cs).filter (!·.isStray)).filterMap f := by
  induction p, cs using cut_induction with
  | nil p => rw [sequence_nil, List.flatMap_nil, sequence_nil, List.filter_nil]
  | cut p text piece rest hcut ih =>
    rw [sequence_cut hcut, List.flatMap_cons]
    obtain ⟨c, hc, rfl, rfl⟩ | ⟨hstray, hkept⟩ := stray_or_kept hcut p (p.advance text)
    · rw [List.filter_cons_of_neg (by simp [isStray]), ← ih, kept, filterMap_blanks hf,
        advance_blanks hc]
    · have hfaded := hcut.fades (sequence_fades (p.advance text) rest)
      rw [List.filter_cons_of_pos (by simp [hstray]), hkept, sequence_cut hfaded,
        List.filterMap_cons, List.filterMap_cons, ih]

/-- The marks tell stray characters from the rest of the source. -/
def Agrees (marked : Nat → Bool) (s : Stretch) : Prop :=
  (s.isStray → marked s.before.offset) ∧ (s.isStray = false →
    ∀ n, s.before.offset ≤ n → n < s.after.offset → marked n = false)

theorem blankAt_sequence {marked : Nat → Bool} {p : Place} {cs : List Char}
    (h : ∀ s ∈ sequence p cs, s.Agrees marked) :
    blankAt marked p.offset cs = (sequence p cs).flatMap kept := by
  induction p, cs using cut_induction with
  | nil p => rw [sequence_nil]; rfl
  | cut p text piece rest hcut ih =>
    rw [sequence_cut hcut] at h
    obtain ⟨⟨hmarked, hunmarked⟩, hrest⟩ := List.forall_mem_cons.1 h
    rw [sequence_cut hcut, blankAt_append, ih hrest, List.flatMap_cons]
    obtain ⟨c, hc, rfl, rfl⟩ | ⟨hstray, hkept⟩ := stray_or_kept hcut p (p.advance text)
    · rw [blankAt, if_pos (hmarked rfl), blankAt, List.append_nil, kept]
    · rw [hkept, blankAt_of_unmarked (hunmarked hstray)]

theorem token?_of_isStray {s : Stretch} (h : s.isStray) : s.token? = none := by
  obtain ⟨c, hpiece⟩ := isStray_iff.1 h
  rw [token?, hpiece]

/-- A fault is reported as an unexpected character just if the stretch is one. -/
theorem isStray_of_error? {s : Stretch} {e : LexicalError} (h : s.error? = some e) :
    e.isStray = s.isStray := by
  obtain ⟨cause, hpiece, rfl⟩ := error?_eq_some h
  rw [LexicalError.isStray, isStray, hpiece]
  cases cause <;> rfl

end Stretch

namespace Scanned

open Stretch

variable {source : String}

theorem strayAt_iff (hsize : source.utf8ByteSize ≤ Span.limit) {n : Nat} :
    (scan source).strayAt n ↔
      ∃ s ∈ sequence .start source.toList, s.isStray ∧ s.before.offset = n := by
  rw [strayAt, errors_eq, List.any_filterMap, List.any_eq_true]
  refine exists_congr fun s => and_congr_right fun hs => ?_
  cases herror : s.error? with
  | none =>
    refine iff_of_false (by simp) fun ⟨hstray, _⟩ => ?_
    obtain ⟨c, hpiece⟩ := isStray_iff.1 hstray
    rw [error?, hpiece] at herror
    cases herror
  | some e =>
    have hstart : e.span.start = s.before.offset := by
      obtain ⟨cause, -, rfl⟩ := error?_eq_some herror
      exact congrArg Span.start (place_of_mem hsize hs).1
    simp [isStray_of_error? herror, hstart]

/-- The reports mark just the stray characters: no other stretch has a byte in common with one. -/
theorem agrees_of_mem (hsize : source.utf8ByteSize ≤ Span.limit) {s : Stretch}
    (hs : s ∈ sequence .start source.toList) : s.Agrees (scan source).strayAt := by
  refine ⟨fun hstray => (strayAt_iff hsize).2 ⟨s, hs, hstray, rfl⟩, fun hnot n hle hlt => ?_⟩
  rw [Bool.eq_false_iff]
  intro hmarked
  obtain ⟨t, ht, hstray, rfl⟩ := (strayAt_iff hsize).1 hmarked
  have hne : s.piece ≠ t.piece := fun heq => by
    have hsame : s.isStray = t.isStray := by rw [isStray, isStray, heq]
    rw [hnot, hstray] at hsame
    cases hsame
  have hapart := spans_apart hsize hs ht hne
  have hpos := span_lt_of_mem hsize ht
  rw [(place_of_mem hsize ht).1] at hapart hpos
  rw [(place_of_mem hsize hs).1] at hapart
  simp only [Span.Apart] at hapart hpos
  omega

theorem toList_cleared (hsize : source.utf8ByteSize ≤ Span.limit) :
    (cleared source).toList = (sequence .start source.toList).flatMap kept := by
  rw [cleared, String.toList_ofList]
  exact blankAt_sequence (p := .start) fun s hs => agrees_of_mem hsize hs

/-- With blanks in place of the unexpected characters a source has the same tokens, in the same
places, and the same errors but for the reports of these characters. -/
theorem scan_cleared (source : String) (hsize : source.utf8ByteSize < 2 ^ 32 - 1) :
    scan (cleared source) =
      { tokens := (scan source).tokens, errors := (scan source).errors.filter (!·.isStray) } := by
  have hlist := toList_cleared (Nat.le_of_lt hsize)
  have htoken : ∀ s : Stretch, s.piece = .blank → s.token? = none := fun s h => by
    rw [Stretch.token?, h]
  have herror : ∀ s : Stretch, s.piece = .blank → s.error? = none := fun s h => by
    rw [error?, h]
  have htokens : ((sequence .start source.toList).filter (!·.isStray)).filterMap Stretch.token? =
      (sequence .start source.toList).filterMap Stretch.token? := by
    rw [List.filterMap_filter]
    refine List.filterMap_congr fun s _ => ?_
    cases hstray : s.isStray with
    | false => rfl
    | true => exact (token?_of_isStray hstray).symm
  have herrors : ((sequence .start source.toList).filter (!·.isStray)).filterMap error? =
      ((sequence .start source.toList).filterMap error?).filter (!·.isStray) := by
    rw [List.filterMap_filter, List.filter_filterMap]
    refine List.filterMap_congr fun s _ => ?_
    cases hs : s.error? with
    | none => simp
    | some e => simp [← isStray_of_error? hs, Option.filter]
  rw [scan_eq, scan_eq, hlist, advance_sequence, filterMap_sequence htoken,
    filterMap_sequence herror, htokens, herrors]

/-- A raised two goes on a name but not a number, is a fault in front of one, and is part of a text
and of a comment. -/
theorem raised_twos_cleared :
    let source := "x²=²3.²5 // ²\n\"²\" €\"²"
    source.utf8ByteSize < 2 ^ 32 - 1 ∧ cleared source = "x²=  3.  5 // ²\n\"²\"    \"²" ∧
      scan (cleared source) =
        { tokens := (scan source).tokens, errors := (scan source).errors.filter (!·.isStray) } ∧
      (scan source).errors.map (·.isStray) = [true, true, true, false] := by
  intro source
  have hsize : source.utf8ByteSize < 2 ^ 32 - 1 := by decide
  exact ⟨hsize, by decide +kernel, scan_cleared source hsize, by decide +kernel⟩

end Scanned

end TinyScript
