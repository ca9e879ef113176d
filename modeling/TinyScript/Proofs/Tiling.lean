import Mathlib.Data.List.Pairwise
import TinyScript.Proofs.Lexical

/-!
Where tokens and faults stand in the source. The stretches lie end to end from the first byte to
the last, so that no byte is read twice, and what is neither in a token nor in a fault is blank or
in a comment.
-/

namespace TinyScript

namespace Span

/-- The span is the place of this text in the source. -/
def Marks (s : Span) (source text : String) : Prop :=
  ∃ before after : String, source = before ++ text ++ after ∧
    s = ⟨before.utf8ByteSize, (before ++ text).utf8ByteSize⟩

def Covers (s : Span) (n : Nat) : Prop := s.start ≤ n ∧ n < s.stop

/-- The spans have no byte in common. -/
def Apart (s t : Span) : Prop := s.stop ≤ t.start ∨ t.stop ≤ s.start

def Before (s t : Span) : Prop := s.start < t.start ∧ s.stop ≤ t.start

/-- The span holds a blank, or a comment up to the end of its line. -/
inductive Skips (source : String) (s : Span) : Prop where
  | blank {c : Char} (hc : c = ' ' ∨ c = '\t' ∨ c = '\r' ∨ c = '\n')
      (h : s.Marks source (String.singleton c))
  | comment {before line after : String} (hline : '\n' ∉ line.toList)
      (hafter : after = "" ∨ after.toList.head? = some '\n')
      (hsource : source = before ++ ("//" ++ line) ++ after)
      (hs : s = ⟨before.utf8ByteSize, (before ++ ("//" ++ line)).utf8ByteSize⟩)

variable {s t : Span} {source text : String}

theorem Apart.symm (h : s.Apart t) : t.Apart s := Or.symm h

theorem Before.apart (h : s.Before t) : s.Apart t := .inl h.2

theorem Marks.le (h : s.Marks source text) : s.start ≤ s.stop := by
  obtain ⟨before, after, -, rfl⟩ := h
  simp

theorem Marks.lt (h : s.Marks source text) (hne : text ≠ "") : s.start < s.stop := by
  obtain ⟨before, after, -, rfl⟩ := h
  have hsize : text.utf8ByteSize ≠ 0 := mt String.utf8ByteSize_eq_zero_iff.1 hne
  rw [String.utf8ByteSize_append]
  exact Nat.lt_add_of_pos_right (Nat.pos_of_ne_zero hsize)

theorem Marks.le_size (h : s.Marks source text) : s.stop ≤ source.utf8ByteSize := by
  obtain ⟨before, after, rfl, rfl⟩ := h
  simp

theorem Marks.isValid (h : s.Marks source text) :
    String.Pos.Raw.IsValid source ⟨s.start⟩ ∧ String.Pos.Raw.IsValid source ⟨s.stop⟩ := by
  obtain ⟨before, after, rfl, rfl⟩ := h
  exact ⟨String.Pos.Raw.isValid_iff_exists_append.2
      ⟨before, text ++ after, String.append_assoc, rfl⟩,
    String.Pos.Raw.isValid_iff_exists_append.2 ⟨before ++ text, after, rfl, rfl⟩⟩

theorem Marks.extract (h : s.Marks source text) :
    source.toByteArray.extract s.start s.stop = text.toByteArray := by
  obtain ⟨before, after, rfl, rfl⟩ := h
  have hstart : before.utf8ByteSize = before.toByteArray.size + 0 := by simp
  have hstop : (before ++ text).utf8ByteSize = before.toByteArray.size + text.toByteArray.size := by
    simp
  rw [String.append_assoc, String.toByteArray_append, String.toByteArray_append, hstart, hstop,
    ByteArray.extract_append_size_add, ByteArray.extract_append_eq_left rfl]

end Span

theorem Place.offset_advance (p : Place) (cs : List Char) :
    (p.advance cs).offset = p.offset + (String.ofList cs).utf8ByteSize := by
  induction cs generalizing p with
  | nil => rfl
  | cons c cs ih =>
    rw [advance_cons, ih, ← List.singleton_append, String.ofList_append,
      String.utf8ByteSize_append, ← String.singleton_eq_ofList, String.utf8ByteSize_singleton,
      Nat.add_assoc]

theorem Place.offset_start_advance (cs : List Char) :
    (start.advance cs).offset = (String.ofList cs).utf8ByteSize := by
  rw [offset_advance]
  exact Nat.zero_add _

theorem Place.offset_end (source : String) :
    (start.advance source.toList).offset = source.utf8ByteSize := by
  rw [offset_start_advance, String.ofList_toList]

namespace Stretch

/-- A stretch knows where it stands, and is cut as the grammar says. -/
theorem cut_of_mem {p : Place} {cs : List Char} {s : Stretch} (h : s ∈ sequence p cs) :
    ∃ a b, cs = a ++ (s.text ++ b) ∧ s.before = p.advance a ∧
      s.after = s.before.advance s.text ∧ Lexical.Cut s.text s.piece b := by
  fun_induction sequence p cs with
  | case1 => cases h
  | case2 p c rest text ih =>
    have hsplit : c :: rest = text ++ rest.drop (Piece.first c rest).2 := by
      rw [List.cons_append, List.take_append_drop]
    obtain rfl | h := List.mem_cons.1 h
    · exact ⟨[], _, hsplit, rfl, rfl, Lexical.cut_first c rest⟩
    · obtain ⟨a, b, hrest, hbefore, hafter, hcut⟩ := ih h
      refine ⟨text ++ a, b, ?_, ?_, hafter, hcut⟩
      · rw [hsplit, hrest, List.append_assoc]
      · rw [hbefore, Place.advance_append]

theorem offset_le_of_mem {p : Place} {cs : List Char} {s : Stretch} (h : s ∈ sequence p cs) :
    p.offset ≤ s.before.offset := by
  obtain ⟨a, b, -, hbefore, -⟩ := cut_of_mem h
  rw [hbefore, Place.offset_advance]
  exact Nat.le_add_right _ _

theorem sequence_ordered (p : Place) (cs : List Char) :
    (sequence p cs).Pairwise fun s t => s.after.offset ≤ t.before.offset := by
  fun_induction sequence p cs with
  | case1 => exact List.Pairwise.nil
  | case2 p c rest text ih => exact List.Pairwise.cons (fun t ht => offset_le_of_mem ht) ih

/-- No byte is left out. -/
theorem exists_mem_sequence {p : Place} {cs : List Char} {n : Nat} (hstart : p.offset ≤ n)
    (hstop : n < (p.advance cs).offset) :
    ∃ s ∈ sequence p cs, s.before.offset ≤ n ∧ n < s.after.offset := by
  fun_induction sequence p cs with
  | case1 p => exact absurd hstop (Nat.not_lt.2 hstart)
  | case2 p c rest text ih =>
    by_cases hn : n < (p.advance text).offset
    · exact ⟨_, List.mem_cons_self, hstart, hn⟩
    · rw [← Place.advance_drop p c rest (Piece.first c rest).2] at hstop
      obtain ⟨s, hs, hcovers⟩ := ih (Nat.not_lt.1 hn) hstop
      exact ⟨s, List.mem_cons_of_mem _ hs, hcovers⟩

theorem token?_eq_some {s : Stretch} {t : Token} (h : s.token? = some t) :
    ∃ kind literal, s.piece = .token kind literal ∧
      t = ⟨kind, String.ofList s.text, literal, s.after.line, s.span⟩ := by
  unfold token? at h
  split at h
  · next kind literal hpiece => exact ⟨kind, literal, hpiece, (Option.some.inj h).symm⟩
  · cases h

theorem error?_eq_some {s : Stretch} {e : LexicalError} (h : s.error? = some e) :
    ∃ cause, s.piece = .fault cause ∧ e = ⟨cause, s.after.line, s.span⟩ := by
  unfold error? at h
  split at h
  · next cause hpiece => exact ⟨cause, hpiece, (Option.some.inj h).symm⟩
  · cases h

section Source

variable {source : String} {s : Stretch}

/-- In a source of which every place has a span, a stretch is where its span says. -/
theorem place_of_mem (hsize : source.utf8ByteSize ≤ Span.limit)
    (h : s ∈ sequence .start source.toList) :
    s.span = ⟨s.before.offset, s.after.offset⟩ ∧
      ∃ before after : String, source = before ++ String.ofList s.text ++ after ∧
        s.span = ⟨before.utf8ByteSize, (before ++ String.ofList s.text).utf8ByteSize⟩ ∧
        Lexical.Cut s.text s.piece after.toList := by
  obtain ⟨a, b, hsource, hbefore, hafter, hcut⟩ := cut_of_mem h
  have hstring : source = String.ofList a ++ String.ofList s.text ++ String.ofList b := by
    rw [← String.ofList_toList (s := source), hsource, String.ofList_append, String.ofList_append,
      String.append_assoc]
  have hstart : s.before.offset = (String.ofList a).utf8ByteSize := by
    rw [hbefore, Place.offset_start_advance]
  have hstop : s.after.offset = (String.ofList a ++ String.ofList s.text).utf8ByteSize := by
    rw [hafter, Place.offset_advance, hstart, String.utf8ByteSize_append]
  have hle : s.before.offset ≤ s.after.offset ∧ s.after.offset ≤ Span.limit := by
    rw [hstring, String.utf8ByteSize_append, ← hstop] at hsize
    rw [String.utf8ByteSize_append, ← hstart] at hstop
    omega
  have hspan : s.span = ⟨s.before.offset, s.after.offset⟩ := by
    rw [span, Span.ofOffsets, Nat.min_eq_left hle.2, Nat.min_eq_left (Nat.le_trans hle.1 hle.2)]
  refine ⟨hspan, String.ofList a, String.ofList b, hstring, ?_, ?_⟩
  · rw [hspan, hstart, hstop]
  · rwa [String.toList_ofList]

theorem marks_of_mem (hsize : source.utf8ByteSize ≤ Span.limit)
    (h : s ∈ sequence .start source.toList) : s.span.Marks source (String.ofList s.text) := by
  obtain ⟨-, before, after, hsource, hspan, -⟩ := place_of_mem hsize h
  exact ⟨before, after, hsource, hspan⟩

theorem span_lt_of_mem (hsize : source.utf8ByteSize ≤ Span.limit)
    (h : s ∈ sequence .start source.toList) : s.span.start < s.span.stop := by
  obtain ⟨-, _, _, -, -, hcut⟩ := place_of_mem hsize h
  refine (marks_of_mem hsize h).lt fun hempty => hcut.ne_nil ?_
  rw [← String.toList_ofList (l := s.text), hempty, String.toList_empty]

/-- What is neither a token nor a fault is skipped. -/
theorem skips_of_mem (hsize : source.utf8ByteSize ≤ Span.limit)
    (h : s ∈ sequence .start source.toList) (hpiece : s.piece = .blank) :
    s.span.Skips source := by
  obtain ⟨-, before, after, hsource, hspan, hcut⟩ := place_of_mem hsize h
  -- the cut is taken apart by its rules, so that text and rest have to be variables
  generalize s.text = text at hsource hspan hcut
  rw [hpiece] at hcut
  generalize htail : after.toList = rest at hcut
  cases hcut with
  | blank hc => exact .blank hc ⟨before, after, hsource, hspan⟩
  | @comment cs _ hline hrest =>
    have hslashes : String.ofList (['/', '/'] ++ cs) = "//" ++ String.ofList cs :=
      String.ofList_append
    rw [List.cons_append, List.cons_append, List.nil_append] at hslashes
    rw [hslashes] at hsource hspan
    refine .comment ?_ ?_ hsource hspan
    · rwa [String.toList_ofList]
    · cases rest with
      | nil => exact .inl (String.toList_eq_nil_iff.1 htail)
      | cons c rest =>
        have hc : c = '\n' := by simpa using hrest c rfl
        exact .inr (by rw [htail, hc, List.head?_cons])

theorem spans_ordered (hsize : source.utf8ByteSize ≤ Span.limit) :
    (sequence .start source.toList).Pairwise fun s t => s.span.Before t.span := by
  refine (sequence_ordered .start source.toList).imp_of_mem fun {s t} hs ht hst => ?_
  have hlt := span_lt_of_mem hsize hs
  rw [(place_of_mem hsize hs).1] at hlt ⊢
  rw [(place_of_mem hsize ht).1]
  exact ⟨Nat.lt_of_lt_of_le hlt hst, hst⟩

theorem spans_apart (hsize : source.utf8ByteSize ≤ Span.limit) {t : Stretch}
    (hs : s ∈ sequence .start source.toList) (ht : t ∈ sequence .start source.toList)
    (hne : s.piece ≠ t.piece) : s.span.Apart t.span := by
  have hsymm : Std.Symm fun s t : Stretch => s.span.Apart t.span := ⟨fun _ _ h => h.symm⟩
  have hapart : (sequence .start source.toList).Pairwise fun s t => s.span.Apart t.span :=
    (spans_ordered hsize).imp Span.Before.apart
  exact hapart.forall hs ht fun heq => hne (congrArg piece heq)

end Source

end Stretch

namespace Scanned

/-- The spans of all tokens, then those of all faults. -/
def spans (r : Scanned) : List Span := r.tokens.map Token.span ++ r.errors.map LexicalError.span

/-- What a scan found lies in the source in order, and leaves out only what is skipped. -/
structure Tiles (source : String) (r : Scanned) : Prop where
  apart : r.spans.Pairwise Span.Apart
  inside : ∀ s ∈ r.spans, s.start ≤ s.stop ∧ s.stop ≤ source.utf8ByteSize ∧
    String.Pos.Raw.IsValid source ⟨s.start⟩ ∧ String.Pos.Raw.IsValid source ⟨s.stop⟩
  tokens_ordered : r.tokens.Pairwise fun t t' => t.span.Before t'.span
  errors_ordered : r.errors.Pairwise fun e e' => e.span.Before e'.span
  token_nonempty : ∀ t ∈ r.tokens, t.kind ≠ .eof → t.span.start < t.span.stop
  error_nonempty : ∀ e ∈ r.errors, e.span.start < e.span.stop
  lexeme : ∀ t ∈ r.tokens,
    source.toByteArray.extract t.span.start t.span.stop = t.lexeme.toByteArray
  skipped : ∀ n < source.utf8ByteSize, (∃ s ∈ r.spans, s.Covers n) ∨
    ∃ s : Span, s.Covers n ∧ s.Skips source ∧ ∀ t ∈ r.spans, s.Apart t
  ends : ∃ init line, r.tokens = init ++ [Token.eof line source.utf8ByteSize] ∧
    ∀ t ∈ init, t.kind ≠ .eof

section Source

variable {source : String}

theorem errors_eq (source : String) :
    (scan source).errors = (Stretch.sequence .start source.toList).filterMap Stretch.error? := by
  rw [scan_eq]

theorem mem_errors {e : LexicalError} (h : e ∈ (scan source).errors) :
    ∃ s ∈ Stretch.sequence .start source.toList, ∃ cause, s.piece = .fault cause ∧
      e = ⟨cause, s.after.line, s.span⟩ := by
  rw [errors_eq] at h
  obtain ⟨s, hs, hse⟩ := List.mem_filterMap.1 h
  exact ⟨s, hs, Stretch.error?_eq_some hse⟩

theorem tokens_eq (hsize : source.utf8ByteSize ≤ Span.limit) :
    (scan source).tokens = (Stretch.sequence .start source.toList).filterMap Stretch.token? ++
      [Token.eof (Place.start.advance source.toList).line source.utf8ByteSize] := by
  rw [scan_eq, Place.offset_end, Nat.min_eq_left hsize]

theorem mem_tokens (hsize : source.utf8ByteSize ≤ Span.limit) {t : Token}
    (h : t ∈ (scan source).tokens) :
    (∃ s ∈ Stretch.sequence .start source.toList, ∃ kind literal, s.piece = .token kind literal ∧
        t = ⟨kind, String.ofList s.text, literal, s.after.line, s.span⟩) ∨
      ∃ line, t = Token.eof line source.utf8ByteSize := by
  rw [tokens_eq hsize, List.mem_append, List.mem_singleton] at h
  obtain h | h := h
  · obtain ⟨s, hs, hst⟩ := List.mem_filterMap.1 h
    exact .inl ⟨s, hs, Stretch.token?_eq_some hst⟩
  · exact .inr ⟨_, h⟩

theorem token_marks (hsize : source.utf8ByteSize ≤ Span.limit) {t : Token}
    (h : t ∈ (scan source).tokens) : t.span.Marks source t.lexeme := by
  obtain ⟨s, hs, kind, literal, -, rfl⟩ | ⟨line, rfl⟩ := mem_tokens hsize h
  · exact Stretch.marks_of_mem hsize hs
  · exact ⟨source, "", by simp [Token.eof], by simp [Token.eof]⟩

theorem marks_of_mem_spans (hsize : source.utf8ByteSize ≤ Span.limit) {s : Span}
    (h : s ∈ (scan source).spans) : ∃ text, s.Marks source text := by
  obtain h | h := List.mem_append.1 h
  · obtain ⟨t, ht, rfl⟩ := List.mem_map.1 h
    exact ⟨_, token_marks hsize ht⟩
  · obtain ⟨e, he, rfl⟩ := List.mem_map.1 h
    obtain ⟨s, hs, cause, -, rfl⟩ := mem_errors he
    exact ⟨_, Stretch.marks_of_mem hsize hs⟩

theorem tokens_before (hsize : source.utf8ByteSize ≤ Span.limit) :
    (scan source).tokens.Pairwise fun t t' => t.span.Before t'.span := by
  rw [tokens_eq hsize, List.pairwise_append]
  refine ⟨?_, List.pairwise_singleton _ _, ?_⟩
  · refine List.pairwise_filterMap.2 ((Stretch.spans_ordered hsize).imp ?_)
    intro s s' hbefore t ht t' ht'
    obtain ⟨_, _, -, rfl⟩ := Stretch.token?_eq_some ht
    obtain ⟨_, _, -, rfl⟩ := Stretch.token?_eq_some ht'
    exact hbefore
  · intro t ht t' ht'
    obtain ⟨s, hs, hst⟩ := List.mem_filterMap.1 ht
    obtain ⟨_, _, -, rfl⟩ := Stretch.token?_eq_some hst
    obtain rfl := List.mem_singleton.1 ht'
    have hle := (Stretch.marks_of_mem hsize hs).le_size
    exact ⟨Nat.lt_of_lt_of_le (Stretch.span_lt_of_mem hsize hs) hle, hle⟩

theorem errors_before (hsize : source.utf8ByteSize ≤ Span.limit) :
    (scan source).errors.Pairwise fun e e' => e.span.Before e'.span := by
  rw [errors_eq]
  refine List.pairwise_filterMap.2 ((Stretch.spans_ordered hsize).imp ?_)
  intro s s' hbefore e he e' he'
  obtain ⟨_, -, rfl⟩ := Stretch.error?_eq_some he
  obtain ⟨_, -, rfl⟩ := Stretch.error?_eq_some he'
  exact hbefore

theorem errors_apart (hsize : source.utf8ByteSize ≤ Span.limit) {t : Token} {e : LexicalError}
    (ht : t ∈ (scan source).tokens) (he : e ∈ (scan source).errors) : t.span.Apart e.span := by
  obtain ⟨s', hs', cause, hcause, rfl⟩ := mem_errors he
  obtain ⟨s, hs, kind, literal, htoken, rfl⟩ | ⟨line, rfl⟩ := mem_tokens hsize ht
  · refine Stretch.spans_apart hsize hs hs' ?_
    rw [htoken, hcause]
    exact nofun
  · exact .inr (Stretch.marks_of_mem hsize hs').le_size

theorem blank_apart (hsize : source.utf8ByteSize ≤ Span.limit) {s : Stretch}
    (hs : s ∈ Stretch.sequence .start source.toList) (hblank : s.piece = .blank) {u : Span}
    (hu : u ∈ (scan source).spans) : s.span.Apart u := by
  obtain hu | hu := List.mem_append.1 hu
  · obtain ⟨t, ht, rfl⟩ := List.mem_map.1 hu
    obtain ⟨s', hs', kind, literal, htoken, rfl⟩ | ⟨line, rfl⟩ := mem_tokens hsize ht
    · refine Stretch.spans_apart hsize hs hs' ?_
      rw [htoken, hblank]
      exact nofun
    · exact .inl (Stretch.marks_of_mem hsize hs).le_size
  · obtain ⟨e, he, rfl⟩ := List.mem_map.1 hu
    obtain ⟨s', hs', cause, hcause, rfl⟩ := mem_errors he
    refine Stretch.spans_apart hsize hs hs' ?_
    rw [hcause, hblank]
    exact nofun

/-- Each stretch that is not blank has its span in the list. -/
theorem mem_spans {s : Stretch} (hs : s ∈ Stretch.sequence .start source.toList)
    (hpiece : s.piece ≠ .blank) : s.span ∈ (scan source).spans := by
  rw [spans, scan_eq, List.mem_append, List.mem_map, List.mem_map]
  cases hp : s.piece with
  | blank => exact absurd hp hpiece
  | token kind literal =>
    have htoken : s.token? = some ⟨kind, String.ofList s.text, literal, s.after.line, s.span⟩ := by
      rw [Stretch.token?, hp]
    exact .inl ⟨_, List.mem_append_left _ (List.mem_filterMap.2 ⟨s, hs, htoken⟩), rfl⟩
  | fault cause =>
    have herror : s.error? = some ⟨cause, s.after.line, s.span⟩ := by
      rw [Stretch.error?, hp]
    exact .inr ⟨_, List.mem_filterMap.2 ⟨s, hs, herror⟩, rfl⟩

theorem covers_or_skips (hsize : source.utf8ByteSize ≤ Span.limit) {n : Nat}
    (hn : n < source.utf8ByteSize) : (∃ s ∈ (scan source).spans, s.Covers n) ∨
      ∃ s : Span, s.Covers n ∧ s.Skips source ∧ ∀ t ∈ (scan source).spans, s.Apart t := by
  have hend : n < (Place.start.advance source.toList).offset := by rwa [Place.offset_end]
  obtain ⟨s, hs, hcovers⟩ := Stretch.exists_mem_sequence (Nat.zero_le n) hend
  have hspan : s.span.Covers n := by
    rw [(Stretch.place_of_mem hsize hs).1]
    exact hcovers
  by_cases hblank : s.piece = .blank
  · exact .inr ⟨s.span, hspan, Stretch.skips_of_mem hsize hs hblank,
      fun t ht => blank_apart hsize hs hblank ht⟩
  · exact .inl ⟨s.span, mem_spans hs hblank, hspan⟩

/-- The scan of a source that is not too long loses no byte of it and reads none twice. -/
theorem scan_tiles (source : String) (hsize : source.utf8ByteSize < 2 ^ 32) :
    Tiles source (scan source) := by
  have hle : source.utf8ByteSize ≤ Span.limit := Nat.le_of_lt_succ hsize
  have htokens := tokens_before hle
  have herrors := errors_before hle
  constructor
  case apart =>
    rw [spans, List.pairwise_append, List.pairwise_map, List.pairwise_map]
    refine ⟨htokens.imp Span.Before.apart, herrors.imp Span.Before.apart, fun s hs u hu => ?_⟩
    obtain ⟨t, ht, rfl⟩ := List.mem_map.1 hs
    obtain ⟨e, he, rfl⟩ := List.mem_map.1 hu
    exact errors_apart hle ht he
  case inside =>
    intro s hs
    obtain ⟨text, hmarks⟩ := marks_of_mem_spans hle hs
    exact ⟨hmarks.le, hmarks.le_size, hmarks.isValid⟩
  case tokens_ordered => exact htokens
  case errors_ordered => exact herrors
  case token_nonempty =>
    intro t ht hkind
    obtain ⟨s, hs, kind, literal, -, rfl⟩ | ⟨line, rfl⟩ := mem_tokens hle ht
    · exact Stretch.span_lt_of_mem hle hs
    · exact absurd rfl hkind
  case error_nonempty =>
    intro e he
    obtain ⟨s, hs, cause, -, rfl⟩ := mem_errors he
    exact Stretch.span_lt_of_mem hle hs
  case lexeme => exact fun t ht => (token_marks hle ht).extract
  case skipped => exact fun n hn => covers_or_skips hle hn
  case ends =>
    refine ⟨_, _, tokens_eq hle, fun t ht => ?_⟩
    obtain ⟨s, hs, hst⟩ := List.mem_filterMap.1 ht
    obtain ⟨kind, literal, hpiece, rfl⟩ := Stretch.token?_eq_some hst
    have hcarries := Stretch.mem_sequence hs
    rw [hpiece] at hcarries
    exact hcarries.1

/-- Letters of two bytes, a comment with one, and a text that is left open. -/
theorem accented_source_tiles : "é = 1 // ü\n# \"à".utf8ByteSize < 2 ^ 32 ∧
    Tiles "é = 1 // ü\n# \"à" (scan "é = 1 // ü\n# \"à") :=
  ⟨by decide, scan_tiles _ (by decide)⟩

end Source

end Scanned

end TinyScript
