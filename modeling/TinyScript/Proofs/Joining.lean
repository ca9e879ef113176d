import TinyScript.Proofs.LongestMatch

/-!
Scans of texts that are put together from others: two sources with a line break between them, and
the words of a source with a blank between any two. A line break ends every token but a text as the
end of a source does, and a blank ends every token, so nothing is scanned across such a seam.
-/

namespace TinyScript

/-- The span, with that many more bytes in front of it. -/
def Span.shift (bytes : Nat) (s : Span) : Span := ⟨s.start + bytes, s.stop + bytes⟩

def Token.shift (bytes lines : Nat) (t : Token) : Token :=
  { t with line := t.line + lines, span := t.span.shift bytes }

def LexicalError.shift (bytes lines : Nat) (e : LexicalError) : LexicalError :=
  { e with line := e.line + lines, span := e.span.shift bytes }

/-- What a token is, wherever it stands. -/
def Token.content (t : Token) : String × TokenKind × Option Literal := (t.lexeme, t.kind, t.literal)

namespace Stretch

variable {bytes lines : Nat} {s : Stretch}

theorem offsets_of_mem {source : String} (h : s ∈ sequence .start source.toList) :
    s.before.offset ≤ s.after.offset ∧ s.after.offset ≤ source.utf8ByteSize := by
  obtain ⟨a, b, hsource, hbefore, hafter, -⟩ := cut_of_mem h
  rw [← Place.offset_end, hsource, Place.advance_append, Place.advance_append, ← hbefore,
    ← hafter, Place.offset_advance, hafter, Place.offset_advance]
  omega

/-- No offset may become too large for a span. -/
theorem span_shift (hle : s.before.offset ≤ s.after.offset)
    (hlimit : s.after.offset + bytes ≤ Span.limit) :
    (s.shift bytes lines).span = s.span.shift bytes := by
  simp only [span, shift, Place.shift, Span.ofOffsets, Span.shift, Span.mk.injEq]
  omega

theorem token?_shift (h : (s.shift bytes lines).span = s.span.shift bytes) :
    (s.shift bytes lines).token? = s.token?.map (Token.shift bytes lines) := by
  obtain ⟨piece, text, before, after⟩ := s
  cases piece <;> simp [token?, shift, Token.shift, Place.shift, ← h]

theorem error?_shift (h : (s.shift bytes lines).span = s.span.shift bytes) :
    (s.shift bytes lines).error? = s.error?.map (LexicalError.shift bytes lines) := by
  obtain ⟨piece, text, before, after⟩ := s
  cases piece <;> simp [error?, shift, LexicalError.shift, Place.shift, ← h]

end Stretch

/-- What is a token by itself is the same token in front of a blank. -/
theorem Lexical.Cut.before_blank {text : List Char} {kind : TokenKind} {literal : Option Literal}
    (h : Cut text (.token kind literal) []) (rest : List Char) :
    Cut text (.token kind literal) (' ' :: rest) := by
  have hstops : ∀ {p : Char → Bool}, p ' ' = false → Stops p (' ' :: rest) := by
    rintro p hp c ⟨⟩
    exact hp
  cases h with
  | punctuation h => exact .punctuation h
  | single h _ => exact .single h (by simp)
  | double h => exact .double h
  | slash _ => exact .slash (by simp)
  | text h => exact .text h
  | whole h _ _ => exact .whole h (hstops rfl) nofun
  | decimal h hne h' _ => exact .decimal h hne h' (hstops rfl)
  | word h h' _ => exact .word h h' (hstops (by decide))

namespace Scanned

open Lexical

/-- The tokens without the end. -/
def words (r : Scanned) : List Token := r.tokens.filter (·.kind != .eof)

/-- The words as they are written, with a blank between any two. -/
def spaced (r : Scanned) : String := " ".intercalate (r.words.map (·.lexeme))

theorem words_scan (source : String) :
    (scan source).words = (Stretch.sequence .start source.toList).filterMap Stretch.token? := by
  have hkind : ∀ t ∈ (Stretch.sequence .start source.toList).filterMap Stretch.token?,
      (t.kind != .eof) = true := by
    intro t ht
    obtain ⟨s, hs, hst⟩ := List.mem_filterMap.1 ht
    obtain ⟨kind, literal, hpiece, rfl⟩ := Stretch.token?_eq_some hst
    have hcarries := Stretch.mem_sequence hs
    rw [hpiece] at hcarries
    exact bne_iff_ne.2 hcarries.1
  rw [words, scan_eq, List.filter_append, List.filter_eq_self.2 hkind]
  simp [Token.eof]

/-- The scan of two sources with a line break between them is the scan of the first, without its
end, and behind it the scan of the second, as many bytes and lines further on as the first source
and the line break take. -/
theorem scan_join {a b : String} (hsize : a.utf8ByteSize + b.utf8ByteSize < 2 ^ 32 - 2)
    (ha : ∀ e ∈ (scan a).errors, e.fault ≠ .unterminatedString) :
    let bytes := a.utf8ByteSize + 1
    let lines := 1 + a.toList.count '\n'
    scan (a ++ "\n" ++ b) =
      { tokens := (scan a).words ++ (scan b).tokens.map (Token.shift bytes lines)
        errors := (scan a).errors ++ (scan b).errors.map (LexicalError.shift bytes lines) } := by
  intro bytes lines
  have hopen : ∀ s ∈ Stretch.sequence .start a.toList, s.piece ≠ .fault .unterminatedString := by
    intro s hs hpiece
    refine ha ⟨.unterminatedString, s.after.line, s.span⟩ ?_ rfl
    rw [errors_eq]
    exact List.mem_filterMap.2 ⟨s, hs, by rw [Stretch.error?, hpiece]⟩
  have hlimit : Span.limit = 2 ^ 32 - 1 := rfl
  have hspan : ∀ s ∈ Stretch.sequence .start b.toList,
      (s.shift bytes lines).span = s.span.shift bytes := by
    intro s hs
    obtain ⟨hle, hafter⟩ := Stretch.offsets_of_mem hs
    exact Stretch.span_shift hle (by omega)
  have hlist : (a ++ "\n" ++ b).toList = a.toList ++ '\n' :: b.toList := by simp
  have hbytes : (a ++ "\n" ++ b).utf8ByteSize = b.utf8ByteSize + bytes := by
    have hline : "\n".utf8ByteSize = 1 := rfl
    rw [String.utf8ByteSize_append, String.utf8ByteSize_append, hline, Nat.add_comm]
  obtain ⟨blank, hblank, hjoin⟩ := Stretch.sequence_join a.toList b.toList hopen
  have hplace := Place.start_advance_join a.toList b.toList
  rw [Place.offset_end] at hjoin hplace
  have htokens : (scan (a ++ "\n" ++ b)).tokens =
      (scan a).words ++ (scan b).tokens.map (Token.shift bytes lines) := by
    have hnone : blank.token? = none := by rw [Stretch.token?, hblank]
    have hshift := List.filterMap_congr fun s hs => Stretch.token?_shift (hspan s hs)
    rw [tokens_eq (by omega), tokens_eq (by omega), words_scan, hlist, hjoin, hplace, hbytes,
      List.filterMap_append, List.filterMap_cons_none hnone, List.filterMap_map, List.map_append,
      List.map_filterMap, ← hshift, List.append_assoc]
    rfl
  have herrors : (scan (a ++ "\n" ++ b)).errors =
      (scan a).errors ++ (scan b).errors.map (LexicalError.shift bytes lines) := by
    have hnone : blank.error? = none := by rw [Stretch.error?, hblank]
    have hshift := List.filterMap_congr fun s hs => Stretch.error?_shift (hspan s hs)
    rw [errors_eq, errors_eq, errors_eq, hlist, hjoin, List.filterMap_append,
      List.filterMap_cons_none hnone, List.filterMap_map, List.map_filterMap, ← hshift]
    rfl
  rw [← htokens, ← herrors]

/-- A slash and a comment in front of the seam, an equals sign and a text that stays open behind
it. -/
theorem commented_source_joined :
    let a := "x <\"\n\"/ // ü"
    let b := "= /\n\"é"
    a.utf8ByteSize + b.utf8ByteSize < 2 ^ 32 - 2 ∧
      (∀ e ∈ (scan a).errors, e.fault ≠ .unterminatedString) ∧
      (scan (a ++ "\n" ++ b)).tokens =
        (scan a).words ++ (scan b).tokens.map (Token.shift 14 2) ∧
      (scan (a ++ "\n" ++ b)).errors = [⟨.unterminatedString, 4, ⟨18, 21⟩⟩] := by
  intro a b
  have hsize : a.utf8ByteSize + b.utf8ByteSize < 2 ^ 32 - 2 := by decide
  have ha : (scan a).errors = [] := by cbv
  have hb : (scan b).errors = [⟨.unterminatedString, 2, ⟨4, 7⟩⟩] := by cbv
  have hopen : ∀ e ∈ (scan a).errors, e.fault ≠ .unterminatedString := by simp [ha]
  have hbytes : a.utf8ByteSize + 1 = 14 := by decide
  have hlines : 1 + a.toList.count '\n' = 2 := by decide
  have hjoin := scan_join hsize hopen
  rw [hbytes, hlines] at hjoin
  refine ⟨hsize, hopen, congrArg Scanned.tokens hjoin, ?_⟩
  rw [hjoin, ha, hb]
  rfl

theorem scan_divided {source : String} {pieces : List (List Char × Piece)}
    (h : Divided source.toList pieces) :
    (scan source).words.map Token.content = pieces.filterMap token? ∧
      (scan source).errors.map LexicalError.fault = pieces.filterMap fault? := by
  rw [h.unique (divided_sequence .start source.toList), words_scan, errors_eq, List.filterMap_map,
    List.filterMap_map, List.map_filterMap, List.map_filterMap]
  constructor
  · refine List.filterMap_congr fun s _ => ?_
    obtain ⟨piece, text, before, after⟩ := s
    cases piece <;> rfl
  · refine List.filterMap_congr fun s _ => ?_
    obtain ⟨piece, text, before, after⟩ := s
    cases piece <;> rfl

/-- A word is a token wherever it is the whole source. -/
theorem cut_word {source : String} {t : Token} (ht : t ∈ (scan source).words) :
    Cut t.lexeme.toList (.token t.kind t.literal) [] := by
  rw [words_scan] at ht
  obtain ⟨s, hs, hst⟩ := List.mem_filterMap.1 ht
  obtain ⟨kind, literal, hpiece, rfl⟩ := Stretch.token?_eq_some hst
  obtain ⟨a, b, -, -, -, hcut⟩ := Stretch.cut_of_mem hs
  rw [hpiece] at hcut
  simpa using hcut.alone

/-- Words with blanks between them are divided at the blanks. -/
theorem exists_divided {ts : List Token}
    (h : ∀ t ∈ ts, Cut t.lexeme.toList (.token t.kind t.literal) []) :
    ∃ pieces, Divided (" ".intercalate (ts.map (·.lexeme))).toList pieces ∧
      pieces.filterMap token? = ts.map Token.content ∧ pieces.filterMap fault? = [] := by
  have htoken : ∀ t : Token,
      token? (t.lexeme.toList, .token t.kind t.literal) = some t.content := by
    simp [token?, Token.content]
  induction ts with
  | nil => exact ⟨[], .nil, rfl, rfl⟩
  | cons t ts ih =>
    obtain ⟨ht, hts⟩ := List.forall_mem_cons.1 h
    cases ts with
    | nil =>
      refine ⟨[(t.lexeme.toList, .token t.kind t.literal)], ?_, by simp [htoken], by simp [fault?]⟩
      simpa using Divided.cons ht .nil
    | cons u ts =>
      obtain ⟨pieces, hdivided, htokens, hfaults⟩ := ih hts
      refine ⟨(t.lexeme.toList, .token t.kind t.literal) :: ([' '], .blank) :: pieces, ?_, ?_, ?_⟩
      · have hblank := Divided.cons (.blank (.inl rfl)) hdivided
        simpa [String.toList_intercalate, List.intercalate_cons_cons] using
          Divided.cons (ht.before_blank _) hblank
      · rw [List.filterMap_cons_some (htoken t), List.filterMap_cons_none rfl, htokens]
        rfl
      · rw [List.filterMap_cons_none rfl, List.filterMap_cons_none rfl, hfaults]

/-- The words of a source, once they are spaced, are scanned to the same words, and nothing is wrong
with them, whatever is wrong with the source. -/
theorem rescan_words (source : String) :
    (scan (scan source).spaced).errors = [] ∧
      (scan (scan source).spaced).words.map Token.content =
        (scan source).words.map Token.content := by
  obtain ⟨pieces, hdivided, htokens, hfaults⟩ := exists_divided fun t => @cut_word source t
  obtain ⟨hwords, herrors⟩ := scan_divided hdivided
  rw [hfaults, List.map_eq_nil_iff] at herrors
  exact ⟨herrors, hwords.trans htokens⟩

end Scanned

end TinyScript
