import TinyScript.Proofs.Outcomes

/-!
The line on which a token or a fault is reported. It is counted by the line feeds in front of its
end, wherever these stand, in blanks or in a text; a comment ends before its line feed, so none is
counted twice.
-/

namespace TinyScript

/-- The line feeds among the characters in front of a byte offset. -/
def lineFeeds : List Char → Nat → Nat
  | [], _ => 0
  | c :: cs, n =>
    if n = 0 then 0 else (if c = '\n' then 1 else 0) + lineFeeds cs (n - c.utf8Size)

/-- The number of the line on which a byte offset of the source is. -/
def lineAt (source : String) (offset : Nat) : Nat := 1 + lineFeeds source.toList offset

theorem utf8ByteSize_ofList_cons (c : Char) (cs : List Char) :
    (String.ofList (c :: cs)).utf8ByteSize = c.utf8Size + (String.ofList cs).utf8ByteSize := by
  rw [← List.singleton_append, String.ofList_append, String.utf8ByteSize_append,
    ← String.singleton_eq_ofList, String.utf8ByteSize_singleton]

theorem length_le_utf8ByteSize (cs : List Char) : cs.length ≤ (String.ofList cs).utf8ByteSize := by
  induction cs with
  | nil => exact Nat.zero_le _
  | cons c cs ih =>
    have hpos := c.utf8Size_pos
    rw [utf8ByteSize_ofList_cons, List.length_cons]
    omega

theorem lineFeeds_append (a b : List Char) :
    lineFeeds (a ++ b) (String.ofList a).utf8ByteSize = a.count '\n' := by
  induction a with
  | nil => cases b <;> rfl
  | cons c a ih =>
    have hpos : c.utf8Size + (String.ofList a).utf8ByteSize ≠ 0 := by
      have := c.utf8Size_pos
      omega
    rw [List.cons_append, lineFeeds, utf8ByteSize_ofList_cons, if_neg hpos,
      Nat.add_sub_cancel_left, ih]
    by_cases h : c = '\n'
    · rw [if_pos h, h, List.count_cons_self, Nat.add_comm]
    · rw [if_neg h, List.count_cons_of_ne h, Nat.zero_add]

section Source

variable {source : String}

/-- Scanning has counted right wherever it stands. -/
theorem line_start_advance_eq {a b : List Char} (h : source.toList = a ++ b) :
    (Place.start.advance a).line = lineAt source (Place.start.advance a).offset := by
  rw [Place.offset_start_advance, lineAt, h, lineFeeds_append, Place.line_advance]
  rfl

theorem lineAt_size (source : String) : lineAt source source.utf8ByteSize = lastLine source := by
  have hline := lineFeeds_append source.toList []
  rw [List.append_nil, String.ofList_toList] at hline
  rw [lineAt, hline, lastLine]

/-- A source does not have more lines than it has bytes, but for one. -/
theorem lastLine_le (source : String) : lastLine source ≤ 1 + source.utf8ByteSize := by
  have hcount : source.toList.count '\n' ≤ source.toList.length := List.count_le_length
  have hlength := length_le_utf8ByteSize source.toList
  rw [String.ofList_toList] at hlength
  rw [lastLine]
  omega

theorem line_start_advance_le {a b : List Char} (h : source.toList = a ++ b) :
    (Place.start.advance a).line ≤ lastLine source := by
  rw [lastLine, h, List.count_append, Place.line_advance, ← Nat.add_assoc]
  exact Nat.le_add_right _ _

end Source

namespace Stretch

variable {source : String} {s : Stretch}

/-- The places before and after a stretch are those that its text leads to. -/
theorem places_of_mem (h : s ∈ sequence .start source.toList) :
    ∃ a b, source.toList = a ++ (s.text ++ b) ∧ s.before = Place.start.advance a ∧
      s.after = Place.start.advance (a ++ s.text) ∧ Lexical.Cut s.text s.piece b := by
  obtain ⟨a, b, hsource, hbefore, hafter, hcut⟩ := cut_of_mem h
  exact ⟨a, b, hsource, hbefore, by rw [hafter, hbefore, Place.advance_append], hcut⟩

theorem line_eq_of_mem (hsize : source.utf8ByteSize ≤ Span.limit)
    (h : s ∈ sequence .start source.toList) : s.after.line = lineAt source s.span.stop := by
  obtain ⟨a, b, hsource, -, hafter, -⟩ := places_of_mem h
  rw [← List.append_assoc] at hsource
  rw [(place_of_mem hsize h).1, hafter]
  exact line_start_advance_eq hsource

theorem line_le_of_mem (h : s ∈ sequence .start source.toList) :
    s.before.line ≤ lastLine source ∧ s.after.line ≤ lastLine source := by
  obtain ⟨a, b, hsource, hbefore, hafter, -⟩ := places_of_mem h
  constructor
  · rw [hbefore]
    exact line_start_advance_le hsource
  · rw [← List.append_assoc] at hsource
    rw [hafter]
    exact line_start_advance_le hsource

/-- A text that is left open takes all that is left of the source. -/
theorem line_of_unterminated (h : s ∈ sequence .start source.toList)
    (hpiece : s.piece = .fault .unterminatedString) : s.after.line = lastLine source := by
  obtain ⟨a, b, hsource, -, hafter, hcut⟩ := places_of_mem h
  rw [hpiece] at hcut
  have hb : b = [] := by
    generalize s.text = text at hcut
    cases hcut
    rfl
  rw [hb, List.append_nil] at hsource
  rw [hafter, ← hsource]
  exact line_start_advance source

end Stretch

theorem Lexical.quoted_of_cut {text rest : List Char} {l : Option Literal}
    (h : Cut text (.token .string l) rest) : ∃ cs, text = '"' :: (cs ++ ['"']) := by
  -- No other piece has the kind of a text.
  have hpunctuation : ∀ x ∈ punctuation, x.2 ≠ .string := by decide
  have hoperators : ∀ x ∈ operators, x.2.1 ≠ .string ∧ x.2.2 ≠ .string := by decide
  have hword : ∀ s, wordKind s ≠ .string := by
    intro s
    rw [wordKind, ← ofWord?_eq]
    unfold TokenKind.ofWord?
    split <;> decide
  generalize hp : Piece.token .string l = p at h
  cases h with
  | text _ => exact ⟨_, rfl⟩
  | word _ _ _ => exact absurd (Piece.token.inj hp).1.symm (hword _)
  | punctuation h => exact absurd (Piece.token.inj hp).1.symm (hpunctuation _ h)
  | single h _ => exact absurd (Piece.token.inj hp).1.symm (hoperators _ h).1
  | double h => exact absurd (Piece.token.inj hp).1.symm (hoperators _ h).2
  | _ => cases hp

/-- The line of a text is that of its closing quote, which is no line feed. -/
theorem Stretch.line_of_text {source : String} {s : Stretch} {l : Option Literal}
    (hsize : source.utf8ByteSize ≤ Span.limit) (h : s ∈ sequence .start source.toList)
    (hpiece : s.piece = .token .string l) :
    ∃ content, String.ofList s.text = "\"" ++ content ++ "\"" ∧
      s.after.line = lineAt source (s.span.start + ("\"" ++ content).utf8ByteSize) := by
  obtain ⟨a, b, hsource, hbefore, hafter, hcut⟩ := places_of_mem h
  rw [hpiece] at hcut
  obtain ⟨cs, htext⟩ := Lexical.quoted_of_cut hcut
  have hopen : String.ofList ('"' :: cs) = "\"" ++ String.ofList cs := by
    rw [← List.singleton_append, String.ofList_append]
  refine ⟨String.ofList cs, ?_, ?_⟩
  · rw [htext, ← List.cons_append, String.ofList_append, hopen]
  · have hsplit : source.toList = (a ++ '"' :: cs) ++ ('"' :: b) := by
      rw [hsource, htext]
      simp
    have hline := line_start_advance_eq hsplit
    rw [Place.advance_append, Place.offset_advance, hopen, ← hbefore] at hline
    rw [(place_of_mem hsize h).1, ← hline, hafter, htext, ← List.cons_append, ← List.append_assoc,
      Place.advance_append, Place.advance_append _ a, ← hbefore]
    rfl

namespace Scanned

/-- The lines of a scan are those of the source. -/
structure Lined (source : String) (r : Scanned) : Prop where
  token : ∀ t ∈ r.tokens, t.line = lineAt source t.span.stop
  text : ∀ t ∈ r.tokens, t.kind = .string → ∃ content, t.lexeme = "\"" ++ content ++ "\"" ∧
    t.line = lineAt source (t.span.start + ("\"" ++ content).utf8ByteSize)
  eof : ∀ t ∈ r.tokens, t.kind = .eof → t.line = lastLine source
  error : ∀ e ∈ r.errors, e.line = lineAt source e.span.stop
  unterminated : ∀ e ∈ r.errors, e.fault = .unterminatedString → e.line = lastLine source
  tokens_ordered : (r.tokens.map (·.line)).Pairwise (· ≤ ·)
  errors_ordered : (r.errors.map (·.line)).Pairwise (· ≤ ·)

/-- The lines of a source that is not too long are counted exactly and in order, and the count
does not leave 32 bits anywhere in the source. -/
theorem scan_lined (source : String) (hsize : source.utf8ByteSize < 2 ^ 32 - 1) :
    Lined source (scan source) ∧
      (∀ s ∈ (Stretch.cut [] .start source.toList).1,
        s.before.line < 2 ^ 32 ∧ s.after.line < 2 ^ 32) ∧
      (Stretch.cut [] .start source.toList).2.line < 2 ^ 32 := by
  have hle : source.utf8ByteSize ≤ Span.limit := Nat.le_of_lt hsize
  have hlast : lastLine source < 2 ^ 32 := by
    have := lastLine_le source
    omega
  rw [Stretch.cut_eq]
  refine ⟨?_, ?_, ?_⟩
  · constructor
    case token =>
      intro t ht
      rw [tokens_eq hle, List.mem_append, List.mem_singleton] at ht
      obtain ht | rfl := ht
      · obtain ⟨s, hs, hst⟩ := List.mem_filterMap.1 ht
        obtain ⟨kind, literal, -, rfl⟩ := Stretch.token?_eq_some hst
        exact Stretch.line_eq_of_mem hle hs
      · exact (line_start_advance source).trans (lineAt_size source).symm
    case text =>
      intro t ht hkind
      obtain ⟨s, hs, kind, literal, hpiece, rfl⟩ | ⟨line, rfl⟩ := mem_tokens hle ht
      · obtain rfl : kind = .string := hkind
        exact Stretch.line_of_text hle hs hpiece
      · cases hkind
    case eof =>
      intro t ht hkind
      rw [tokens_eq hle, List.mem_append, List.mem_singleton] at ht
      obtain ht | rfl := ht
      · exact absurd hkind (carried_words ht).1
      · exact line_start_advance source
    case error =>
      intro e he
      obtain ⟨s, hs, cause, -, rfl⟩ := mem_errors he
      exact Stretch.line_eq_of_mem hle hs
    case unterminated =>
      intro e he hfault
      obtain ⟨s, hs, cause, hpiece, rfl⟩ := mem_errors he
      obtain rfl : cause = .unterminatedString := hfault
      exact Stretch.line_of_unterminated hs hpiece
    case tokens_ordered => exact (token_lines source).ordered
    case errors_ordered => exact (scan_error_lines source).ordered
  · intro s hs
    rw [List.append_nil, List.mem_reverse] at hs
    have hlines := Stretch.line_le_of_mem hs
    omega
  · rw [line_start_advance]
    exact hlast

/-- Line feeds in a text, behind a comment, behind a carriage return and in a text that is left
open. -/
theorem broken_texts_lined :
    let source := "x \"a\n\nb\" // c\r\n#\n\"é\n"
    source.utf8ByteSize < 2 ^ 32 - 1 ∧ Lined source (scan source) ∧
      (scan source).tokens.map (·.line) = [1, 3, 6] ∧
      (scan source).errors.map (·.line) = [4, 6] := by
  intro source
  have hsize : source.utf8ByteSize < 2 ^ 32 - 1 := by decide
  exact ⟨hsize, (scan_lined source hsize).1, by cbv, by cbv⟩

end Scanned

end TinyScript
