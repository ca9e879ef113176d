import TinyScript.Token.Scan

/-!
The stretches of a source in order, and what becomes of them when a second source is put behind
the first, on a line of its own. No token but a text goes on over the end of a line, so the
stretches of the first source stay as they are, and those of the second only move.
-/

namespace TinyScript

namespace Place

theorem advance_append (p : Place) (a b : List Char) :
    p.advance (a ++ b) = (p.advance a).advance b := List.foldl_append

theorem advance_cons (p : Place) (c : Char) (cs : List Char) :
    p.advance (c :: cs) =
      advance ⟨p.offset + c.utf8Size, if c = '\n' then p.line + 1 else p.line⟩ cs := rfl

theorem advance_drop (p : Place) (c : Char) (rest : List Char) (n : Nat) :
    (p.advance (c :: rest.take n)).advance (rest.drop n) = p.advance (c :: rest) := by
  rw [← advance_append, List.cons_append, List.take_append_drop]

theorem line_advance (p : Place) (cs : List Char) :
    (p.advance cs).line = p.line + cs.count '\n' := by
  induction cs generalizing p with
  | nil => rfl
  | cons c cs ih =>
    rw [advance_cons, ih]
    by_cases h : c = '\n'
    · simp only [h, if_true, List.count_cons_self]
      omega
    · simp [h]

/-- The place, seen from one that many bytes and lines earlier. -/
def shift (bytes lines : Nat) (p : Place) : Place := ⟨p.offset + bytes, p.line + lines⟩

theorem advance_shift (bytes lines : Nat) (p : Place) (cs : List Char) :
    (p.shift bytes lines).advance cs = (p.advance cs).shift bytes lines := by
  induction cs generalizing p with
  | nil => rfl
  | cons c cs ih =>
    rw [advance_cons, advance_cons, ← ih]
    congr 1
    by_cases h : c = '\n'
    · simp only [shift, h, if_true, Place.mk.injEq]
      omega
    · simp [shift, h, Nat.add_right_comm]

/-- Behind a line break all is as at the start, seen from the place that the text before leads to. -/
theorem start_advance_join (a b : List Char) :
    start.advance (a ++ '\n' :: b) =
      (start.advance b).shift ((start.advance a).offset + 1) (1 + a.count '\n') := by
  have hline := line_advance start a
  have hplace : (⟨(start.advance a).offset + '\n'.utf8Size, (start.advance a).line + 1⟩ : Place) =
      start.shift ((start.advance a).offset + 1) (1 + a.count '\n') := by
    simp only [shift, start, Place.mk.injEq] at hline ⊢
    exact ⟨(Nat.zero_add _).symm, by omega⟩
  rw [advance_append, advance_cons, if_pos rfl, hplace, advance_shift]

end Place

namespace Stretch

/-- The stretches of a text that stands at `p`. -/
def sequence (p : Place) : List Char → List Stretch
  | [] => []
  | c :: rest =>
    let text := c :: rest.take (Piece.first c rest).2
    ⟨(Piece.first c rest).1, text, p, p.advance text⟩ ::
      sequence (p.advance text) (rest.drop (Piece.first c rest).2)
termination_by cs => cs.length
decreasing_by simp only [List.length_drop, List.length_cons]; omega

theorem cut_eq (found : List Stretch) (p : Place) (cs : List Char) :
    cut found p cs = ((sequence p cs).reverse ++ found, p.advance cs) := by
  fun_induction cut found p cs with
  | case1 found p => rw [sequence]; rfl
  | case2 found p c rest piece n hfirst text next ih =>
    rw [ih, Place.advance_drop, sequence]
    simp only [hfirst, List.reverse_cons, List.append_assoc, List.singleton_append]
    rfl

end Stretch

theorem scan_eq (source : String) :
    scan source =
      { tokens := (Stretch.sequence .start source.toList).filterMap Stretch.token? ++
          [Token.eof (Place.start.advance source.toList).line
            (min (Place.start.advance source.toList).offset Span.limit)]
        errors := (Stretch.sequence .start source.toList).filterMap Stretch.error? } := by
  rw [scan, Stretch.cut_eq]
  simp only [List.append_nil, List.reverse_reverse]

/-- What stops at the end of a line does not see what comes behind it. -/
theorem takeWhile_line {p : Char → Bool} (hp : p '\n' = false) (a b : List Char) :
    (a ++ '\n' :: b).takeWhile p = a.takeWhile p := by
  induction a with
  | nil => simp [hp]
  | cons c a ih => rw [List.cons_append, List.takeWhile_cons, List.takeWhile_cons, ih]

theorem length_takeWhile_le (p : Char → Bool) (cs : List Char) :
    (cs.takeWhile p).length ≤ cs.length := (List.takeWhile_sublist p).length_le

namespace Piece

theorem orEqual_line (double single : TokenKind) (rest b : List Char) :
    orEqual double single (rest ++ '\n' :: b) = orEqual double single rest := by
  cases rest with
  | nil => rfl
  | cons c rest =>
    by_cases h : c = '='
    · subst h
      rfl
    · simp [orEqual, h]

theorem number_line (d : Char) (rest b : List Char) :
    number d (rest ++ '\n' :: b) = number d rest := by
  simp only [number, takeWhile_line (p := Char.isDigit) (by decide),
    List.drop_append_of_le_length (length_takeWhile_le _ rest)]
  -- only the fraction looks further
  cases rest.drop (rest.takeWhile Char.isDigit).length with
  | nil => rfl
  | cons c tail =>
    by_cases h : c = '.'
    · subst h
      simp only [List.cons_append, takeWhile_line (p := Char.isDigit) (by decide)]
    · simp [h]

theorem word_line (c : Char) (rest b : List Char) :
    word c (rest ++ '\n' :: b) = word c rest := by
  rw [word, word, takeWhile_line (by decide)]

theorem string_line {rest : List Char} (h : (string rest).1 ≠ .fault .unterminatedString)
    (b : List Char) : string (rest ++ '\n' :: b) = string rest := by
  -- the closing quote stands in `rest`
  have hshort : (rest.takeWhile (· != '"')).length ≠ rest.length := by
    intro hlength
    simp [string, hlength] at h
  have hcontent : (rest ++ '\n' :: b).takeWhile (· != '"') = rest.takeWhile (· != '"') := by
    rw [List.takeWhile_append, if_neg hshort]
  have hle := length_takeWhile_le (· != '"') rest
  simp only [string, hcontent, List.drop_append_of_le_length hle]
  cases hdrop : rest.drop (rest.takeWhile (· != '"')).length with
  | nil =>
    have hzero := congrArg List.length hdrop
    rw [List.length_drop, List.length_nil] at hzero
    omega
  | cons c tail => rfl

theorem first_line {c : Char} {rest : List Char}
    (h : (first c rest).1 ≠ .fault .unterminatedString) (b : List Char) :
    first c (rest ++ '\n' :: b) = first c rest := by
  unfold first
  split
  case h_12 | h_13 | h_14 | h_15 => exact orEqual_line _ _ rest b
  case h_16 =>
    cases rest with
    | nil => rfl
    | cons c rest =>
      by_cases hc : c = '/'
      · subst hc
        simp only [List.cons_append, takeWhile_line (p := (· != '\n')) (by decide)]
      · simp [hc]
  case h_17 => exact string_line h b
  case h_18 => rw [number_line, word_line]
  all_goals rfl

theorem orEqual_le (double single : TokenKind) (rest : List Char) :
    (orEqual double single rest).2 ≤ rest.length := by
  unfold orEqual
  split
  · exact Nat.succ_le_succ (Nat.zero_le _)
  · exact Nat.zero_le _

theorem number_le (d : Char) (rest : List Char) : (number d rest).2 ≤ rest.length := by
  have hwhole := length_takeWhile_le Char.isDigit rest
  simp only [number]
  split
  · next more hdrop =>
    have hmore := length_takeWhile_le Char.isDigit more
    have hlength := congrArg List.length hdrop
    rw [List.length_drop, List.length_cons] at hlength
    have hboth : (rest.takeWhile Char.isDigit).length + 1 + (more.takeWhile Char.isDigit).length ≤
        rest.length := by omega
    split
    · exact hwhole
    · exact hboth
  · exact hwhole

theorem string_le (rest : List Char) : (string rest).2 ≤ rest.length := by
  have hcontent := length_takeWhile_le (· != '"') rest
  simp only [string]
  split
  · exact hcontent
  · next c tail hdrop =>
    have hlength := congrArg List.length hdrop
    rw [List.length_drop, List.length_cons] at hlength
    exact Nat.lt_of_sub_pos (hlength ▸ Nat.succ_pos _)

/-- A piece does not go on behind the end of the source. -/
theorem first_le (c : Char) (rest : List Char) : (first c rest).2 ≤ rest.length := by
  unfold first
  split
  case h_12 | h_13 | h_14 | h_15 => exact orEqual_le _ _ rest
  case h_16 =>
    split
    · next more =>
      have hmore := length_takeWhile_le (· != '\n') more
      rw [List.length_cons]
      omega
    · exact Nat.zero_le _
  case h_17 => exact string_le rest
  case h_18 =>
    split
    · exact Nat.zero_le _
    · split
      · exact number_le _ rest
      · split
        · exact length_takeWhile_le continuesName rest
        · exact Nat.zero_le _
  all_goals exact Nat.zero_le _

/-- A token that is read is not the end, and a number or a text carries its value. -/
def Carries : Piece → Prop
  | token k l => k ≠ .eof ∧ (k = .number ∨ k = .string → l.isSome)
  | _ => True

theorem carries_orEqual {double single : TokenKind} (hdouble : (token double none).Carries)
    (hsingle : (token single none).Carries) (rest : List Char) :
    (orEqual double single rest).1.Carries := by
  unfold orEqual
  split
  · exact hdouble
  · exact hsingle

theorem carries_word (c : Char) (rest : List Char) : (word c rest).1.Carries := by
  simp only [word]
  generalize String.ofList (c :: rest.takeWhile continuesName) = name
  unfold TokenKind.ofWord?
  split
  all_goals exact ⟨by decide, by decide⟩

theorem carries_string (rest : List Char) : (string rest).1.Carries := by
  simp only [string]
  split
  · trivial
  · exact ⟨by decide, fun _ => rfl⟩

theorem carries_first (c : Char) (rest : List Char) : (first c rest).1.Carries := by
  unfold first
  split
  case h_12 | h_13 | h_14 | h_15 =>
    exact carries_orEqual ⟨by decide, by decide⟩ ⟨by decide, by decide⟩ rest
  case h_16 =>
    split
    · trivial
    · exact ⟨by decide, by decide⟩
  case h_17 => exact carries_string rest
  case h_18 =>
    split
    · trivial
    · split
      · exact ⟨by decide, fun _ => rfl⟩
      · split
        · exact carries_word _ rest
        · trivial
  all_goals exact ⟨by decide, by decide⟩

end Piece

namespace Stretch

theorem mem_sequence {p : Place} {cs : List Char} {s : Stretch} (h : s ∈ sequence p cs) :
    s.piece.Carries := by
  fun_induction sequence p cs with
  | case1 => cases h
  | case2 p c rest text ih =>
    obtain rfl | h := List.mem_cons.1 h
    · exact Piece.carries_first c rest
    · exact ih h

theorem sequence_newline (p : Place) (b : List Char) :
    sequence p ('\n' :: b) =
      ⟨.blank, ['\n'], p, p.advance ['\n']⟩ :: sequence (p.advance ['\n']) b := by
  rw [sequence]
  rfl

/-- Behind the end of a line the source starts afresh, if no text is left open in it. -/
theorem sequence_line (p : Place) (a b : List Char)
    (h : ∀ s ∈ sequence p a, s.piece ≠ .fault .unterminatedString) :
    sequence p (a ++ '\n' :: b) = sequence p a ++ sequence (p.advance a) ('\n' :: b) := by
  fun_induction sequence p a with
  | case1 p => rfl
  | case2 p c rest text ih =>
    obtain ⟨hfirst, hrest⟩ := List.forall_mem_cons.1 h
    have hle := Piece.first_le c rest
    rw [List.cons_append, sequence, Piece.first_line hfirst b,
      List.take_append_of_le_length hle, List.drop_append_of_le_length hle]
    simp only [List.cons_append]
    rw [ih hrest, Place.advance_drop]

/-- The stretch, seen from a place that many bytes and lines earlier. -/
def shift (bytes lines : Nat) (s : Stretch) : Stretch :=
  ⟨s.piece, s.text, s.before.shift bytes lines, s.after.shift bytes lines⟩

theorem sequence_shift (bytes lines : Nat) (p : Place) (cs : List Char) :
    sequence (p.shift bytes lines) cs = (sequence p cs).map (shift bytes lines) := by
  fun_induction sequence p cs with
  | case1 p => rw [sequence]; rfl
  | case2 p c rest text ih =>
    rw [sequence, Place.advance_shift, ih]
    rfl

/-- The second of two sources with a line break between them comes out as it does by itself, only
further on. -/
theorem sequence_join (a b : List Char)
    (ha : ∀ s ∈ sequence .start a, s.piece ≠ .fault .unterminatedString) :
    ∃ blank : Stretch, blank.piece = .blank ∧
      sequence .start (a ++ '\n' :: b) = sequence .start a ++ blank :: (sequence .start b).map
        (shift ((Place.start.advance a).offset + 1) (1 + a.count '\n')) := by
  have hplace := Place.start_advance_join a []
  rw [Place.advance_append] at hplace
  refine ⟨⟨.blank, ['\n'], Place.start.advance a, (Place.start.advance a).advance ['\n']⟩, rfl, ?_⟩
  rw [sequence_line _ _ _ ha, sequence_newline, hplace, ← sequence_shift]
  rfl

end Stretch

end TinyScript
