import Mathlib
import TinyScript.Proofs.Stretches

/-!
The lexical grammar, apart from any way of scanning: which text is which piece, and what cannot
follow it. The scanner cuts a source just as the grammar says, and a piece is the longest text
that the grammar allows where it starts.
-/

namespace TinyScript

namespace Lexical

/-- The characters that are tokens whatever follows. -/
def punctuation : List (Char × TokenKind) := [
  ('(', .leftParen), (')', .rightParen), ('{', .leftBrace), ('}', .rightBrace), (',', .comma),
  ('.', .dot), ('-', .minus), ('+', .plus), ('%', .percent), (';', .semicolon), ('*', .star)]

/-- The characters that are one token by themselves and another with an equals sign. -/
def operators : List (Char × TokenKind × TokenKind) := [
  ('!', .bang, .bangEqual), ('=', .equal, .equalEqual), ('<', .less, .lessEqual),
  ('>', .greater, .greaterEqual)]

/-- The reserved words. -/
def reserved : List (String × TokenKind) := [
  ("and", .kwAnd), ("else", .kwElse), ("false", .kwFalse), ("for", .kwFor), ("if", .kwIf),
  ("null", .kwNull), ("or", .kwOr), ("print", .kwPrint), ("true", .kwTrue), ("var", .kwVar),
  ("while", .kwWhile)]

def wordKind (word : String) : TokenKind := (reserved.lookup word).getD .identifier

/-- A run of such characters cannot go on into `rest`. -/
def Stops (p : Char → Bool) (rest : List Char) : Prop := ∀ c, rest.head? = some c → p c = false

/-- The grammar takes the text for the piece where `rest` follows. -/
inductive Cut : List Char → Piece → List Char → Prop where
  | blank {c : Char} {rest : List Char} (h : c = ' ' ∨ c = '\t' ∨ c = '\r' ∨ c = '\n') :
      Cut [c] .blank rest
  | comment {cs rest : List Char} (h : '\n' ∉ cs) (hrest : Stops (· != '\n') rest) :
      Cut ('/' :: '/' :: cs) .blank rest
  | punctuation {c : Char} {k : TokenKind} {rest : List Char} (h : (c, k) ∈ punctuation) :
      Cut [c] (.token k none) rest
  | single {c : Char} {k k' : TokenKind} {rest : List Char} (h : (c, k, k') ∈ operators)
      (hrest : rest.head? ≠ some '=') : Cut [c] (.token k none) rest
  | double {c : Char} {k k' : TokenKind} {rest : List Char} (h : (c, k, k') ∈ operators) :
      Cut [c, '='] (.token k' none) rest
  | slash {rest : List Char} (hrest : rest.head? ≠ some '/') : Cut ['/'] (.token .slash none) rest
  | text {cs rest : List Char} (h : '"' ∉ cs) :
      Cut ('"' :: (cs ++ ['"'])) (.token .string (some (.text (String.ofList cs)))) rest
  | whole {d : Char} {ds rest : List Char} (h : ∀ x ∈ d :: ds, x.isDigit)
      (hrest : Stops Char.isDigit rest)
      (hfraction : ∀ e more, rest = '.' :: e :: more → e.isDigit = false) :
      Cut (d :: ds) (.token .number (some (.number (Decimal.read (d :: ds) [])))) rest
  | decimal {d : Char} {ds es rest : List Char} (h : ∀ x ∈ d :: ds, x.isDigit) (hne : es ≠ [])
      (h' : ∀ e ∈ es, e.isDigit) (hrest : Stops Char.isDigit rest) :
      Cut (d :: (ds ++ '.' :: es)) (.token .number (some (.number (Decimal.read (d :: ds) es)))) rest
  | word {c : Char} {cs rest : List Char} (h : startsName c) (h' : ∀ d ∈ cs, continuesName d)
      (hrest : Stops continuesName rest) :
      Cut (c :: cs) (.token (wordKind (String.ofList (c :: cs))) none) rest
  | unterminated {cs : List Char} (h : '"' ∉ cs) :
      Cut ('"' :: cs) (.fault .unterminatedString) []
  | unexpected {c : Char} {rest : List Char} (hblank : isBlank c = false)
      (hpunctuation : c ∉ punctuation.map Prod.fst) (hoperator : c ∉ operators.map Prod.fst)
      (hslash : c ≠ '/') (hquote : c ≠ '"') (hdigit : c.isDigit = false)
      (hname : startsName c = false) : Cut [c] (.fault (.unexpectedCharacter c)) rest

/-- A text that is a token, a comment or a blank by itself. -/
def Lexeme (text : List Char) : Prop := ∃ p, Cut text p [] ∧ ∀ x, p ≠ .fault x

theorem ofWord?_eq (word : String) : TokenKind.ofWord? word = reserved.lookup word := by
  unfold TokenKind.ofWord?
  split
  case h_12 =>
    refine (List.lookup_eq_none_iff.2 ?_).symm
    simp_all [reserved]
  all_goals rfl

theorem stops_nil (p : Char → Bool) : Stops p [] := by
  rintro c ⟨⟩

theorem takeWhile_append_of_stops {p : Char → Bool} {cs rest : List Char}
    (h : ∀ c ∈ cs, p c) (hrest : Stops p rest) : (cs ++ rest).takeWhile p = cs := by
  rw [List.takeWhile_append_of_pos h]
  cases rest with
  | nil => rw [List.takeWhile_nil, List.append_nil]
  | cons c rest =>
    rw [List.takeWhile_cons_of_neg (by simp [hrest c rfl]), List.append_nil]

/-- A text starts with a run of such characters, which ends where it has to. -/
theorem exists_run (p : Char → Bool) (cs : List Char) :
    ∃ run rest, cs = run ++ rest ∧ (∀ c ∈ run, p c) ∧ Stops p rest := by
  refine ⟨cs.takeWhile p, cs.dropWhile p, List.takeWhile_append_dropWhile.symm,
    List.all_eq_true.1 List.all_takeWhile, fun c hc => ?_⟩
  have hnot := List.head?_dropWhile_not p cs
  rw [hc] at hnot
  simpa using hnot

theorem number_whole {d : Char} {whole rest : List Char} (h : ∀ c ∈ whole, c.isDigit)
    (hrest : Stops Char.isDigit rest)
    (hfraction : ∀ e more, rest = '.' :: e :: more → e.isDigit = false) :
    Piece.number d (whole ++ rest) =
      (.token .number (some (.number (Decimal.read (d :: whole) []))), whole.length) := by
  simp only [Piece.number, takeWhile_append_of_stops h hrest, List.drop_left]
  split
  · next more =>
    have hnone : more.takeWhile Char.isDigit = [] := by
      cases more with
      | nil => rfl
      | cons e more => exact List.takeWhile_cons_of_neg (by simp [hfraction e more rfl])
    simp only [hnone, List.isEmpty_nil, if_true]
  · rfl

theorem number_decimal {d : Char} {whole fraction rest : List Char}
    (h : ∀ c ∈ whole, c.isDigit) (hne : fraction ≠ []) (h' : ∀ c ∈ fraction, c.isDigit)
    (hrest : Stops Char.isDigit rest) :
    Piece.number d (whole ++ '.' :: (fraction ++ rest)) =
      (.token .number (some (.number (Decimal.read (d :: whole) fraction))),
        whole.length + 1 + fraction.length) := by
  have hpoint : Stops Char.isDigit ('.' :: (fraction ++ rest)) := by
    rintro c ⟨⟩
    rfl
  have hsome : fraction.isEmpty = false := by simpa using hne
  simp only [Piece.number, takeWhile_append_of_stops h hpoint, List.drop_left,
    takeWhile_append_of_stops h' hrest, hsome, Bool.false_eq_true, if_false]

theorem not_quote {cs : List Char} (h : '"' ∉ cs) : ∀ c ∈ cs, (c != '"') = true := by
  intro c hc
  exact bne_iff_ne.2 fun heq => h (heq ▸ hc)

theorem string_closed {cs : List Char} (h : '"' ∉ cs) (rest : List Char) :
    Piece.string (cs ++ '"' :: rest) =
      (.token .string (some (.text (String.ofList cs))), cs.length + 1) := by
  have hquote : Stops (· != '"') ('"' :: rest) := by
    rintro c ⟨⟩
    rfl
  simp only [Piece.string, takeWhile_append_of_stops (not_quote h) hquote, List.drop_left]

theorem string_open {cs : List Char} (h : '"' ∉ cs) :
    Piece.string cs = (.fault .unterminatedString, cs.length) := by
  have hall := takeWhile_append_of_stops (not_quote h) (stops_nil _)
  rw [List.append_nil] at hall
  simp only [Piece.string, hall, List.drop_length]

theorem word_run {c : Char} {cs rest : List Char} (h : ∀ d ∈ cs, continuesName d)
    (hrest : Stops continuesName rest) :
    Piece.word c (cs ++ rest) =
      (.token (wordKind (String.ofList (c :: cs))) none, cs.length) := by
  rw [Piece.word, takeWhile_append_of_stops h hrest, ofWord?_eq, wordKind]

theorem eq_of_isBlank {c : Char} (h : isBlank c) : c = ' ' ∨ c = '\t' ∨ c = '\r' ∨ c = '\n' := by
  simpa [isBlank, or_assoc] using h

/-- The classes of characters that a piece can start with do not meet. -/
theorem not_isBlank_of_isDigit {c : Char} (h : c.isDigit) : isBlank c = false := by
  rw [Bool.eq_false_iff]
  intro hblank
  obtain rfl | rfl | rfl | rfl := eq_of_isBlank hblank
  all_goals cases h

theorem not_isBlank_of_startsName {c : Char} (h : startsName c) : isBlank c = false := by
  rw [Bool.eq_false_iff]
  intro hblank
  obtain rfl | rfl | rfl | rfl := eq_of_isBlank hblank
  all_goals cases h

theorem not_isDigit_of_startsName {c : Char} (h : startsName c) : c.isDigit = false := by
  rw [Bool.eq_false_iff]
  intro hdigit
  have hrange : 48 ≤ c.toNat ∧ c.toNat ≤ 57 := Char.isDigit_iff_toNat.1 hdigit
  have hascii : c.toNat < 0x80 := by omega
  have hne : c ≠ '_' := by
    rintro rfl
    cases hdigit
  have halpha : c.isAlpha = false := by
    simp [Char.isAlpha, Char.isUpper, Char.isLower, UInt32.le_iff_toNat_le]
    omega
  simp [startsName, isAlphabetic, hascii, halpha, hne] at h

theorem first_digit {c : Char} (h : c.isDigit) (rest : List Char) :
    Piece.first c rest = Piece.number c rest := by
  unfold Piece.first
  split
  case h_18 => rw [not_isBlank_of_isDigit h, if_neg Bool.false_ne_true, if_pos h]
  all_goals cases h

theorem first_name {c : Char} (h : startsName c) (rest : List Char) :
    Piece.first c rest = Piece.word c rest := by
  unfold Piece.first
  split
  case h_18 =>
    rw [not_isBlank_of_startsName h, if_neg Bool.false_ne_true, not_isDigit_of_startsName h,
      if_neg Bool.false_ne_true, if_pos h]
  all_goals cases h

theorem first_unexpected {c : Char} (hblank : isBlank c = false)
    (hpunctuation : c ∉ punctuation.map Prod.fst) (hoperator : c ∉ operators.map Prod.fst)
    (hslash : c ≠ '/') (hquote : c ≠ '"') (hdigit : c.isDigit = false)
    (hname : startsName c = false) (rest : List Char) :
    Piece.first c rest = (.fault (.unexpectedCharacter c), 0) := by
  unfold Piece.first
  split
  case h_12 | h_13 | h_14 | h_15 => exact absurd (by decide) hoperator
  case h_16 => exact absurd rfl hslash
  case h_17 => exact absurd rfl hquote
  case h_18 => simp only [hblank, hdigit, hname, Bool.false_eq_true, if_false]
  all_goals exact absurd (by decide) hpunctuation

theorem first_comment {cs rest : List Char} (h : '\n' ∉ cs) (hrest : Stops (· != '\n') rest) :
    Piece.first '/' ('/' :: (cs ++ rest)) = (.blank, cs.length + 1) := by
  have hline : ∀ c ∈ cs, (c != '\n') = true :=
    fun c hc => bne_iff_ne.2 fun heq => h (heq ▸ hc)
  have hrun := takeWhile_append_of_stops hline hrest
  simp only [Piece.first, hrun]
  rw [Nat.add_comm]

theorem orEqual_single {double single : TokenKind} {rest : List Char}
    (h : rest.head? ≠ some '=') : Piece.orEqual double single rest = (.token single none, 0) := by
  unfold Piece.orEqual
  split
  · exact absurd rfl h
  · rfl

theorem first_slash {rest : List Char} (h : rest.head? ≠ some '/') :
    Piece.first '/' rest = (.token .slash none, 0) := by
  simp only [Piece.first]
  split
  · exact absurd rfl h
  · rfl

theorem first_punctuation {c : Char} {k : TokenKind} (h : (c, k) ∈ punctuation)
    (rest : List Char) : Piece.first c rest = (.token k none, 0) := by
  unfold punctuation at h
  repeat' obtain _ | ⟨_, h⟩ := h
  all_goals rfl

theorem first_operator {c : Char} {k k' : TokenKind} (h : (c, k, k') ∈ operators)
    (rest : List Char) : Piece.first c rest = Piece.orEqual k' k rest := by
  unfold operators at h
  repeat' obtain _ | ⟨_, h⟩ := h
  all_goals rfl

/-- What the grammar allows at the start of a text is what the scanner takes. -/
theorem first_of_cut {c : Char} {cs rest : List Char} {p : Piece} (h : Cut (c :: cs) p rest) :
    Piece.first c (cs ++ rest) = (p, cs.length) := by
  cases h with
  | blank h => obtain rfl | rfl | rfl | rfl := h <;> rfl
  | comment h hrest => exact first_comment h hrest
  | punctuation h => exact first_punctuation h rest
  | single h hrest => exact (first_operator h rest).trans (orEqual_single hrest)
  | double h => exact first_operator h ('=' :: rest)
  | slash hrest => exact first_slash hrest
  | text h =>
    rw [List.append_assoc, List.length_append]
    exact string_closed h rest
  | whole h hrest hfraction =>
    obtain ⟨hc, hcs⟩ := List.forall_mem_cons.1 h
    rw [first_digit hc, number_whole hcs hrest hfraction]
  | @decimal _ ds es _ h hne h' hrest =>
    obtain ⟨hc, hds⟩ := List.forall_mem_cons.1 h
    rw [first_digit hc, List.append_assoc, List.cons_append, number_decimal hds hne h' hrest,
      List.length_append, List.length_cons, Nat.add_assoc, Nat.add_comm 1]
  | word h h' hrest => rw [first_name h, word_run h' hrest]
  | unterminated h =>
    rw [List.append_nil]
    exact string_open h
  | unexpected hblank hpunctuation hoperator hslash hquote hdigit hname =>
    exact first_unexpected hblank hpunctuation hoperator hslash hquote hdigit hname rest

theorem Cut.ne_nil {text rest : List Char} {p : Piece} (h : Cut text p rest) : text ≠ [] := by
  cases h <;> exact List.cons_ne_nil _ _

/-- The grammar cuts a source in one way only. -/
theorem Cut.unique {text rest text' rest' : List Char} {p p' : Piece} (h : Cut text p rest)
    (h' : Cut text' p' rest') (hsame : text ++ rest = text' ++ rest') : text = text' ∧ p = p' := by
  obtain ⟨c, cs, rfl⟩ := List.exists_cons_of_ne_nil h.ne_nil
  obtain ⟨c', cs', rfl⟩ := List.exists_cons_of_ne_nil h'.ne_nil
  obtain ⟨rfl, htail⟩ : c = c' ∧ cs ++ rest = cs' ++ rest' := List.cons.inj hsame
  have hfirst := first_of_cut h
  rw [htail, first_of_cut h'] at hfirst
  obtain ⟨rfl, hlength⟩ := Prod.mk.inj hfirst
  exact ⟨congrArg (c :: ·) (List.append_inj_left htail hlength.symm), rfl⟩

/-- What this text begins goes on, in front of `rest`, to a piece that is no fault. -/
def Begins (text rest : List Char) : Prop :=
  ∃ more p after, rest = more ++ after ∧ Cut (text ++ more) p after ∧ ∀ x, p ≠ .fault x

theorem begins_of_cut {text rest : List Char} {p : Piece} (h : Cut text p rest)
    (hp : ∀ x, p ≠ .fault x) : Begins text rest :=
  ⟨[], p, rest, rfl, by rwa [List.append_nil], hp⟩

theorem begins_number {d : Char} {ds : List Char} (h : ∀ x ∈ d :: ds, x.isDigit)
    (rest : List Char) : Begins (d :: ds) rest := by
  obtain ⟨run, tail, rfl, hrun, hstops⟩ := exists_run Char.isDigit rest
  have hall : ∀ x ∈ d :: (ds ++ run), x.isDigit := by
    rw [← List.cons_append]
    exact List.forall_mem_append.2 ⟨h, hrun⟩
  by_cases hfraction : ∀ e more, tail = '.' :: e :: more → e.isDigit = false
  · exact ⟨run, _, tail, rfl, .whole hall hstops hfraction, nofun⟩
  · obtain ⟨e, more, rfl, he⟩ : ∃ e more, tail = '.' :: e :: more ∧ e.isDigit := by
      simpa [Classical.not_forall] using hfraction
    obtain ⟨es, after, rfl, hes, hstops'⟩ := exists_run Char.isDigit more
    have hall' : ∀ x ∈ e :: es, x.isDigit := List.forall_mem_cons.2 ⟨he, hes⟩
    have hcut := Cut.decimal hall (List.cons_ne_nil _ _) hall' hstops'
    rw [List.append_assoc] at hcut
    exact ⟨run ++ '.' :: e :: es, _, after, by simp, hcut, nofun⟩

theorem begins_decimal {d : Char} {ds es : List Char} (h : ∀ x ∈ d :: ds, x.isDigit)
    (hne : es ≠ []) (h' : ∀ e ∈ es, e.isDigit) (rest : List Char) :
    Begins (d :: (ds ++ '.' :: es)) rest := by
  obtain ⟨run, after, rfl, hrun, hstops⟩ := exists_run Char.isDigit rest
  have hcut := Cut.decimal h (List.append_ne_nil_of_left_ne_nil hne _)
    (List.forall_mem_append.2 ⟨h', hrun⟩) hstops
  rw [← List.cons_append (a := '.'), ← List.append_assoc] at hcut
  exact ⟨run, _, after, rfl, hcut, nofun⟩

theorem begins_word {c : Char} {cs : List Char} (h : startsName c)
    (h' : ∀ d ∈ cs, continuesName d) (rest : List Char) : Begins (c :: cs) rest := by
  obtain ⟨run, after, rfl, hrun, hstops⟩ := exists_run continuesName rest
  exact ⟨run, _, after, rfl, .word h (List.forall_mem_append.2 ⟨h', hrun⟩) hstops, nofun⟩

theorem begins_comment {cs : List Char} (h : '\n' ∉ cs) (rest : List Char) :
    Begins ('/' :: '/' :: cs) rest := by
  obtain ⟨run, after, rfl, hrun, hstops⟩ := exists_run (· != '\n') rest
  have hfree : '\n' ∉ cs ++ run := by
    rw [List.mem_append]
    rintro (hline | hline)
    · exact h hline
    · simpa using hrun _ hline
  exact ⟨run, _, after, rfl, .comment hfree hstops, nofun⟩

theorem begins_slash (rest : List Char) : Begins ['/'] rest := by
  by_cases hslash : rest.head? = some '/'
  · obtain ⟨more, rfl⟩ := List.head?_eq_some_iff.1 hslash
    obtain ⟨run, p, after, rfl, h⟩ := begins_comment List.not_mem_nil more
    exact ⟨'/' :: run, p, after, rfl, h⟩
  · exact begins_of_cut (.slash hslash) nofun

theorem begins_operator {c : Char} {k k' : TokenKind} (h : (c, k, k') ∈ operators)
    (rest : List Char) : Begins [c] rest := by
  by_cases hequal : rest.head? = some '='
  · obtain ⟨more, rfl⟩ := List.head?_eq_some_iff.1 hequal
    exact ⟨['='], _, more, rfl, .double h, nofun⟩
  · exact begins_of_cut (.single h hequal) nofun

/-- Nothing ends a token, a comment or a blank but what follows it. -/
theorem Lexeme.begins {text : List Char} (h : Lexeme text) (rest : List Char) :
    Begins text rest := by
  obtain ⟨p, h, hp⟩ := h
  cases h with
  | blank h => exact begins_of_cut (.blank h) hp
  | comment h _ => exact begins_comment h rest
  | punctuation h => exact begins_of_cut (.punctuation h) hp
  | single h _ => exact begins_operator h rest
  | double h => exact begins_of_cut (.double h) hp
  | slash _ => exact begins_slash rest
  | text h => exact begins_of_cut (.text h) hp
  | whole h _ _ => exact begins_number h rest
  | decimal h hne h' _ => exact begins_decimal h hne h' rest
  | word h h' _ => exact begins_word h h' rest
  | unterminated _ => exact absurd rfl (hp _)
  | unexpected => exact absurd rfl (hp _)

/-- No token, comment or blank that stands where a piece is cut is longer than the piece, and none
stands where a fault is. -/
theorem Cut.longest {text rest text' : List Char} {p : Piece} (h : Cut text p rest)
    (h' : Lexeme text') (hhead : text' <+: text ++ rest) :
    (∀ x, p ≠ .fault x) ∧ text'.length ≤ text.length := by
  obtain ⟨rest', hrest'⟩ := hhead
  obtain ⟨more, q, after, rfl, hcut, hq⟩ := h'.begins rest'
  rw [← List.append_assoc] at hrest'
  obtain ⟨rfl, rfl⟩ := hcut.unique h hrest'
  exact ⟨hq, by rw [List.length_append]; exact Nat.le_add_right _ _⟩

theorem exists_cut_quote (rest : List Char) :
    ∃ cs p after, rest = cs ++ after ∧ Cut ('"' :: cs) p after := by
  obtain ⟨cs, tail, rfl, hcs, hstops⟩ := exists_run (· != '"') rest
  have hfree : '"' ∉ cs := fun hquote => by simpa using hcs _ hquote
  cases tail with
  | nil => exact ⟨cs, _, [], rfl, .unterminated hfree⟩
  | cons c after =>
    obtain rfl : c = '"' := by simpa using hstops c rfl
    exact ⟨cs ++ ['"'], _, after, by simp, .text hfree⟩

/-- Every text starts with a piece. -/
theorem exists_cut (c : Char) (rest : List Char) :
    ∃ cs p after, rest = cs ++ after ∧ Cut (c :: cs) p after := by
  have hbegins : Begins [c] rest → ∃ cs p after, rest = cs ++ after ∧ Cut (c :: cs) p after := by
    rintro ⟨cs, p, after, hrest, h, -⟩
    exact ⟨cs, p, after, hrest, h⟩
  by_cases hblank : isBlank c
  · exact ⟨[], _, rest, rfl, .blank (eq_of_isBlank hblank)⟩
  by_cases hpunctuation : c ∈ punctuation.map Prod.fst
  · obtain ⟨⟨c, k⟩, h, rfl⟩ := List.mem_map.1 hpunctuation
    exact ⟨[], _, rest, rfl, .punctuation h⟩
  by_cases hoperator : c ∈ operators.map Prod.fst
  · obtain ⟨⟨c, k, k'⟩, h, rfl⟩ := List.mem_map.1 hoperator
    exact hbegins (begins_operator h rest)
  by_cases hslash : c = '/'
  · subst hslash
    exact hbegins (begins_slash rest)
  by_cases hquote : c = '"'
  · subst hquote
    exact exists_cut_quote rest
  by_cases hdigit : c.isDigit
  · exact hbegins (begins_number (by simpa using hdigit) rest)
  by_cases hname : startsName c
  · exact hbegins (begins_word hname (by simp) rest)
  rw [Bool.not_eq_true] at hblank hdigit hname
  exact ⟨[], _, rest, rfl,
    .unexpected hblank hpunctuation hoperator hslash hquote hdigit hname⟩

/-- The scanner cuts as the grammar says. -/
theorem cut_first (c : Char) (rest : List Char) :
    Cut (c :: rest.take (Piece.first c rest).2) (Piece.first c rest).1
      (rest.drop (Piece.first c rest).2) := by
  obtain ⟨cs, p, after, rfl, h⟩ := exists_cut c rest
  rw [first_of_cut h, List.take_left, List.drop_left]
  exact h

end Lexical

/-- What the grammar cuts off is the first stretch. -/
theorem Stretch.sequence_cut {text rest : List Char} {piece : Piece}
    (h : Lexical.Cut text piece rest) (p : Place) :
    sequence p (text ++ rest) =
      ⟨piece, text, p, p.advance text⟩ :: sequence (p.advance text) rest := by
  obtain ⟨c, cs, rfl⟩ := List.exists_cons_of_ne_nil h.ne_nil
  rw [List.cons_append, sequence, Lexical.first_of_cut h, List.take_left, List.drop_left]

end TinyScript
