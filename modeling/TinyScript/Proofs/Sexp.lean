import TinyScript.Proofs.Lexical

/-!
Trees of words in parentheses, and their text. Every word is a token of the language that ends where
a blank or a parenthesis follows, so that the text of a tree can be taken apart in one way only.
-/

namespace TinyScript

open Lexical

/-- A word, or a head that is applied to trees. -/
inductive Sexp where
  | word (s : String)
  | form (head : String) (items : List Sexp)

namespace Sexp

mutual

def chars : Sexp → List Char
  | word s => s.toList
  | form head items => '(' :: (head.toList ++ tail items)

/-- The items with a blank in front of each, and the end of the form. -/
def tail : List Sexp → List Char
  | [] => [')']
  | x :: xs => ' ' :: (x.chars ++ tail xs)

end

/-- The trees, each on a line of its own. -/
def lines (xs : List Sexp) : List Char := xs.flatMap fun x => x.chars ++ ['\n']

/-- What can follow a word. -/
def Delimited (rest : List Char) : Prop :=
  ∀ c, rest.head? = some c → c = ' ' ∨ c = ')' ∨ c = '\n'

/-- A token of the language that what follows does not prolong. -/
def Word (s : String) : Prop :=
  ∃ k l, k ≠ .leftParen ∧ ∀ rest, Delimited rest → Cut s.toList (.token k l) rest

inductive Sound : Sexp → Prop where
  | word {s : String} (h : Word s) : Sound (.word s)
  | form {head : String} {items : List Sexp} (hhead : Word head)
      (hitems : ∀ x ∈ items, Sound x) : Sound (.form head items)

theorem delimited_tail (xs : List Sexp) (r : List Char) : Delimited (tail xs ++ r) := by
  cases xs with
  | nil =>
    rintro c ⟨⟩
    exact .inr (.inl rfl)
  | cons x xs =>
    rintro c ⟨⟩
    exact .inl rfl

theorem delimited_newline (r : List Char) : Delimited ('\n' :: r) := by
  rintro c ⟨⟩
  exact .inr (.inr rfl)

theorem delimited_stops {p : Char → Bool} (hp : p ' ' = false ∧ p ')' = false ∧ p '\n' = false)
    {rest : List Char} (h : Delimited rest) : Stops p rest := by
  intro c hc
  rcases h c hc with rfl | rfl | rfl
  · exact hp.1
  · exact hp.2.1
  · exact hp.2.2

theorem Delimited.head_ne {rest : List Char} (h : Delimited rest) {c : Char}
    (hc : c ≠ ' ' ∧ c ≠ ')' ∧ c ≠ '\n') : rest.head? ≠ some c := by
  intro hhead
  rcases h c hhead with heq | heq | heq
  · exact hc.1 heq
  · exact hc.2.1 heq
  · exact hc.2.2 heq

namespace Word

theorem unique {s s' : String} (h : Word s) (h' : Word s') {r r' : List Char} (hr : Delimited r)
    (hr' : Delimited r') (hsame : s.toList ++ r = s'.toList ++ r') : s = s' ∧ r = r' := by
  obtain ⟨k, l, -, hcut⟩ := h
  obtain ⟨k', l', -, hcut'⟩ := h'
  obtain ⟨hs, -⟩ := (hcut r hr).unique (hcut' r' hr') hsame
  rw [hs] at hsame
  exact ⟨String.toList_inj.1 hs, List.append_cancel_left hsame⟩

theorem not_form {s : String} (h : Word s) {r r' : List Char} (hr : Delimited r) :
    s.toList ++ r ≠ '(' :: r' := by
  intro hsame
  obtain ⟨k, l, hk, hcut⟩ := h
  have hparen : Cut ['('] (.token .leftParen none) r' := .punctuation (by simp [punctuation])
  obtain ⟨-, hpiece⟩ := (hcut r hr).unique hparen hsame
  cases hpiece
  exact hk rfl

end Word

mutual

/-- In front of a blank or a parenthesis the text of a tree ends in one place and is that of one
tree. -/
theorem chars_unique : ∀ {x y : Sexp}, x.Sound → y.Sound → ∀ {r r' : List Char}, Delimited r →
    Delimited r' → x.chars ++ r = y.chars ++ r' → x = y ∧ r = r'
  | .word s, .word s', .word h, .word h', r, r', hr, hr', hsame => by
    obtain ⟨rfl, hrest⟩ := h.unique h' hr hr' hsame
    exact ⟨rfl, hrest⟩
  | .word _, .form _ _, .word h, _, _, _, hr, _, hsame => absurd hsame (h.not_form hr)
  | .form _ _, .word _, _, .word h', _, _, _, hr', hsame => absurd hsame.symm (h'.not_form hr')
  | .form head items, .form head' items', .form h hitems, .form h' hitems', r, r', hr, hr', hsame => by
    rw [chars, chars, List.cons_append, List.cons_append, List.append_assoc, List.append_assoc]
      at hsame
    obtain ⟨rfl, htail⟩ := h.unique h' (delimited_tail items r) (delimited_tail items' r')
      (List.cons.inj hsame).2
    obtain ⟨rfl, hrest⟩ := tail_unique hitems hitems' htail
    exact ⟨rfl, hrest⟩

theorem tail_unique : ∀ {xs ys : List Sexp}, (∀ x ∈ xs, x.Sound) → (∀ y ∈ ys, y.Sound) →
    ∀ {r r' : List Char}, tail xs ++ r = tail ys ++ r' → xs = ys ∧ r = r'
  | [], [], _, _, _, _, hsame => ⟨rfl, (List.cons.inj hsame).2⟩
  | [], _ :: _, _, _, _, _, hsame => by
    cases (List.cons.inj hsame).1
  | _ :: _, [], _, _, _, _, hsame => by
    cases (List.cons.inj hsame).1
  | x :: xs, y :: ys, hxs, hys, r, r', hsame => by
    obtain ⟨hx, hxrest⟩ := List.forall_mem_cons.1 hxs
    obtain ⟨hy, hyrest⟩ := List.forall_mem_cons.1 hys
    rw [tail, tail, List.cons_append, List.cons_append, List.append_assoc, List.append_assoc]
      at hsame
    obtain ⟨rfl, hrest⟩ := chars_unique hx hy (delimited_tail xs r) (delimited_tail ys r')
      (List.cons.inj hsame).2
    obtain ⟨rfl, hend⟩ := tail_unique hxrest hyrest hrest
    exact ⟨rfl, hend⟩

end

theorem lines_cons (x : Sexp) (xs : List Sexp) : lines (x :: xs) = x.chars ++ '\n' :: lines xs := by
  rw [lines, List.flatMap_cons, List.append_assoc]
  rfl

theorem lines_unique {xs ys : List Sexp} (hxs : ∀ x ∈ xs, x.Sound) (hys : ∀ y ∈ ys, y.Sound)
    (hsame : lines xs = lines ys) : xs = ys := by
  induction xs generalizing ys with
  | nil =>
    cases ys with
    | nil => rfl
    | cons y ys =>
      rw [lines_cons] at hsame
      exact absurd hsame.symm (List.append_ne_nil_of_right_ne_nil _ (List.cons_ne_nil _ _))
  | cons x xs ih =>
    cases ys with
    | nil =>
      rw [lines_cons] at hsame
      exact absurd hsame (List.append_ne_nil_of_right_ne_nil _ (List.cons_ne_nil _ _))
    | cons y ys =>
      obtain ⟨hx, hxrest⟩ := List.forall_mem_cons.1 hxs
      obtain ⟨hy, hyrest⟩ := List.forall_mem_cons.1 hys
      rw [lines_cons, lines_cons] at hsame
      obtain ⟨rfl, hrest⟩ := chars_unique hx hy (delimited_newline _) (delimited_newline _) hsame
      rw [ih hxrest hyrest (List.cons.inj hrest).2]

section Words

variable {c : Char}

theorem word_punctuation (h : c ∈ punctuation.map Prod.fst) (hc : c ≠ '(') :
    Word (String.ofList [c]) := by
  obtain ⟨⟨c, k⟩, hmem, rfl⟩ := List.mem_map.1 h
  have hkinds : ∀ x ∈ punctuation, x.1 ≠ '(' → x.2 ≠ .leftParen := by decide
  refine ⟨k, none, hkinds _ hmem hc, fun _ _ => ?_⟩
  rw [String.toList_ofList]
  exact .punctuation hmem

/-- An operator is a word, and so is the one with an equals sign behind it. -/
theorem word_operator (h : c ∈ operators.map Prod.fst) :
    Word (String.ofList [c]) ∧ Word (String.ofList [c, '=']) := by
  obtain ⟨⟨c, k, k'⟩, hmem, rfl⟩ := List.mem_map.1 h
  have hkinds : ∀ x ∈ operators, x.2.1 ≠ .leftParen ∧ x.2.2 ≠ .leftParen := by decide
  constructor
  · refine ⟨k, none, (hkinds _ hmem).1, fun _ hrest => ?_⟩
    rw [String.toList_ofList]
    exact .single hmem (hrest.head_ne (by decide))
  · refine ⟨k', none, (hkinds _ hmem).2, fun _ _ => ?_⟩
    rw [String.toList_ofList]
    exact .double hmem

theorem word_slash : Word "/" :=
  ⟨.slash, none, by decide, fun _ hrest => .slash (hrest.head_ne (by decide))⟩

theorem wordKind_ne_leftParen (s : String) : wordKind s ≠ .leftParen := by
  rw [wordKind, ← ofWord?_eq]
  unfold TokenKind.ofWord?
  split <;> decide

/-- The text of a name or of a reserved word. -/
def Letters (s : String) : Prop :=
  ∃ c cs, s.toList = c :: cs ∧ startsName c ∧ ∀ d ∈ cs, continuesName d

theorem Letters.cut {s : String} (h : Letters s) {rest : List Char} (hrest : Delimited rest) :
    Cut s.toList (.token (wordKind s) none) rest := by
  obtain ⟨c, cs, hs, hstart, hgoOn⟩ := h
  obtain rfl : s = String.ofList (c :: cs) := by rw [← hs, String.ofList_toList]
  rw [String.toList_ofList]
  exact .word hstart hgoOn (delimited_stops (by decide) hrest)

theorem Letters.word {s : String} (h : Letters s) : Word s :=
  ⟨_, none, wordKind_ne_leftParen s, fun _ hrest => h.cut hrest⟩

end Words

end Sexp

end TinyScript
