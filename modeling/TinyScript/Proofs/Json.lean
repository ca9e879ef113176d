import Mathlib.Algebra.Order.Ring.Unbundled.Rat
import TinyScript.Number.Decimal

/-!
The texts of JSON, as RFC 8259 has them, apart from any way of reading them. A derivation relates
the characters from some place on to the value that stands there and to the characters behind it.
No text has two values.
-/

namespace TinyScript

/-- The members of an object keep their order. -/
inductive Json where
  | null
  | bool (b : Bool)
  | number (q : ℚ)
  | string (s : String)
  | array (elements : List Json)
  | object (members : List (String × Json))

namespace Json

def blanks : List Char := [' ', '\t', '\n', '\r']

/-- Blanks that mean nothing. -/
inductive Skip : List Char → List Char → Prop where
  | none {t : List Char} : Skip t t
  | blank {c : Char} {l t : List Char} (hc : c ∈ blanks) (h : Skip l t) : Skip (c :: l) t

/-- The escapes of one letter, with what they stand for. -/
def escapes : List (Char × Char) := [
  ('"', '"'), ('\\', '\\'), ('/', '/'), ('b', '\x08'), ('f', '\x0c'), ('n', '\n'), ('r', '\r'),
  ('t', '\t')]

def hexDigit? (c : Char) : Option Nat :=
  if c.isDigit then some (c.toNat - '0'.toNat)
  else if 'a' ≤ c ∧ c ≤ 'f' then some (c.toNat - 'a'.toNat + 10)
  else if 'A' ≤ c ∧ c ≤ 'F' then some (c.toNat - 'A'.toNat + 10)
  else none

/-- The code unit that four digits stand for. -/
def codeUnit? (a b c d : Char) : Option Nat := do
  return (((← hexDigit? a) * 16 + (← hexDigit? b)) * 16 + (← hexDigit? c)) * 16 + (← hexDigit? d)

/-- The first half of a pair of code units. -/
def isHigh (n : Nat) : Prop := 0xd800 ≤ n ∧ n < 0xdc00

/-- The second half of a pair of code units. -/
def isLow (n : Nat) : Prop := 0xdc00 ≤ n ∧ n < 0xe000

/-- One character of a string. Half a pair of code units is no character. -/
inductive Character : List Char → Char → List Char → Prop where
  | plain {c : Char} {t : List Char} (hc : 0x20 ≤ c.toNat) (hquote : c ≠ '"') (hslash : c ≠ '\\') :
      Character (c :: t) c t
  | escape {e c : Char} {t : List Char} (h : (e, c) ∈ escapes) : Character ('\\' :: e :: t) c t
  | unit {a b c d : Char} {n : Nat} {t : List Char} (h : codeUnit? a b c d = some n)
      (hn : ¬isHigh n ∧ ¬isLow n) : Character ('\\' :: 'u' :: a :: b :: c :: d :: t) (.ofNat n) t
  | pair {a b c d a' b' c' d' : Char} {high low : Nat} {t : List Char}
      (h : codeUnit? a b c d = some high) (hhigh : isHigh high)
      (h' : codeUnit? a' b' c' d' = some low) (hlow : isLow low) :
      Character ('\\' :: 'u' :: a :: b :: c :: d :: '\\' :: 'u' :: a' :: b' :: c' :: d' :: t)
        (.ofNat (0x10000 + (high - 0xd800) * 0x400 + (low - 0xdc00))) t

/-- The characters of a string and its closing quote. -/
inductive Characters : List Char → List Char → List Char → Prop where
  | close {t : List Char} : Characters ('"' :: t) [] t
  | cons {c : Char} {cs l u t : List Char} (h : Character l c u) (hrest : Characters u cs t) :
      Characters l (c :: cs) t

/-- One digit or more. -/
inductive Digits : List Char → List Char → List Char → Prop where
  | last {d : Char} {t : List Char} (hd : d.isDigit) : Digits (d :: t) [d] t
  | cons {d : Char} {ds l t : List Char} (hd : d.isDigit) (h : Digits l ds t) :
      Digits (d :: l) (d :: ds) t

/-- The digits in front of the point. There is no zero in front of another digit. -/
inductive Whole : List Char → List Char → List Char → Prop where
  | zero {t : List Char} : Whole ('0' :: t) ['0'] t
  | digits {d : Char} {ds l t : List Char} (hd : d ≠ '0') (h : Digits (d :: l) ds t) :
      Whole (d :: l) ds t

inductive Fraction : List Char → List Char → List Char → Prop where
  | none {t : List Char} : Fraction t [] t
  | some {ds l t : List Char} (h : Digits l ds t) : Fraction ('.' :: l) ds t

inductive Exponent : List Char → ℤ → List Char → Prop where
  | none {t : List Char} : Exponent t 0 t
  | bare {e : Char} {ds l t : List Char} (he : e = 'e' ∨ e = 'E') (h : Digits l ds t) :
      Exponent (e :: l) (Decimal.ofDigits ds) t
  | plus {e : Char} {ds l t : List Char} (he : e = 'e' ∨ e = 'E') (h : Digits l ds t) :
      Exponent (e :: '+' :: l) (Decimal.ofDigits ds) t
  | minus {e : Char} {ds l t : List Char} (he : e = 'e' ∨ e = 'E') (h : Digits l ds t) :
      Exponent (e :: '-' :: l) (-(Decimal.ofDigits ds : ℤ)) t

/-- The number `whole.fraction` with an exponent of ten. -/
def unsigned (whole fraction : List Char) (exponent : ℤ) : ℚ :=
  Decimal.ofDigits (whole ++ fraction) * 10 ^ (exponent - fraction.length)

inductive Unsigned : List Char → ℚ → List Char → Prop where
  | mk {ws fs l u v t : List Char} {e : ℤ} (hw : Whole l ws u) (hf : Fraction u fs v)
      (he : Exponent v e t) : Unsigned l (unsigned ws fs e) t

inductive Number : List Char → ℚ → List Char → Prop where
  | plain {l t : List Char} {q : ℚ} (h : Unsigned l q t) : Number l q t
  | minus {l t : List Char} {q : ℚ} (h : Unsigned l q t) : Number ('-' :: l) (-q) t

mutual

inductive Value : List Char → Json → List Char → Prop where
  | null {t : List Char} : Value ('n' :: 'u' :: 'l' :: 'l' :: t) .null t
  | true {t : List Char} : Value ('t' :: 'r' :: 'u' :: 'e' :: t) (.bool true) t
  | false {t : List Char} : Value ('f' :: 'a' :: 'l' :: 's' :: 'e' :: t) (.bool false) t
  | number {l t : List Char} {q : ℚ} (h : Number l q t) : Value l (.number q) t
  | string {l cs t : List Char} (h : Characters l cs t) :
      Value ('"' :: l) (.string (.ofList cs)) t
  | noElements {l t : List Char} (h : Skip l (']' :: t)) : Value ('[' :: l) (.array []) t
  | array {l u t : List Char} {vs : List Json} (hskip : Skip l u) (h : Elements u vs t) :
      Value ('[' :: l) (.array vs) t
  | noMembers {l t : List Char} (h : Skip l ('}' :: t)) : Value ('{' :: l) (.object []) t
  | object {l u t : List Char} {ms : List (String × Json)} (hskip : Skip l u)
      (h : Members u ms t) : Value ('{' :: l) (.object ms) t

/-- The elements of an array and its end. -/
inductive Elements : List Char → List Json → List Char → Prop where
  | last {l u t : List Char} {v : Json} (hv : Value l v u) (hend : Skip u (']' :: t)) :
      Elements l [v] t
  | cons {l u w w' t : List Char} {v : Json} {vs : List Json} (hv : Value l v u)
      (hcomma : Skip u (',' :: w)) (hskip : Skip w w') (h : Elements w' vs t) :
      Elements l (v :: vs) t

/-- The members of an object and its end. -/
inductive Members : List Char → List (String × Json) → List Char → Prop where
  | last {l t : List Char} {m : String × Json} {u : List Char} (hm : Member l m u)
      (hend : Skip u ('}' :: t)) : Members l [m] t
  | cons {l u w w' t : List Char} {m : String × Json} {ms : List (String × Json)}
      (hm : Member l m u) (hcomma : Skip u (',' :: w)) (hskip : Skip w w')
      (h : Members w' ms t) : Members l (m :: ms) t

inductive Member : List Char → String × Json → List Char → Prop where
  | mk {l cs u w w' t : List Char} {v : Json} (hname : Characters l cs u)
      (hcolon : Skip u (':' :: w)) (hskip : Skip w w') (hv : Value w' v t) :
      Member ('"' :: l) (.ofList cs, v) t

end

/-- The whole text is the value, with blanks around it. -/
inductive Document : List Char → Json → Prop where
  | mk {l u t : List Char} {v : Json} (hskip : Skip l u) (hv : Value u v t) (hend : Skip t []) :
      Document l v

/-- What can follow a value. -/
def Follows (t : List Char) : Prop := ∀ c, t.head? = some c → c ∈ blanks ∨ c ∈ [',', ']', '}']

/-- A run of digits ends here. -/
def Ends (t : List Char) : Prop := ∀ c, t.head? = some c → c.isDigit = false

/-- All blanks have been skipped. -/
def Skipped (t : List Char) : Prop := ∀ c, t.head? = some c → c ∉ blanks

theorem skipped_cons {c : Char} {t : List Char} (hc : c ∉ blanks) : Skipped (c :: t) := by
  rintro d ⟨⟩
  exact hc

theorem Skip.unique {l t t' : List Char} (h : Skip l t) (h' : Skip l t') (ht : Skipped t)
    (ht' : Skipped t') : t = t' := by
  induction h with
  | none =>
    cases h' with
    | none => rfl
    | blank hc _ => exact absurd hc (ht _ rfl)
  | blank hc _ ih =>
    cases h' with
    | none => exact absurd hc (ht' _ rfl)
    | blank _ h' => exact ih h' ht

theorem Skip.follows {c : Char} {t r : List Char} (h : Skip t (c :: r))
    (hc : c ∈ [',', ']', '}']) : Follows t := by
  cases h with
  | none =>
    rintro d ⟨⟩
    exact .inr hc
  | blank hd _ =>
    rintro d ⟨⟩
    exact .inl hd

theorem Character.unique {l t t' : List Char} {c c' : Char} (h : Character l c t)
    (h' : Character l c' t') : c = c' ∧ t = t' := by
  have hvalues : ∀ x ∈ escapes, ∀ y ∈ escapes, x.1 = y.1 → x.2 = y.2 := by decide
  have hletter : ∀ x ∈ escapes, x.1 ≠ 'u' := by decide
  cases h with
  | plain _ _ hslash =>
    cases h' with
    | plain _ _ _ => exact ⟨rfl, rfl⟩
    | _ => exact absurd rfl hslash
  | escape h =>
    cases h' with
    | plain _ _ hslash => exact absurd rfl hslash
    | escape h' => exact ⟨hvalues _ h _ h' rfl, rfl⟩
    | unit _ _ => exact absurd rfl (hletter _ h)
    | pair _ _ _ _ => exact absurd rfl (hletter _ h)
  | unit h hn =>
    cases h' with
    | plain _ _ hslash => exact absurd rfl hslash
    | escape h' => exact absurd rfl (hletter _ h')
    | unit h' _ =>
      cases h.symm.trans h'
      exact ⟨rfl, rfl⟩
    | pair h' hhigh _ _ =>
      cases h.symm.trans h'
      exact absurd hhigh hn.1
  | pair h hhigh hsecond hlow =>
    cases h' with
    | plain _ _ hslash => exact absurd rfl hslash
    | escape h' => exact absurd rfl (hletter _ h')
    | unit h' hn =>
      cases h.symm.trans h'
      exact absurd hhigh hn.1
    | pair h' _ hsecond' _ =>
      cases h.symm.trans h'
      cases hsecond.symm.trans hsecond'
      exact ⟨rfl, rfl⟩

theorem Character.ne_quote {l t : List Char} {c : Char} (h : Character l c t) :
    l.head? ≠ some '"' := by
  cases h with
  | plain _ hquote _ => exact fun heq => hquote (Option.some.inj heq)
  | _ => simp

theorem Characters.unique {l cs cs' t t' : List Char} (h : Characters l cs t)
    (h' : Characters l cs' t') : cs = cs' ∧ t = t' := by
  induction h generalizing cs' with
  | close =>
    cases h' with
    | close => exact ⟨rfl, rfl⟩
    | cons h' _ => exact absurd rfl h'.ne_quote
  | cons h _ ih =>
    cases h' with
    | close => exact absurd rfl h.ne_quote
    | cons h' hrest' =>
      obtain ⟨rfl, rfl⟩ := h.unique h'
      obtain ⟨rfl, rfl⟩ := ih hrest'
      exact ⟨rfl, rfl⟩

theorem Digits.not_ends {l ds t : List Char} (h : Digits l ds t) : ¬Ends l := by
  intro hends
  cases h with
  | last hd => exact Bool.false_ne_true ((hends _ rfl).symm.trans hd)
  | cons hd _ => exact Bool.false_ne_true ((hends _ rfl).symm.trans hd)

theorem Digits.unique {l ds ds' t t' : List Char} (h : Digits l ds t) (h' : Digits l ds' t')
    (ht : Ends t) (ht' : Ends t') : ds = ds' ∧ t = t' := by
  induction h generalizing ds' with
  | last _ =>
    cases h' with
    | last _ => exact ⟨rfl, rfl⟩
    | cons _ h' => exact absurd ht h'.not_ends
  | cons _ h ih =>
    cases h' with
    | last _ => exact absurd ht' h.not_ends
    | cons _ h' =>
      obtain ⟨rfl, rfl⟩ := ih h' ht
      exact ⟨rfl, rfl⟩

theorem Follows.ends {t : List Char} (h : Follows t) : Ends t := by
  have hends : ∀ c ∈ blanks ++ [',', ']', '}'], c.isDigit = false := by simp [blanks]
  exact fun c hc => hends c (List.mem_append.2 (h c hc))

theorem Exponent.ends {t r : List Char} {e : ℤ} (h : Exponent t e r) (hr : Follows r) : Ends t := by
  have hletter : ∀ {c : Char}, c = 'e' ∨ c = 'E' → c.isDigit = false := by
    rintro c (rfl | rfl) <;> rfl
  cases h with
  | none => exact hr.ends
  | bare he _ | plus he _ | minus he _ =>
    rintro c ⟨⟩
    exact hletter he

theorem Fraction.ends {t u r : List Char} {ds : List Char} {e : ℤ} (h : Fraction t ds u)
    (he : Exponent u e r) (hr : Follows r) : Ends t := by
  cases h with
  | none => exact he.ends hr
  | some _ =>
    rintro c ⟨⟩
    rfl

theorem Whole.unique {l ds ds' t t' : List Char} (h : Whole l ds t) (h' : Whole l ds' t')
    (ht : Ends t) (ht' : Ends t') : ds = ds' ∧ t = t' := by
  cases h with
  | zero =>
    cases h' with
    | zero => exact ⟨rfl, rfl⟩
    | digits hd _ => exact absurd rfl hd
  | digits hd h =>
    cases h' with
    | zero => exact absurd rfl hd
    | digits _ h' => exact h.unique h' ht ht'

theorem Follows.head_ne {c : Char} {t : List Char} (h : Follows (c :: t))
    (hc : c ∉ blanks ++ [',', ']', '}']) : False :=
  hc (List.mem_append.2 (h c rfl))

theorem Digits.head_isDigit {c : Char} {l ds t : List Char} (h : Digits (c :: l) ds t) :
    c.isDigit := by
  cases h with
  | last hd => exact hd
  | cons hd _ => exact hd

theorem Whole.head_isDigit {c : Char} {l ds t : List Char} (h : Whole (c :: l) ds t) :
    c.isDigit := by
  cases h with
  | zero => rfl
  | digits _ h => exact h.head_isDigit

theorem Exponent.unique {l t t' : List Char} {e e' : ℤ} (h : Exponent l e t)
    (h' : Exponent l e' t') (ht : Follows t) (ht' : Follows t') : e = e' ∧ t = t' := by
  have hletter : ∀ {c : Char} {r : List Char}, c = 'e' ∨ c = 'E' → ¬Follows (c :: r) := by
    rintro c r (rfl | rfl) hr
    · exact hr.head_ne (by decide)
    · exact hr.head_ne (by decide)
  cases h with
  | none =>
    cases h' with
    | none => exact ⟨rfl, rfl⟩
    | bare he _ | plus he _ | minus he _ => exact absurd ht (hletter he)
  | bare he h =>
    cases h' with
    | none => exact absurd ht' (hletter he)
    | bare _ h' =>
      obtain ⟨rfl, rfl⟩ := h.unique h' ht.ends ht'.ends
      exact ⟨rfl, rfl⟩
    | plus _ _ => cases h.head_isDigit
    | minus _ _ => cases h.head_isDigit
  | plus he h =>
    cases h' with
    | none => exact absurd ht' (hletter he)
    | bare _ h' => cases h'.head_isDigit
    | plus _ h' =>
      obtain ⟨rfl, rfl⟩ := h.unique h' ht.ends ht'.ends
      exact ⟨rfl, rfl⟩
  | minus he h =>
    cases h' with
    | none => exact absurd ht' (hletter he)
    | bare _ h' => cases h'.head_isDigit
    | minus _ h' =>
      obtain ⟨rfl, rfl⟩ := h.unique h' ht.ends ht'.ends
      exact ⟨rfl, rfl⟩

/-- A point belongs to the fraction. -/
theorem Exponent.not_point {l t : List Char} {e : ℤ} (ht : Follows t) : ¬Exponent ('.' :: l) e t := by
  intro h
  cases h with
  | none => exact ht.head_ne (by decide)
  | bare he _ | plus he _ | minus he _ => rcases he with he | he <;> cases he

theorem Unsigned.unique {l t t' : List Char} {q q' : ℚ} (h : Unsigned l q t)
    (h' : Unsigned l q' t') (ht : Follows t) (ht' : Follows t') : q = q' ∧ t = t' := by
  obtain ⟨hw, hf, he⟩ := h
  obtain ⟨hw', hf', he'⟩ := h'
  obtain ⟨rfl, rfl⟩ := hw.unique hw' (hf.ends he ht) (hf'.ends he' ht')
  cases hf with
  | none =>
    cases hf' with
    | none =>
      obtain ⟨rfl, rfl⟩ := he.unique he' ht ht'
      exact ⟨rfl, rfl⟩
    | some _ => exact absurd he (Exponent.not_point ht)
  | some hf =>
    cases hf' with
    | none => exact absurd he' (Exponent.not_point ht')
    | some hf' =>
      obtain ⟨rfl, rfl⟩ := hf.unique hf' (he.ends ht) (he'.ends ht')
      obtain ⟨rfl, rfl⟩ := he.unique he' ht ht'
      exact ⟨rfl, rfl⟩

theorem Unsigned.head_isDigit {c : Char} {l t : List Char} {q : ℚ} (h : Unsigned (c :: l) q t) :
    c.isDigit := by
  obtain ⟨hw, -, -⟩ := h
  exact hw.head_isDigit

theorem Number.unique {l t t' : List Char} {q q' : ℚ} (h : Number l q t) (h' : Number l q' t')
    (ht : Follows t) (ht' : Follows t') : q = q' ∧ t = t' := by
  cases h with
  | plain h =>
    cases h' with
    | plain h' => exact h.unique h' ht ht'
    | minus _ => cases h.head_isDigit
  | minus h =>
    cases h' with
    | plain h' => cases h'.head_isDigit
    | minus h' =>
      obtain ⟨rfl, rfl⟩ := h.unique h' ht ht'
      exact ⟨rfl, rfl⟩

/-- What the first character of a number is. -/
theorem Number.head {c : Char} {l t : List Char} {q : ℚ} (h : Number (c :: l) q t) :
    c = '-' ∨ c.isDigit := by
  cases h with
  | plain h => exact .inr h.head_isDigit
  | minus _ => exact .inl rfl

/-- The other values are told from numbers by their first character. -/
theorem Number.not_head {c : Char} {l t : List Char} {q : ℚ} (h : Number (c :: l) q t) :
    ¬(c ≠ '-' ∧ c.isDigit = false) := by
  rintro ⟨hminus, hdigit⟩
  rcases h.head with hc | hc
  · exact hminus hc
  · rw [hdigit] at hc
    cases hc

/-- A value starts neither with a blank nor with the end of an array. -/
theorem Value.head {l t : List Char} {v : Json} (h : Value l v t) :
    Skipped l ∧ l.head? ≠ some ']' := by
  have hdigit : ∀ c ∈ blanks ++ [']'], ¬(c = '-' ∨ c.isDigit) := by simp [blanks]
  cases h with
  | number h =>
    cases l with
    | nil => exact ⟨nofun, nofun⟩
    | cons c l =>
      refine ⟨skipped_cons fun hc => hdigit c (List.mem_append_left _ hc) h.head, ?_⟩
      rintro ⟨⟩
      exact hdigit ']' (by decide) h.head
  | _ => exact ⟨skipped_cons (by decide), by simp⟩

theorem Elements.head {l t : List Char} {vs : List Json} (h : Elements l vs t) :
    Skipped l ∧ l.head? ≠ some ']' := by
  cases h with
  | last hv _ | cons hv _ _ _ => exact hv.head

theorem Members.head {l t : List Char} {ms : List (String × Json)} (h : Members l ms t) :
    Skipped l ∧ l.head? ≠ some '\x7d' := by
  cases h with
  | last hm _ | cons hm _ _ _ =>
    cases hm
    exact ⟨skipped_cons (by decide), by simp⟩

/-- What follows blanks does so in one way. -/
theorem Skip.cons_unique {l t t' : List Char} {c c' : Char} (h : Skip l (c :: t))
    (h' : Skip l (c' :: t')) (hc : c ∉ blanks) (hc' : c' ∉ blanks) : c = c' ∧ t = t' := by
  have heq := h.unique h' (skipped_cons hc) (skipped_cons hc')
  exact List.cons.inj heq

mutual

/-- In front of a separator a value ends in one place and is one value. -/
theorem Value.unique : ∀ {l t t' : List Char} {v v' : Json}, Value l v t → Value l v' t' →
    Follows t → Follows t' → v = v' ∧ t = t'
  | _, _, _, _, _, .null, h', _, _ => by
    cases h' with
    | null => exact ⟨rfl, rfl⟩
    | number h' => exact (h'.not_head (by decide)).elim
  | _, _, _, _, _, .true, h', _, _ => by
    cases h' with
    | true => exact ⟨rfl, rfl⟩
    | number h' => exact (h'.not_head (by decide)).elim
  | _, _, _, _, _, .false, h', _, _ => by
    cases h' with
    | false => exact ⟨rfl, rfl⟩
    | number h' => exact (h'.not_head (by decide)).elim
  | _, _, _, _, _, .number h, h', ht, ht' => by
    cases h' with
    | number h' =>
      obtain ⟨rfl, rfl⟩ := h.unique h' ht ht'
      exact ⟨rfl, rfl⟩
    | _ => exact (h.not_head (by decide)).elim
  | _, _, _, _, _, .string h, h', _, _ => by
    cases h' with
    | string h' =>
      obtain ⟨rfl, rfl⟩ := h.unique h'
      exact ⟨rfl, rfl⟩
    | number h' => exact (h'.not_head (by decide)).elim
  | _, _, _, _, _, .noElements h, h', _, _ => by
    cases h' with
    | noElements h' =>
      obtain ⟨-, rfl⟩ := h.cons_unique h' (by decide) (by decide)
      exact ⟨rfl, rfl⟩
    | array hskip' h' =>
      cases h.unique hskip' (skipped_cons (by decide)) h'.head.1
      exact absurd rfl h'.head.2
    | number h' => exact (h'.not_head (by decide)).elim
  | _, _, _, _, _, .array hskip h, h', _, _ => by
    cases h' with
    | noElements h' =>
      cases h'.unique hskip (skipped_cons (by decide)) h.head.1
      exact absurd rfl h.head.2
    | array hskip' h' =>
      cases hskip.unique hskip' h.head.1 h'.head.1
      obtain ⟨rfl, rfl⟩ := h.unique h'
      exact ⟨rfl, rfl⟩
    | number h' => exact (h'.not_head (by decide)).elim
  | _, _, _, _, _, .noMembers h, h', _, _ => by
    cases h' with
    | noMembers h' =>
      obtain ⟨-, rfl⟩ := h.cons_unique h' (by decide) (by decide)
      exact ⟨rfl, rfl⟩
    | object hskip' h' =>
      cases h.unique hskip' (skipped_cons (by decide)) h'.head.1
      exact absurd rfl h'.head.2
    | number h' => exact (h'.not_head (by decide)).elim
  | _, _, _, _, _, .object hskip h, h', _, _ => by
    cases h' with
    | noMembers h' =>
      cases h'.unique hskip (skipped_cons (by decide)) h.head.1
      exact absurd rfl h.head.2
    | object hskip' h' =>
      cases hskip.unique hskip' h.head.1 h'.head.1
      obtain ⟨rfl, rfl⟩ := h.unique h'
      exact ⟨rfl, rfl⟩
    | number h' => exact (h'.not_head (by decide)).elim

theorem Elements.unique : ∀ {l t t' : List Char} {vs vs' : List Json}, Elements l vs t →
    Elements l vs' t' → vs = vs' ∧ t = t'
  | _, _, _, _, _, .last hv hend, h' => by
    cases h' with
    | last hv' hend' =>
      obtain ⟨rfl, rfl⟩ := hv.unique hv' (hend.follows (by decide)) (hend'.follows (by decide))
      obtain ⟨-, rfl⟩ := hend.cons_unique hend' (by decide) (by decide)
      exact ⟨rfl, rfl⟩
    | cons hv' hcomma' _ _ =>
      obtain ⟨rfl, rfl⟩ := hv.unique hv' (hend.follows (by decide)) (hcomma'.follows (by decide))
      cases (hend.cons_unique hcomma' (by decide) (by decide)).1
  | _, _, _, _, _, .cons hv hcomma hskip h, h' => by
    cases h' with
    | last hv' hend' =>
      obtain ⟨rfl, rfl⟩ := hv.unique hv' (hcomma.follows (by decide)) (hend'.follows (by decide))
      cases (hcomma.cons_unique hend' (by decide) (by decide)).1
    | cons hv' hcomma' hskip' h' =>
      obtain ⟨rfl, rfl⟩ := hv.unique hv' (hcomma.follows (by decide)) (hcomma'.follows (by decide))
      obtain ⟨-, rfl⟩ := hcomma.cons_unique hcomma' (by decide) (by decide)
      cases hskip.unique hskip' h.head.1 h'.head.1
      obtain ⟨rfl, rfl⟩ := h.unique h'
      exact ⟨rfl, rfl⟩

theorem Members.unique : ∀ {l t t' : List Char} {ms ms' : List (String × Json)}, Members l ms t →
    Members l ms' t' → ms = ms' ∧ t = t'
  | _, _, _, _, _, .last hm hend, h' => by
    cases h' with
    | last hm' hend' =>
      obtain ⟨rfl, rfl⟩ := hm.unique hm' (hend.follows (by decide)) (hend'.follows (by decide))
      obtain ⟨-, rfl⟩ := hend.cons_unique hend' (by decide) (by decide)
      exact ⟨rfl, rfl⟩
    | cons hm' hcomma' _ _ =>
      obtain ⟨rfl, rfl⟩ := hm.unique hm' (hend.follows (by decide)) (hcomma'.follows (by decide))
      cases (hend.cons_unique hcomma' (by decide) (by decide)).1
  | _, _, _, _, _, .cons hm hcomma hskip h, h' => by
    cases h' with
    | last hm' hend' =>
      obtain ⟨rfl, rfl⟩ := hm.unique hm' (hcomma.follows (by decide)) (hend'.follows (by decide))
      cases (hcomma.cons_unique hend' (by decide) (by decide)).1
    | cons hm' hcomma' hskip' h' =>
      obtain ⟨rfl, rfl⟩ := hm.unique hm' (hcomma.follows (by decide)) (hcomma'.follows (by decide))
      obtain ⟨-, rfl⟩ := hcomma.cons_unique hcomma' (by decide) (by decide)
      cases hskip.unique hskip' h.head.1 h'.head.1
      obtain ⟨rfl, rfl⟩ := h.unique h'
      exact ⟨rfl, rfl⟩

theorem Member.unique : ∀ {l t t' : List Char} {m m' : String × Json}, Member l m t →
    Member l m' t' → Follows t → Follows t' → m = m' ∧ t = t'
  | _, _, _, _, _, .mk hname hcolon hskip hv, h', ht, ht' => by
    obtain ⟨hname', hcolon', hskip', hv'⟩ := h'
    obtain ⟨rfl, rfl⟩ := hname.unique hname'
    obtain ⟨-, rfl⟩ := hcolon.cons_unique hcolon' (by decide) (by decide)
    cases hskip.unique hskip' hv.head.1 hv'.head.1
    obtain ⟨rfl, rfl⟩ := hv.unique hv' ht ht'
    exact ⟨rfl, rfl⟩

end

theorem Skip.follows_end {t : List Char} (h : Skip t []) : Follows t := by
  cases h with
  | none => nofun
  | blank hc _ =>
    rintro d ⟨⟩
    exact .inl hc

/-- A text is the text of one value at most. -/
theorem Document.unique {l : List Char} {v v' : Json} (h : Document l v) (h' : Document l v') :
    v = v' := by
  obtain ⟨hskip, hv, hend⟩ := h
  obtain ⟨hskip', hv', hend'⟩ := h'
  cases hskip.unique hskip' hv.head.1 hv'.head.1
  exact (hv.unique hv' hend.follows_end hend'.follows_end).1

end Json

end TinyScript
