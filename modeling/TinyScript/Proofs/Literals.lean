import TinyScript.Proofs.Decimals
import TinyScript.Proofs.Lexical
import TinyScript.Proofs.Session

/-!
What a value is written as is a source of that value. The canonical text of a value, between quotes
if the value is a text, is read as one expression, which has the value in every environment.
-/

namespace TinyScript

open Grammar Lexical

namespace Value

/-- The values that a source can spell. -/
def Spellable : Value → Prop
  | number x => x.isFinite
  | text s => '"' ∉ s.toList
  | _ => True

/-- The canonical text, between quotes for a text. -/
def spelling : Value → String
  | text s => "\"" ++ s ++ "\""
  | v => v.display

end Value

theorem Grammar.Phrase.expression {w : List Token} {e : Expr} (h : Phrase .unary w e) :
    Phrase .expression w e :=
  .operand (by decide) (.operand (by decide) (.operand (by decide) (.operand (by decide)
    (.operand (by decide) (.operand (by decide) (.operand (by decide) h))))))

/-- In front of a semicolon the characters are scanned, wherever they stand, as the tokens of an
expression that has the value. -/
def Spells (cs : List Char) (v : Value) : Prop :=
  ∀ (p : Place) (rest : List Char), ∃ found e,
    Stretch.sequence p (cs ++ ';' :: rest) =
      found ++ Stretch.sequence (p.advance cs) (';' :: rest) ∧
    (∀ s ∈ found, s.error? = none) ∧ Phrase .unary (found.filterMap Stretch.token?) e ∧
    ∀ env, e.eval env = (env, .ok v)

theorem spells_of_cut {cs : List Char} {v : Value} {kind : TokenKind} {literal : Option Literal}
    (hcut : ∀ rest, Cut cs (.token kind literal) (';' :: rest))
    (hphrase : ∀ t : Token, t.kind = kind → t.literal = literal →
      Phrase .primary [t] (.literal v)) : Spells cs v := by
  intro p rest
  refine ⟨[⟨.token kind literal, cs, p, p.advance cs⟩], .literal v, ?_, ?_, ?_, fun env => rfl⟩
  · rw [Stretch.sequence_cut (hcut rest), List.singleton_append]
  · intro s hs
    rw [List.mem_singleton.1 hs]
    rfl
  · exact .operand (by decide) (hphrase _ rfl rfl)

theorem spells_word {c : Char} {cs : List Char} {v : Value} (kind : TokenKind)
    (hkind : wordKind (String.ofList (c :: cs)) = kind) (hstart : startsName c)
    (hgoOn : cs.all continuesName)
    (hphrase : ∀ t : Token, t.kind = kind → Phrase .primary [t] (.literal v)) :
    Spells (c :: cs) v := by
  have hcut : ∀ rest, Cut (c :: cs) (.token kind none) (';' :: rest) := by
    intro rest
    have hstops : Stops continuesName (';' :: rest) := by
      rintro d ⟨⟩
      decide
    rw [← hkind]
    exact .word hstart (List.all_eq_true.1 hgoOn) hstops
  exact spells_of_cut hcut fun t ht _ => hphrase t ht

theorem spells_text {s : String} (hs : '"' ∉ s.toList) :
    Spells ('"' :: (s.toList ++ ['"'])) (.text s) := by
  refine spells_of_cut (fun rest => .text hs) fun t ht hl => ?_
  rw [String.ofList_toList] at hl
  exact .literal (.inr ht) hl

theorem stops_semicolon (rest : List Char) : Stops Char.isDigit (';' :: rest) := by
  rintro c ⟨⟩
  rfl

/-- The scanner does not split the digits of a number. -/
theorem cut_point {whole fraction rest : List Char} (hne : whole ≠ [])
    (hwhole : ∀ d ∈ whole, d.isDigit) (hfraction : ∀ d ∈ fraction, d.isDigit)
    (hrest : Stops Char.isDigit rest) (hpoint : rest.head? ≠ some '.') :
    Cut (Decimal.point whole fraction)
      (.token .number (some (.number (Decimal.read whole fraction)))) rest := by
  obtain ⟨d, ds, rfl⟩ := List.exists_cons_of_ne_nil hne
  cases fraction with
  | nil =>
    refine .whole hwhole hrest fun e more heq => ?_
    rw [heq] at hpoint
    exact absurd rfl hpoint
  | cons e es => exact .decimal hwhole (List.cons_ne_nil _ _) hfraction hrest

theorem spells_digits {whole fraction : List Char} (hne : whole ≠ [])
    (hwhole : ∀ d ∈ whole, d.isDigit) (hfraction : ∀ d ∈ fraction, d.isDigit) :
    Spells (Decimal.point whole fraction) (.number (Decimal.read whole fraction)) :=
  spells_of_cut (fun rest => cut_point hne hwhole hfraction (stops_semicolon rest) (by simp))
    fun _ ht hl => .literal (.inl ht) hl

/-- A minus sign is an operator of its own, which changes the sign back. -/
theorem Spells.neg {cs : List Char} {x : Binary64} (h : Spells cs (.number x)) :
    Spells ('-' :: cs) (.number (-x)) := by
  intro p rest
  have hminus : Cut ['-'] (.token .minus none) (cs ++ ';' :: rest) :=
    .punctuation (by simp [punctuation])
  obtain ⟨found, e, hsequence, herrors, hphrase, heval⟩ := h (p.advance ['-']) rest
  refine ⟨⟨.token .minus none, ['-'], p, p.advance ['-']⟩ :: found, .unary .neg p.line e, ?_, ?_, ?_,
    fun env => ?_⟩
  · rw [List.cons_append, ← List.singleton_append, Stretch.sequence_cut hminus, hsequence]
    rfl
  · exact List.forall_mem_cons.2 ⟨rfl, herrors⟩
  · exact .unary rfl hphrase
  · rw [Expr.eval, heval]
    rfl

theorem spells_spelling {v : Value} (hv : v.Spellable) : Spells v.spelling.toList v := by
  cases v with
  | null => exact spells_word .kwNull rfl rfl rfl fun _ ht => .null ht
  | boolean b =>
    cases b with
    | true => exact spells_word .kwTrue rfl rfl rfl fun _ ht => .true ht
    | false => exact spells_word .kwFalse rfl rfl rfl fun _ ht => .false ht
  | text s =>
    have hlist : (Value.text s).spelling.toList = '"' :: (s.toList ++ ['"']) := by
      simp [Value.spelling]
    rw [hlist]
    exact spells_text hv
  | number x =>
    obtain ⟨whole, fraction, hne, hwhole, hfraction, h⟩ := Decimal.read_write hv
    have hdigits := spells_digits hne hwhole hfraction
    change Spells (Decimal.write x).toList (.number x)
    obtain ⟨htext, hx⟩ | ⟨htext, hx⟩ := h
    · rw [htext, String.toList_ofList, hx]
      exact hdigits
    · rw [htext, String.toList_ofList, hx]
      exact hdigits.neg

/-- A semicolon behind the characters is the token behind those of the expression. -/
theorem Spells.clause {cs : List Char} {v : Value} (h : Spells cs v) (p : Place) :
    ∃ w z e, (Stretch.sequence p (cs ++ [';'])).filterMap Stretch.token? = w ++ [z] ∧
      z.kind = .semicolon ∧ (∀ s ∈ Stretch.sequence p (cs ++ [';']), s.error? = none) ∧
      Phrase .expression w e ∧ ∀ env, e.eval env = (env, .ok v) := by
  obtain ⟨found, e, hsequence, herrors, hphrase, heval⟩ := h p []
  have hsemicolon : Cut [';'] (.token .semicolon none) [] :=
    .punctuation (by simp [punctuation])
  have hend := Stretch.sequence_cut hsemicolon (p.advance cs)
  rw [List.append_nil] at hend
  rw [hsequence, hend, Stretch.sequence]
  refine ⟨found.filterMap Stretch.token?, ⟨.semicolon, _, _, _, _⟩, e, List.filterMap_append, rfl,
    ?_, hphrase.expression, heval⟩
  intro s hs
  obtain hs | hs := List.mem_append.1 hs
  · exact herrors s hs
  · rw [List.mem_singleton.1 hs]
    rfl

/-- With a semicolon behind it, the text of a value is read as one expression that has it. -/
theorem read_spelling {v : Value} (hv : v.Spellable) (recover : Bool) :
    ∃ e, Script.read (v.spelling ++ ";") recover = ⟨[.expression e], []⟩ ∧
      ∀ env, e.evaluate env = (env, .ok v) := by
  obtain ⟨w, z, e, hwords, hz, herrors, hphrase, heval⟩ := (spells_spelling hv).clause .start
  refine ⟨e, Script.read_eq_iff.2 ⟨?_, ?_⟩, fun env => ?_⟩
  · rw [String.toList_append]
    exact herrors
  · rw [words, String.toList_append]
    refine hwords ▸ ?_
    rw [← List.append_nil (w ++ [z])]
    exact .cons (.simple (.expression hphrase hz)) .nil
  · rw [Expr.evaluate_eq_eval, heval]

theorem read_print {v : Value} (hv : v.Spellable) (recover : Bool) :
    ∃ e, Script.read ("print " ++ v.spelling ++ ";") recover = ⟨[.print e], []⟩ ∧
      ∀ env, e.evaluate env = (env, .ok v) := by
  have hkeyword : Cut ['p', 'r', 'i', 'n', 't'] (.token .kwPrint none)
      ([' '] ++ (v.spelling.toList ++ [';'])) := by
    have hstops : Stops continuesName ([' '] ++ (v.spelling.toList ++ [';'])) := by
      rintro d ⟨⟩
      decide
    have hgoOn : ['r', 'i', 'n', 't'].all continuesName := rfl
    exact .word rfl (List.all_eq_true.1 hgoOn) hstops
  have hblank : Cut [' '] .blank (v.spelling.toList ++ [';']) := .blank (.inl rfl)
  have hlist : ("print " ++ v.spelling ++ ";").toList =
      ['p', 'r', 'i', 'n', 't'] ++ ([' '] ++ (v.spelling.toList ++ [';'])) := by
    simp [String.toList_append]
  have hsequence := Stretch.sequence_cut hkeyword .start
  rw [Stretch.sequence_cut hblank, ← hlist] at hsequence
  obtain ⟨w, z, e, hwords, hz, herrors, hphrase, heval⟩ := (spells_spelling hv).clause
    ((Place.start.advance ['p', 'r', 'i', 'n', 't']).advance [' '])
  refine ⟨e, Script.read_eq_iff.2 ⟨?_, ?_⟩, fun env => ?_⟩
  · rw [hsequence]
    exact List.forall_mem_cons.2 ⟨rfl, List.forall_mem_cons.2 ⟨rfl, herrors⟩⟩
  · have htokens : words ("print " ++ v.spelling ++ ";") =
        ⟨.kwPrint, String.ofList ['p', 'r', 'i', 'n', 't'], none, 1, ⟨0, 5⟩⟩ :: w ++ [z] := by
      rw [words, hsequence, List.cons_append, ← hwords]
      rfl
    rw [htokens, ← List.append_nil (_ :: w ++ [z])]
    exact .cons (.print rfl hphrase hz) .nil
  · rw [Expr.evaluate_eq_eval, heval]

/-- The text of a value is a source of it: it is read without diagnostics as an expression with
that very value, and printed it comes out in canonical form. -/
theorem spelling_roundtrip {v : Value} (hv : v.Spellable) :
    (∀ recover, ∃ e, Script.read (v.spelling ++ ";") recover = ⟨[.expression e], []⟩ ∧
      ∀ env, e.evaluate env = (env, .ok v)) ∧
    ∀ rounds config text, runSource rounds config (.buffer text) ("print " ++ v.spelling ++ ";") =
      some ⟨[], .success, .buffer (text ++ v.display ++ "\n")⟩ := by
  refine ⟨read_spelling hv, fun rounds config text => ?_⟩
  obtain ⟨e, hread, heval⟩ := read_print hv config.recover
  have hrun : Machine.run rounds ⟨.new config.scoping, .buffer text⟩ [.print e] =
      some (⟨.new config.scoping, .buffer (text ++ v.display ++ "\n")⟩, none) := by
    simp only [Machine.run, Machine.execute, Machine.evaluate, heval, Sink.printLine]
    rfl
  rw [runSource, hread]
  simp only [List.isEmpty_nil, if_true, hrun]

theorem minus_tenth_roundtrip :
    let x : Binary64 := ⟨0xBFB999999999999A⟩
    (Value.number x).Spellable ∧
      (∀ recover, ∃ e, Script.read "-0.1;" recover = ⟨[.expression e], []⟩ ∧
        ∀ env, e.evaluate env = (env, .ok (.number x))) ∧
      ∀ rounds config, runSource rounds config (.buffer "") "print -0.1;" =
        some ⟨[], .success, .buffer "-0.1\n"⟩ := by
  intro x
  have hfinite : (Value.number x).Spellable := by
    change x.isFinite
    decide +kernel
  have hdisplay : (Value.number x).display = "-0.1" := by decide +kernel
  have hspelling : (Value.number x).spelling = "-0.1" := hdisplay
  obtain ⟨hread, hprint⟩ := spelling_roundtrip hfinite
  rw [hspelling, hdisplay] at hprint
  rw [hspelling] at hread
  exact ⟨hfinite, hread, fun rounds config => hprint rounds config ""⟩

end TinyScript
