import TinyScript.Diagnostic.Report
import TinyScript.Proofs.Decimals
import TinyScript.Proofs.Json

/-!
A report in JSON is a text of JSON. Its value is an array with an object for each diagnostic, which
has the fields of the diagnostic as they are, whatever characters stand in them.
-/

namespace TinyScript

open Json

/-- The object that stands for a diagnostic. -/
def Diagnostic.json (d : Diagnostic) : Json := .object [
  ("code", .string d.code.text), ("phase", .string d.phase.text), ("line", .number d.line),
  ("location", d.location.elim .null .string), ("message", .string d.message)]

namespace Report

theorem hexDigit?_digitChar {n : Nat} (hn : n < 16) : hexDigit? n.digitChar = some n := by
  have hall : ∀ n < 16, hexDigit? n.digitChar = some n := by decide
  exact hall n hn

/-- A number of two bytes has four digits, zeros in front included. -/
theorem toList_hexFour {n : Nat} (hn : n < 65536) : (hexFour n).toList =
    [(n / 16 / 16 / 16).digitChar, (n / 16 / 16 % 16).digitChar, (n / 16 % 16).digitChar,
      (n % 16).digitChar] := by
  have hbase : 1 < 16 := by decide
  rw [hexFour, String.toList_ofList]
  by_cases h : n < 16
  · simp only [Nat.toDigits_of_lt_base h, show n / 16 = 0 by omega, Nat.mod_eq_of_lt h]
    rfl
  rw [Nat.toDigits_of_base_le hbase (Nat.le_of_not_lt h)]
  by_cases h' : n / 16 < 16
  · simp only [Nat.toDigits_of_lt_base h', show n / 16 / 16 = 0 by omega, Nat.mod_eq_of_lt h']
    rfl
  rw [Nat.toDigits_of_base_le hbase (Nat.le_of_not_lt h')]
  by_cases h'' : n / 16 / 16 < 16
  · simp only [Nat.toDigits_of_lt_base h'', show n / 16 / 16 / 16 = 0 by omega,
      Nat.mod_eq_of_lt h'']
    rfl
  rw [Nat.toDigits_of_base_le hbase (Nat.le_of_not_lt h''), Nat.toDigits_of_lt_base (by omega)]
  rfl

theorem codeUnit?_hexFour {n : Nat} (hn : n < 65536) :
    ∃ a b c d, (hexFour n).toList = [a, b, c, d] ∧ codeUnit? a b c d = some n := by
  refine ⟨_, _, _, _, toList_hexFour hn, ?_⟩
  simp only [codeUnit?, hexDigit?_digitChar (show n / 16 / 16 / 16 < 16 by omega),
    hexDigit?_digitChar (show n / 16 / 16 % 16 < 16 by omega),
    hexDigit?_digitChar (show n / 16 % 16 < 16 by omega),
    hexDigit?_digitChar (show n % 16 < 16 by omega)]
  change some _ = some n
  congr 1
  omega

/-- What is written for a character stands for it. -/
theorem character_jsonChar (c : Char) (t : List Char) : Character ((jsonChar c).toList ++ t) c t := by
  unfold jsonChar
  split
  case h_6 hquote hslash _ _ _ =>
    split
    · next hcontrol =>
      have hlt : c.toNat < 0xa0 := by
        simp only [isControl, Bool.or_eq_true, Bool.and_eq_true, decide_eq_true_eq] at hcontrol
        omega
      obtain ⟨a, b, d, e, hlist, hunit⟩ := codeUnit?_hexFour (n := c.toNat) (by omega)
      have hcharacter := Character.unit (t := t) hunit
        (by constructor <;> simp only [isHigh, isLow] <;> omega)
      rw [Char.ofNat_toNat] at hcharacter
      rw [String.toList_append, hlist]
      exact hcharacter
    · next hcontrol =>
      have hle : 0x20 ≤ c.toNat := by
        simp only [isControl, Bool.or_eq_true, decide_eq_true_eq, not_or] at hcontrol
        omega
      rw [Char.toString, String.toList_singleton]
      exact .plain hle hquote hslash
  all_goals exact .escape (by decide)

theorem characters_jsonChar (cs t : List Char) :
    Characters (cs.flatMap (fun c => (jsonChar c).toList) ++ '"' :: t) cs t := by
  induction cs with
  | nil => exact .close
  | cons c cs ih =>
    rw [List.flatMap_cons, List.append_assoc]
    exact .cons (character_jsonChar c _) ih

theorem toList_jsonString (s : String) : (jsonString s).toList =
    '"' :: (s.toList.flatMap (fun c => (jsonChar c).toList) ++ ['"']) := by
  have hfold : ∀ (cs : List Char) (out : String),
      (cs.foldl (fun out c => out ++ jsonChar c) out).toList =
        out.toList ++ cs.flatMap fun c => (jsonChar c).toList := by
    intro cs
    induction cs with
    | nil => simp
    | cons c cs ih =>
      intro out
      rw [List.foldl_cons, ih, String.toList_append, List.append_assoc, List.flatMap_cons]
  rw [jsonString, String.foldl_eq_foldl_toList, String.toList_append, hfold]
  rfl

theorem value_jsonString (s : String) (t : List Char) :
    Value ((jsonString s).toList ++ t) (.string s) t := by
  have hvalue := Value.string (characters_jsonChar s.toList t)
  rw [String.ofList_toList] at hvalue
  rw [toList_jsonString, List.cons_append, List.append_assoc]
  exact hvalue

/-- The first digit of a positive number is not zero. -/
theorem toDigits_head (n : Nat) (hn : 0 < n) : ∃ d ds, Nat.toDigits 10 n = d :: ds ∧ d ≠ '0' := by
  induction n using Nat.strongRecOn with
  | ind n ih =>
    by_cases hlt : n < 10
    · have hall : ∀ n < 10, 0 < n → n.digitChar ≠ '0' := by decide
      exact ⟨_, [], Nat.toDigits_of_lt_base hlt, hall n hlt hn⟩
    · obtain ⟨d, ds, hdigits, hd⟩ := ih (n / 10) (by omega) (by omega)
      rw [Nat.toDigits_of_base_le (by decide) (Nat.le_of_not_lt hlt), hdigits]
      exact ⟨d, _, List.cons_append, hd⟩

theorem digits_append {ds : List Char} (hne : ds ≠ []) (h : ∀ d ∈ ds, d.isDigit) (t : List Char) :
    Digits (ds ++ t) ds t := by
  induction ds with
  | nil => exact absurd rfl hne
  | cons d ds ih =>
    obtain ⟨hd, hds⟩ := List.forall_mem_cons.1 h
    cases ds with
    | nil => exact .last hd
    | cons e es => exact .cons hd (ih (List.cons_ne_nil _ _) hds)

theorem whole_toDigits (n : Nat) (t : List Char) :
    Whole (Nat.toDigits 10 n ++ t) (Nat.toDigits 10 n) t := by
  rcases Nat.eq_zero_or_pos n with rfl | hn
  · exact .zero
  · obtain ⟨d, ds, hdigits, hd⟩ := toDigits_head n hn
    have hrun := digits_append (hdigits ▸ List.cons_ne_nil d ds) (Decimal.isDigit_toDigits n) t
    rw [hdigits] at hrun ⊢
    exact .digits hd hrun

theorem value_toString (n : Nat) (t : List Char) :
    Value ((toString n).toList ++ t) (.number n) t := by
  have hvalue : unsigned (Nat.toDigits 10 n) [] 0 = n := by
    rw [unsigned, List.append_nil, Decimal.ofDigits_toDigits]
    simp
  have hnumber := Number.plain (Unsigned.mk (whole_toDigits n t) .none .none)
  rw [hvalue] at hnumber
  change Value (n.repr.toList ++ t) _ _
  rw [Nat.toList_repr]
  exact .number hnumber

/-- A character that stands for itself. -/
def isPlain (c : Char) : Bool := 0x20 ≤ c.toNat && c != '"' && c != '\\'

theorem characters_plain {cs : List Char} (h : cs.all isPlain) (t : List Char) :
    Characters (cs ++ '"' :: t) cs t := by
  induction cs with
  | nil => exact .close
  | cons c cs ih =>
    rw [List.all_cons, Bool.and_eq_true] at h
    obtain ⟨hplain, hrest⟩ := h
    simp only [isPlain, Bool.and_eq_true, decide_eq_true_eq, bne_iff_ne] at hplain
    exact .cons (.plain hplain.1.1 hplain.1.2 hplain.2) (ih hrest)

/-- A field with `value` behind its name. -/
def field (name : String) (value : List Char) : List Char :=
  '"' :: (name.toList ++ '"' :: ':' :: ' ' :: value)

theorem field_append (name : String) (value t : List Char) :
    field name value ++ t = field name (value ++ t) := by
  rw [field, List.cons_append, List.append_assoc]
  rfl

theorem member_field {name : String} {l t : List Char} {v : Json} (h : name.toList.all isPlain)
    (hv : Value l v t) : Member (field name l) (name, v) t := by
  have hmember := Member.mk (characters_plain h _) .none (.blank (c := ' ') (by decide) .none) hv
  rwa [String.ofList_toList] at hmember

/-- Behind the field there are a comma, a blank and other fields. -/
theorem members_field (name : String) {l u t : List Char} {v : Json} {ms : List (String × Json)}
    (h : name.toList.all isPlain) (hv : Value l v (',' :: ' ' :: u)) (hrest : Members u ms t) :
    Members (field name l) ((name, v) :: ms) t :=
  .cons (member_field h hv) .none (.blank (by decide) .none) hrest

def locationText : Option String → String
  | some l => jsonString l
  | none => "null"

theorem value_locationText (location : Option String) (t : List Char) :
    Value ((locationText location).toList ++ t) (location.elim .null .string) t := by
  cases location with
  | none => exact .null
  | some l => exact value_jsonString l t

/-- The text of an object from its brace on. -/
def objectText (d : Diagnostic) : List Char :=
  '\x7b' :: field "code" ((jsonString d.code.text).toList ++
    ',' :: ' ' :: field "phase" ((jsonString d.phase.text).toList ++
    ',' :: ' ' :: field "line" ((toString d.line).toList ++
    ',' :: ' ' :: field "location" ((locationText d.location).toList ++
    ',' :: ' ' :: field "message" ((jsonString d.message).toList ++ ['\x7d'])))))

theorem toList_jsonObject (d : Diagnostic) :
    (jsonObject d).toList = '\n' :: ' ' :: ' ' :: objectText d := by
  unfold jsonObject objectText
  cases d.location with
  | none | some _ =>
    simp only [locationText, field, String.toList_append, List.append_assoc]
    -- only the text between the values is looked at
    generalize (jsonString d.code.text).toList = code
    generalize (jsonString d.phase.text).toList = phase
    generalize (toString d.line).toList = line
    generalize (jsonString d.message).toList = message
    simp

theorem value_objectText (d : Diagnostic) (t : List Char) : Value (objectText d ++ t) d.json t := by
  have hmessage : Members _ [("message", .string d.message)] t :=
    .last (member_field rfl (value_jsonString d.message ('\x7d' :: t))) .none
  have hlocation := members_field "location" rfl (value_locationText d.location _) hmessage
  have hline := members_field "line" rfl (value_toString d.line _) hlocation
  have hphase := members_field "phase" rfl (value_jsonString d.phase.text _) hline
  have hcode := members_field "code" rfl (value_jsonString d.code.text _) hphase
  have hobject := Value.object .none hcode
  simpa only [objectText, Diagnostic.json, List.cons_append, field_append, List.append_assoc,
    List.nil_append] using hobject

/-- The objects behind the first one, each behind a comma, and the end of the array. -/
def restText : List Diagnostic → List Char
  | [] => ['\n', ']']
  | d :: ds => ',' :: '\n' :: ' ' :: ' ' :: (objectText d ++ restText ds)

theorem elements_restText (ds : List Diagnostic) (d : Diagnostic) :
    Elements (objectText d ++ restText ds) ((d :: ds).map Diagnostic.json) [] := by
  have hskip : ∀ l : List Char, Skip ('\n' :: ' ' :: ' ' :: l) l := fun l =>
    .blank (by decide) (.blank (by decide) (.blank (by decide) .none))
  induction ds generalizing d with
  | nil => exact .last (value_objectText d _) (.blank (by decide) .none)
  | cons d' ds ih => exact .cons (value_objectText d _) .none (hskip _) (ih d')

end Report

namespace Emitter

/-- Behind the first object the emitter puts a comma in front of each. -/
theorem emitAll_rest (ds : List Diagnostic) (out : String) :
    ∃ body, ds.foldl (fun (e, out) d => let (e, s) := emit e d; (e, out ++ s)) (json false, out) =
        (json false, body) ∧ body.toList ++ ['\n', ']'] = out.toList ++ Report.restText ds := by
  induction ds generalizing out with
  | nil => exact ⟨out, rfl, rfl⟩
  | cons d ds ih =>
    obtain ⟨body, hfold, hbody⟩ := ih (out ++ ("," ++ Report.jsonObject d))
    refine ⟨body, hfold, hbody.trans ?_⟩
    rw [String.toList_append, String.toList_append, Report.toList_jsonObject]
    simp [Report.restText]

theorem emitAll_json (d : Diagnostic) (ds : List Diagnostic) :
    ∃ body, (json true).emitAll (d :: ds) = (json false, body) ∧ body.toList ++ ['\n', ']'] =
      '\n' :: ' ' :: ' ' :: (Report.objectText d ++ Report.restText ds) := by
  obtain ⟨body, hfold, hbody⟩ := emitAll_rest ds ("" ++ ("" ++ Report.jsonObject d))
  refine ⟨body, hfold, hbody.trans ?_⟩
  rw [String.empty_append, String.empty_append, Report.toList_jsonObject]
  rfl

end Emitter

/-- The text of a report in JSON, up to the end of its last line. -/
def reportText : List Diagnostic → List Char
  | [] => ['[', ']']
  | d :: ds => '[' :: '\n' :: ' ' :: ' ' :: (Report.objectText d ++ Report.restText ds)

theorem toList_report (colored : Bool) (ds : List Diagnostic) :
    (report .json colored ds).toList = reportText ds ++ ['\n'] := by
  cases ds with
  | nil =>
    have hnone : report .json colored [] = "[" ++ "" ++ "]\n" ++ "" := rfl
    rw [hnone]
    simp [reportText]
  | cons d ds =>
    obtain ⟨body, hemit, hbody⟩ := Emitter.emitAll_json d ds
    have hreport : report .json colored (d :: ds) = "[" ++ body ++ "\n]\n" ++ "" := by
      rw [report, Emitter.start, hemit]
      rfl
    have htext : reportText (d :: ds) = '[' :: (body.toList ++ ['\n', ']']) := by
      rw [hbody, reportText]
    rw [hreport, htext]
    simp

/-- A report in JSON is the text of one value, with the end of a line behind it. The value is an
array of what the diagnostics are, in their order. -/
theorem report_is_json (colored : Bool) (ds : List Diagnostic) :
    ∃ text : List Char, (report .json colored ds).toList = text ++ ['\n'] ∧
      Document text (.array (ds.map Diagnostic.json)) ∧
      ∀ v, Document text v → v = .array (ds.map Diagnostic.json) := by
  have hdocument : Document (reportText ds) (.array (ds.map Diagnostic.json)) := by
    refine .mk .none ?_ .none
    cases ds with
    | nil => exact .noElements .none
    | cons d ds =>
      exact .array (.blank (by decide) (.blank (by decide) (.blank (by decide) .none)))
        (Report.elements_restText ds d)
  exact ⟨reportText ds, toList_report colored ds, hdocument, fun v hv => hv.unique hdocument⟩

end TinyScript
