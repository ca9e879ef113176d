import TinyScript.Diagnostic.Report
import TinyScript.Proofs.Decimals
import TinyScript.Proofs.ErrorTokens
import TinyScript.Proofs.LongestMatch
import TinyScript.Proofs.Outcomes

/-!
The lines of a report in text. A report is written to have a line for each diagnostic and one with
their number, and a message fits on a line whatever it is about. But an error of syntax is located
by the lexeme of its token, and the lexeme of a text has the line breaks of the text.
-/

namespace TinyScript

def lineBreaks (s : String) : Nat := s.toList.count '\n'

theorem lineBreaks_append (s t : String) : lineBreaks (s ++ t) = lineBreaks s + lineBreaks t := by
  rw [lineBreaks, String.toList_append, List.count_append, lineBreaks, lineBreaks]

theorem lineBreaks_join (ss : List String) :
    lineBreaks (String.join ss) = (ss.map lineBreaks).sum := by
  rw [lineBreaks, String.toList_join, List.count_flatMap]
  rfl

theorem lineBreaks_eq_zero {s : String} : lineBreaks s = 0 ↔ '\n' ∉ s.toList := List.count_eq_zero

/-- A text between quotes, with words in front, has its own line feeds only. -/
theorem lineBreaks_quote {before : String} (h : lineBreaks before = 0) (s : String) :
    lineBreaks (before ++ s ++ "'") = lineBreaks s := by
  have hquote : lineBreaks "'" = 0 := by decide
  rw [lineBreaks_append, lineBreaks_append, h, hquote, Nat.zero_add, Nat.add_zero]

theorem lineBreaks_toString (n : Nat) : lineBreaks (toString n) = 0 := by
  change lineBreaks n.repr = 0
  rw [lineBreaks_eq_zero, Nat.toList_repr]
  exact fun h => absurd (Decimal.isDigit_toDigits n _ h) (by decide)

theorem sum_map_eq_zero {β : Type} {f : β → Nat} {l : List β} :
    (l.map f).sum = 0 ↔ ∀ b ∈ l, f b = 0 := by
  rw [List.sum_eq_zero_iff, List.forall_mem_map]

/-- The text is made of these lines, each with a line feed behind it and none in it. -/
structure Lines (text : String) (ls : List String) : Prop where
  joined : text = String.join (ls.map (· ++ "\n"))
  whole : ∀ l ∈ ls, lineBreaks l = 0

theorem lineBreaks_lines (ls : List String) :
    lineBreaks (String.join (ls.map (· ++ "\n"))) = (ls.map lineBreaks).sum + ls.length := by
  have hline : lineBreaks ∘ (· ++ "\n") = fun l => lineBreaks l + 1 := by
    funext l
    exact lineBreaks_append l "\n"
  rw [lineBreaks_join, List.map_map, hline, List.sum_map_add, List.map_const', List.sum_replicate,
    smul_eq_mul, Nat.mul_one]

theorem Lines.lineBreaks_eq {text : String} {ls : List String} (h : Lines text ls) :
    lineBreaks text = ls.length := by
  rw [h.joined, lineBreaks_lines, sum_map_eq_zero.2 h.whole, Nat.zero_add]

/-! The report of any diagnostics. -/

/-- The line behind the diagnostics. -/
def countLine (n : Nat) : String :=
  if n = 1 then "1 error emitted" else toString n ++ " errors emitted"

/-- How a line about the diagnostic starts. -/
def Diagnostic.mark (d : Diagnostic) : String := "[line " ++ toString d.line ++ "] "

/-- The text is a line for each diagnostic, in order, and behind them one with their number. -/
def Lists (text : String) (ds : List Diagnostic) : Prop :=
  ∃ ls, Lines text (ls ++ [countLine ds.length]) ∧
    List.Forall₂ (fun d l => d.mark.toList <+: l.toList) ds ls

theorem mark_display (d : Diagnostic) : d.mark.toList <+: d.display.toList := by
  simp only [Diagnostic.display, Diagnostic.mark, String.toList_append, List.append_assoc,
    List.prefix_append_right_inj]
  exact List.prefix_append _ _

theorem lineBreaks_countLine (n : Nat) : lineBreaks (countLine n) = 0 := by
  unfold countLine
  split
  · rfl
  · rw [lineBreaks_append, lineBreaks_toString]
    rfl

theorem Report.textLine_eq (d : Diagnostic) : textLine false d = d.display ++ "\n" := by
  unfold textLine Diagnostic.display
  cases d.location <;> rfl

theorem Report.textSummary_eq {n : Nat} (hn : n ≠ 0) : textSummary n = countLine n ++ "\n" := by
  unfold textSummary countLine
  split
  · exact absurd rfl hn
  · rfl
  · next h =>
    rw [if_neg h, String.append_assoc]
    rfl

theorem Emitter.emitAll_text (colored : Bool) (ds : List Diagnostic) :
    (text colored).emitAll ds =
      (text colored, String.join (ds.map (Report.textLine colored))) := by
  induction ds using List.reverseRecOn with
  | nil => rfl
  | append_singleton ds d ih =>
    rw [emitAll] at ih ⊢
    rw [List.foldl_append, ih, List.map_append, List.map_singleton, String.join_append,
      String.join_cons, String.join_nil, String.append_empty]
    rfl

/-- What a report is made of, whether these are lines or not. -/
theorem report_text {ds : List Diagnostic} (hne : ds ≠ []) : report .text false ds =
    String.join ((ds.map Diagnostic.display ++ [countLine ds.length]).map (· ++ "\n")) := by
  have hcount : ds.length ≠ 0 := mt List.length_eq_zero_iff.1 hne
  have hlines : ds.map (Report.textLine false) = (ds.map Diagnostic.display).map (· ++ "\n") := by
    rw [List.map_map]
    exact List.map_congr_left fun d _ => Report.textLine_eq d
  rw [report, Emitter.start, Emitter.emitAll_text, hlines, List.map_append, String.join_append]
  simp only [Emitter.opening, Emitter.closing, Emitter.summary, Report.textSummary_eq hcount,
    String.empty_append, String.append_empty, List.map_cons, List.map_nil, String.join_cons,
    String.join_nil]

theorem lineBreaks_report {ds : List Diagnostic} (hne : ds ≠ []) :
    lineBreaks (report .text false ds) =
      ds.length + 1 + (ds.map fun d => lineBreaks d.display).sum := by
  rw [report_text hne, lineBreaks_lines, List.map_append, List.sum_append, List.map_map,
    List.length_append, List.length_map, List.map_singleton, List.sum_singleton,
    lineBreaks_countLine, List.length_singleton, Nat.add_zero, Nat.add_comm, Function.comp_def]

/-- The report has its lines just if no diagnostic has a line feed in it: the number of line feeds
leaves no other way to see lines in it. -/
theorem lists_report_iff {ds : List Diagnostic} (hne : ds ≠ []) :
    Lists (report .text false ds) ds ↔ ∀ d ∈ ds, lineBreaks d.display = 0 := by
  constructor
  · rintro ⟨ls, hlines, hmarks⟩
    have hcount := hlines.lineBreaks_eq
    rw [lineBreaks_report hne, List.length_append, ← hmarks.length_eq, List.length_singleton]
      at hcount
    exact sum_map_eq_zero.1 (Nat.add_eq_left.1 hcount)
  · intro h
    refine ⟨ds.map Diagnostic.display, ⟨report_text hne, ?_⟩, ?_⟩
    · rw [List.forall_mem_append, List.forall_mem_map, List.forall_mem_singleton]
      exact ⟨h, lineBreaks_countLine _⟩
    · rw [List.forall₂_map_right_iff]
      exact List.forall₂_same.2 fun d _ => mark_display d

/-- Apart from the message, only a location can bring line feeds. -/
theorem lineBreaks_display {d : Diagnostic} (h : lineBreaks d.message = 0) :
    lineBreaks d.display = d.location.elim 0 lineBreaks := by
  have hlabel : lineBreaks d.label = 0 := by
    unfold Diagnostic.label
    split <;> rfl
  have hwords : lineBreaks "[line " = 0 ∧ lineBreaks "] " = 0 ∧ lineBreaks ": " = 0 ∧
      lineBreaks " " = 0 ∧ lineBreaks "" = 0 := by decide
  unfold Diagnostic.display
  cases d.location <;>
    simp only [lineBreaks_append, lineBreaks_toString, hlabel, hwords, h, Option.elim_none,
      Option.elim_some, Nat.add_zero, Nat.zero_add]

/-! The tokens and faults of a scan. -/

section Scan

open Lexical

/-- Of the tokens only a text has line feeds in its lexeme. -/
theorem Lexical.Cut.one_line {text rest : List Char} {kind : TokenKind} {literal : Option Literal}
    (h : Cut text (.token kind literal) rest) (hkind : kind ≠ .string) : '\n' ∉ text := by
  have hdigits : ∀ {ds : List Char}, (∀ d ∈ ds, d.isDigit) → '\n' ∉ ds :=
    fun h hline => absurd (h _ hline) (by decide)
  cases h with
  | punctuation h =>
    have hall : ∀ p ∈ Lexical.punctuation, '\n' ∉ [p.1] := by decide
    exact hall _ h
  | single h _ =>
    have hall : ∀ p ∈ operators, '\n' ∉ [p.1] := by decide
    exact hall _ h
  | double h =>
    have hall : ∀ p ∈ operators, '\n' ∉ [p.1, '='] := by decide
    exact hall _ h
  | slash _ => decide
  | text _ => exact absurd rfl hkind
  | whole h _ _ => exact hdigits h
  | decimal h _ h' _ =>
    intro hline
    rw [← List.cons_append, List.mem_append] at hline
    obtain hline | hline := hline
    · exact hdigits h hline
    · obtain hpoint | hline := List.mem_cons.1 hline
      · exact absurd hpoint (by decide)
      · exact hdigits h' hline
  | word h h' _ =>
    rw [List.mem_cons]
    rintro (rfl | hline)
    · exact absurd h (by decide)
    · exact absurd (h' _ hline) (by decide)

variable {source : String}

theorem lineBreaks_lexeme {t : Token} (ht : t ∈ words source) (hkind : t.kind ≠ .string) :
    lineBreaks t.lexeme = 0 := by
  obtain ⟨s, hs, hst⟩ := List.mem_filterMap.1 ht
  obtain ⟨kind, literal, hpiece, rfl⟩ := Stretch.token?_eq_some hst
  obtain ⟨-, rest, -, -, -, hcut⟩ := Stretch.cut_of_mem hs
  rw [hpiece] at hcut
  rw [lineBreaks_eq_zero, String.toList_ofList]
  exact hcut.one_line hkind

/-- A line feed is blank, so it is not unexpected. -/
theorem LexicalError.lineBreaks_message {e : LexicalError} (he : e ∈ (scan source).errors) :
    lineBreaks e.fault.message = 0 := by
  obtain ⟨s, hs, cause, hpiece, rfl⟩ := Scanned.mem_errors he
  obtain ⟨-, rest, -, -, -, hcut⟩ := Stretch.cut_of_mem hs
  rw [hpiece] at hcut
  change lineBreaks cause.message = 0
  cases cause with
  | unterminatedString => decide
  | unexpectedCharacter c =>
    have hc : c ≠ '\n' := by
      rintro rfl
      exact hcut.not_lexeme.2 [] ⟨_, .blank (by decide), nofun⟩
    have hone : lineBreaks c.toString = 0 := by
      rw [lineBreaks_eq_zero, Char.toString, String.toList_singleton, List.mem_singleton]
      exact hc.symm
    exact (lineBreaks_quote (by decide) _).trans hone

end Scan

/-! The faults of a parse. Each stage names its place in a message, and all of the names are on one
line. -/

namespace Stage

def OneLine : Next → Prop
  | .ok _ => True
  | .error fault => lineBreaks fault.message = 0

theorem oneLine_expect {t : Token} {kind : TokenKind} {context : String} {next : Stage}
    (h : lineBreaks context = 0) : OneLine (expect t kind context next) := by
  have hkind : lineBreaks kind.description = 0 := by cases kind <;> rfl
  unfold expect
  split
  · trivial
  · change lineBreaks ("expected " ++ kind.description ++ " " ++ context) = 0
    rw [lineBreaks_append, lineBreaks_append, lineBreaks_append, hkind, h]
    rfl

variable (t : Token) (enclosing : List Enclosing)

theorem oneLine_operand (ps : List Pending) (purpose : Purpose) :
    OneLine (operand ps purpose enclosing t) := by
  unfold operand
  split
  · trivial
  · split
    · trivial
    · split
      · trivial
      · rfl

theorem oneLine_ending (e : Expr) (ps : List Pending) (purpose : Purpose) :
    OneLine (ending e ps purpose enclosing t) := by
  unfold ending
  split
  · exact oneLine_expect rfl
  · refine oneLine_expect ?_
    split <;> decide

theorem oneLine_operator (e : Expr) (ps : List Pending) (purpose : Purpose) :
    OneLine (operator e ps purpose enclosing t) := by
  unfold operator
  split
  · trivial
  · split
    · unfold equals
      split
      · exact oneLine_ending t enclosing e ps purpose
      · split
        · trivial
        · rfl
    · exact oneLine_ending t enclosing e ps purpose

theorem oneLine_statement : OneLine (statement enclosing t) := by
  unfold statement
  split
  case h_8 => rfl
  case h_9 => exact oneLine_operand t _ [] .discard
  all_goals trivial

theorem oneLine_step (mode : Mode) : OneLine (step mode enclosing t) := by
  cases mode with
  | statement => exact oneLine_statement t enclosing
  | operand ps purpose => exact oneLine_operand t enclosing ps purpose
  | operator e ps purpose => exact oneLine_operator t enclosing e ps purpose
  | ifParen | whileParen | forParen | varName | varEqual x => exact oneLine_expect rfl
  | forInit =>
    rw [step]
    split
    · trivial
    · trivial
    · exact oneLine_operand t _ _ _
  | forTest init | forStep init test =>
    rw [step]
    split
    · trivial
    · exact oneLine_operand t _ _ _

end Stage

namespace Reading

/-- Each error so far is one that a stage has with the token that is blamed. -/
def Founded (r : Reading) : Prop :=
  ∀ e ∈ r.errors, ∃ mode enclosing, Stage.step mode enclosing e.token = .error e.fault

variable {r : Reading}

theorem Founded.proceed (h : r.Founded) (mode : Mode) (enclosing : List Enclosing) (t : Token) :
    (r.proceed t (Stage.step mode enclosing t)).Founded := by
  cases hstep : Stage.step mode enclosing t with
  | ok stage => exact h
  | error fault => exact List.forall_mem_cons.2 ⟨⟨mode, enclosing, hstep⟩, h⟩

theorem Founded.feed (h : r.Founded) (t : Token) : (r.feed t).Founded := by
  unfold Reading.feed
  split
  · exact h
  · exact h.proceed _ _ t
  · split
    · next s _ =>
      exact proceed (r := { r with statements := s :: r.statements }) h .statement [] t
    · exact h.proceed _ _ t
    · exact h

theorem Founded.unfinished (h : r.Founded) (mode : Mode) (enclosing : List Enclosing) (t : Token) :
    Founded { r with errors := unfinished mode enclosing t ++ r.errors } := by
  refine List.forall_mem_append.2 ⟨?_, h⟩
  unfold Reading.unfinished
  split
  · exact List.forall_mem_nil _
  · split
    · exact List.forall_mem_nil _
    · next hfault => exact List.forall_mem_singleton.2 ⟨mode, enclosing, hfault⟩

theorem Founded.finish (h : r.Founded) (t : Token) : (r.finish t).Founded := by
  unfold Reading.finish
  split
  · exact h
  · exact h.unfinished _ _ t
  · split
    · exact h
    · exact h.unfinished _ _ t
    · exact h

theorem Founded.run (h : r.Founded) (recover : Bool) (ts : List Token) :
    (r.run recover ts).Founded := by
  induction ts generalizing r with
  | nil => exact h.finish _
  | cons t ts ih =>
    rw [Reading.run]
    split
    · exact h.finish t
    · dsimp only
      split
      · exact ih (h.feed t)
      · exact h.feed t

end Reading

theorem exists_step_of_error {tokens : List Token} {recover : Bool} {e : SyntaxError}
    (he : e ∈ (parse tokens recover).errors) :
    ∃ mode enclosing, Stage.step mode enclosing e.token = .error e.fault := by
  have hstart : Reading.start.Founded := List.forall_mem_nil _
  exact hstart.run recover tokens e (List.mem_reverse.1 he)

theorem SyntaxError.lineBreaks_message {tokens : List Token} {recover : Bool} {e : SyntaxError}
    (he : e ∈ (parse tokens recover).errors) : lineBreaks e.fault.message = 0 := by
  obtain ⟨mode, enclosing, hfault⟩ := exists_step_of_error he
  have hmessage := Stage.oneLine_step e.token enclosing mode
  rwa [hfault] at hmessage

/-! The report of a source. -/

/-- The texts among the tokens that the parser blames. -/
def blamedTexts (source : String) (recover : Bool) : List Token :=
  ((parse (scan source).tokens recover).errors.map (·.token)).filter (·.kind = .string)

variable {source : String} {recover : Bool}

/-- The location of an error has the line feeds of the text that it blames. -/
theorem SyntaxError.lineBreaks_display {e : SyntaxError}
    (he : e ∈ (parse (scan source).tokens recover).errors) : lineBreaks e.toDiagnostic.display =
      if e.token.kind = .string then lineBreaks e.token.lexeme else 0 := by
  obtain ⟨last, hlast, htokens⟩ := tokens_eq_words source
  have hend : ∃ t ∈ (scan source).tokens, t.kind = .eof :=
    ⟨last, by rw [htokens]; exact List.mem_append_right _ (List.mem_singleton_self _), hlast⟩
  have hmem : e.token ∈ words source ++ [last] := by
    rw [← htokens]
    exact (parse_blames recover hend).subset (List.mem_map_of_mem he)
  have hplace : lineBreaks e.toDiagnostic.display = lineBreaks e.location :=
    TinyScript.lineBreaks_display (d := e.toDiagnostic) (SyntaxError.lineBreaks_message he)
  rw [hplace, location]
  obtain hword | hword := List.mem_append.1 hmem
  · rw [if_neg (carried_words hword).1, lineBreaks_quote (by decide)]
    split
    · rfl
    · next hkind => exact lineBreaks_lexeme hword hkind
  · rw [List.mem_singleton.1 hword, hlast, if_pos rfl, if_neg (by decide)]
    decide

/-- The name in a message is that of an identifier. -/
theorem RuntimeError.lineBreaks_display {x : RuntimeError} (h : x.StandsIn (words source)) :
    lineBreaks x.toDiagnostic.display = 0 := by
  generalize hwords : words source = w at h
  obtain @⟨u, v, t, -, h⟩ := h
  have ht : t ∈ words source := by
    rw [hwords]
    exact List.mem_append_right _ List.mem_cons_self
  have hname : t.kind = .identifier → lineBreaks t.lexeme = 0 := fun hkind =>
    lineBreaks_lexeme ht (by rw [hkind]; decide)
  have hmessage : lineBreaks x.fault.message = 0 := by
    generalize x.fault = fault at h
    cases fault with
    | addOperands | numberOperands | numberOperand => decide
    | undefinedVariable name =>
      obtain ⟨hkind, rfl⟩ := h
      exact (lineBreaks_quote (by decide) _).trans (hname hkind)
    | undeclaredAssignment name =>
      obtain ⟨hkind, rfl, -⟩ := h
      exact (lineBreaks_quote (by decide) _).trans (hname hkind)
  exact TinyScript.lineBreaks_display (d := x.toDiagnostic) hmessage

/-- Of what is reported about a source, the blamed texts have all line feeds. -/
theorem Script.lineBreaks_diagnostics (source : String) (recover : Bool) :
    ((read source recover).diagnostics.map fun d => lineBreaks d.display).sum =
      ((blamedTexts source recover).map fun t => lineBreaks t.lexeme).sum := by
  have hlexical : (((scan source).errors.map LexicalError.toDiagnostic).map
      fun d => lineBreaks d.display).sum = 0 := by
    rw [sum_map_eq_zero, List.forall_mem_map]
    exact fun e he => lineBreaks_display (d := e.toDiagnostic) (LexicalError.lineBreaks_message he)
  have hsyntactic : ((parse (scan source).tokens recover).errors.map SyntaxError.toDiagnostic).map
        (fun d => lineBreaks d.display) =
      ((parse (scan source).tokens recover).errors.map (·.token)).map
        fun t => if t.kind = .string then lineBreaks t.lexeme else 0 := by
    rw [List.map_map, List.map_map]
    refine List.map_congr_left fun e he => ?_
    rw [Function.comp_apply, Function.comp_apply, SyntaxError.lineBreaks_display he]
  rw [read, List.map_append, List.sum_append, hlexical, Nat.zero_add, hsyntactic,
    List.sum_map_ite, List.map_const', List.sum_replicate, smul_zero, Nat.add_zero]
  rfl

theorem lineBreaks_outcome {rounds : Nat} {config : RunConfig} {sink : Sink} {o : Outcome}
    (h : runSource rounds config sink source = some o) :
    (o.diagnostics.map fun d => lineBreaks d.display).sum =
      ((blamedTexts source config.recover).map fun t => lineBreaks t.lexeme).sum := by
  by_cases hclean : (Script.read source config.recover).diagnostics = []
  · have hread := Script.read_of_clean hclean
    have hnone : blamedTexts source config.recover = [] := by
      rw [blamedTexts, (Script.errors_nil hclean).2]
      rfl
    rw [hnone]
    obtain ⟨m, x, hrun, ⟨-, rfl⟩ | ⟨y, rfl, rfl⟩⟩ := runSource_of_clean hread h
    · rfl
    · have hstands := hrun.blames_token (Script.read_eq_iff.1 hread).2
      rw [List.map_singleton, List.sum_singleton]
      exact RuntimeError.lineBreaks_display hstands
  · rw [runSource_of_diagnostics hclean] at h
    cases h
    exact Script.lineBreaks_diagnostics source config.recover

/-- The report of a source holds its diagnostics in order and their number, each with a line feed
behind it, and no line feeds but these and those of the texts that the parser blames. So it is one
line for each diagnostic and one with their number just if none of these texts is broken. -/
theorem report_lines {rounds : Nat} {config : RunConfig} {sink : Sink} {o : Outcome}
    (h : runSource rounds config sink source = some o) (hne : o.diagnostics ≠ []) :
    report .text false o.diagnostics = String.join
        ((o.diagnostics.map Diagnostic.display ++ [countLine o.diagnostics.length]).map
          (· ++ "\n")) ∧
      lineBreaks (report .text false o.diagnostics) = o.diagnostics.length + 1 +
        ((blamedTexts source config.recover).map fun t => lineBreaks t.lexeme).sum ∧
      (Lists (report .text false o.diagnostics) o.diagnostics ↔
        ∀ t ∈ blamedTexts source config.recover, lineBreaks t.lexeme = 0) := by
  have houtcome := lineBreaks_outcome h
  refine ⟨report_text hne, ?_, ?_⟩
  · rw [lineBreaks_report hne, houtcome]
  · rw [lists_report_iff hne, ← sum_map_eq_zero, houtcome, sum_map_eq_zero]

/-- The text that is printed is broken, but the one behind it, where the semicolon should be, is
not. -/
theorem misplaced_text_listed :
    let source := "print \"a\nb\" \"c\";"
    let o : Outcome := ⟨[⟨.expectedToken, .parsing, 2, some "at '\"c\"'",
      "expected `;` after value"⟩], .dataError, .buffer ""⟩
    runSource 0 ⟨.flat, false⟩ (.buffer "") source = some o ∧ o.diagnostics ≠ [] ∧
      lineBreaks (report .text false o.diagnostics) = 2 ∧
      Lists (report .text false o.diagnostics) o.diagnostics := by
  intro source o
  have hread : (Script.read source false).diagnostics = o.diagnostics := by cbv
  have hne : o.diagnostics ≠ [] := List.cons_ne_nil _ _
  have hrun : runSource 0 ⟨.flat, false⟩ (.buffer "") source = some o := by
    rw [runSource_of_diagnostics (hread ▸ hne), hread]
  have hblamed : (blamedTexts source false).map (fun t => lineBreaks t.lexeme) = [0] := by cbv
  have hwhole : ∀ t ∈ blamedTexts source false, lineBreaks t.lexeme = 0 :=
    sum_map_eq_zero.1 (by rw [hblamed]; rfl)
  obtain ⟨-, hcount, hlists⟩ := report_lines hrun hne
  rw [hblamed] at hcount
  exact ⟨hrun, hne, hcount, hlists.2 hwhole⟩

/-- Here a broken text stands where the semicolon should be, and one diagnostic has two lines. -/
theorem misplaced_broken_text_not_listed :
    let source := "print x \"a\nb\";"
    let o : Outcome := ⟨[⟨.expectedToken, .parsing, 2, some "at '\"a\nb\"'",
      "expected `;` after value"⟩], .dataError, .buffer ""⟩
    runSource 0 ⟨.flat, false⟩ (.buffer "") source = some o ∧ o.diagnostics.length = 1 ∧
      report .text false o.diagnostics =
        "[line 2] Error at '\"a\nb\"': expected `;` after value\n1 error emitted\n" ∧
      lineBreaks (report .text false o.diagnostics) = 3 ∧
      ¬Lists (report .text false o.diagnostics) o.diagnostics := by
  intro source o
  have hread : (Script.read source false).diagnostics = o.diagnostics := by cbv
  have hne : o.diagnostics ≠ [] := List.cons_ne_nil _ _
  have hrun : runSource 0 ⟨.flat, false⟩ (.buffer "") source = some o := by
    rw [runSource_of_diagnostics (hread ▸ hne), hread]
  have hbreaks : (o.diagnostics.map fun d => lineBreaks d.display) = [1] := by cbv
  refine ⟨hrun, rfl, by cbv, ?_, fun hlists => ?_⟩
  · rw [lineBreaks_report hne, hbreaks]
    rfl
  · have hzero := sum_map_eq_zero.2 ((lists_report_iff hne).1 hlists)
    rw [hbreaks] at hzero
    cases hzero

end TinyScript
