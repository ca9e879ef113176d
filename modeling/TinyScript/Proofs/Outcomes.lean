import TinyScript.Proofs.Culprits
import TinyScript.Proofs.Recovery
import TinyScript.Proofs.Session
import TinyScript.Proofs.Tiling

/-!
What comes of a source. It is read without fault and runs to its end, or it is reported and not
run, or it is read without fault and its run fails. Whatever is reported stands on a line of the
source: lines are counted by the scanner, tokens carry them to the parser, and nodes to the run.
-/

namespace TinyScript

/-- The lines come in order and lie between these two. -/
structure LinesWithin (first last : Nat) (lines : List Nat) : Prop where
  ordered : lines.Pairwise (· ≤ ·)
  within : ∀ n ∈ lines, first ≤ n ∧ n ≤ last

namespace LinesWithin

variable {first last : Nat} {lines : List Nat}

theorem sublist {lines' : List Nat} (h : LinesWithin first last lines)
    (hsub : lines'.Sublist lines) : LinesWithin first last lines' :=
  ⟨h.ordered.sublist hsub, fun n hn => h.within n (hsub.subset hn)⟩

theorem concat (h : LinesWithin first last lines) (hle : first ≤ last) :
    LinesWithin first last (lines ++ [last]) := by
  constructor
  · refine List.pairwise_append.2 ⟨h.ordered, List.pairwise_singleton _ _, fun m hm n hn => ?_⟩
    rw [List.mem_singleton.1 hn]
    exact (h.within m hm).2
  · intro n hn
    obtain hn | hn := List.mem_append.1 hn
    · exact h.within n hn
    · rw [List.mem_singleton.1 hn]
      exact ⟨hle, Nat.le_refl _⟩

end LinesWithin

/-! The scanner. -/

namespace Stretch

theorem line_of_mem {p : Place} {cs : List Char} {s : Stretch} (h : s ∈ sequence p cs) :
    p.line ≤ s.after.line ∧ s.after.line ≤ (p.advance cs).line := by
  obtain ⟨a, b, rfl, hbefore, hafter, -⟩ := cut_of_mem h
  rw [hafter, hbefore, Place.line_advance, Place.line_advance, Place.line_advance,
    List.count_append, List.count_append]
  omega

theorem sequence_lines (p : Place) (cs : List Char) :
    LinesWithin p.line (p.advance cs).line ((sequence p cs).map (·.after.line)) := by
  constructor
  · rw [List.pairwise_map]
    fun_induction sequence p cs with
    | case1 => exact List.Pairwise.nil
    | case2 p c rest text ih => exact List.Pairwise.cons (fun t ht => (line_of_mem ht).1) ih
  · intro n hn
    obtain ⟨s, hs, rfl⟩ := List.mem_map.1 hn
    exact line_of_mem hs

/-- What is taken from stretches with their last lines has some of these lines. -/
theorem lines_filterMap {β : Type} {f : Stretch → Option β} {line : β → Nat}
    (hf : ∀ s b, f s = some b → line b = s.after.line) (ss : List Stretch) :
    ((ss.filterMap f).map line).Sublist (ss.map (·.after.line)) := by
  induction ss with
  | nil => exact List.Sublist.refl _
  | cons s ss ih =>
    cases hs : f s with
    | none =>
      rw [List.filterMap_cons_none hs]
      exact ih.cons _
    | some b =>
      rw [List.filterMap_cons_some hs, List.map_cons, List.map_cons, hf s b hs]
      exact ih.cons_cons _

end Stretch

/-- The number of the last line. -/
def lastLine (source : String) : Nat := 1 + source.toList.count '\n'

theorem line_start_advance (source : String) :
    (Place.start.advance source.toList).line = lastLine source := Place.line_advance _ _

theorem scan_error_lines (source : String) :
    LinesWithin 1 (lastLine source) ((scan source).errors.map (·.line)) := by
  have hlines := Stretch.sequence_lines .start source.toList
  rw [line_start_advance] at hlines
  rw [scan_eq]
  refine hlines.sublist (Stretch.lines_filterMap (fun s e he => ?_) _)
  obtain ⟨cause, -, rfl⟩ := Stretch.error?_eq_some he
  rfl

theorem word_lines (source : String) :
    LinesWithin 1 (lastLine source) ((words source).map (·.line)) := by
  have hlines := Stretch.sequence_lines .start source.toList
  rw [line_start_advance] at hlines
  refine hlines.sublist (Stretch.lines_filterMap (fun s t ht => ?_) _)
  obtain ⟨kind, literal, -, rfl⟩ := Stretch.token?_eq_some ht
  rfl

theorem token_lines (source : String) :
    LinesWithin 1 (lastLine source) ((scan source).tokens.map (·.line)) := by
  have hlines := (word_lines source).concat (Nat.le_add_right 1 _)
  rw [scan_eq, List.map_append, List.map_singleton]
  change LinesWithin _ _ (_ ++ [(Place.start.advance source.toList).line])
  rwa [line_start_advance]

/-! The parser. -/

namespace Reading

/-- The blamed tokens in the order in which they were read. -/
def blamed (r : Reading) : List Token := (r.errors.map (·.token)).reverse

/-- What is read adds blamed tokens from `ts`, in order and each at most once. -/
def Blames (r : Reading) (ts : List Token) (r' : Reading) : Prop :=
  ∃ us, us.Sublist ts ∧ r'.blamed = r.blamed ++ us

theorem blames_of_errors {r r' : Reading} {t : Token}
    (h : r'.errors = r.errors ∨ ∃ fault, r'.errors = ⟨fault, t⟩ :: r.errors) :
    Blames r [t] r' := by
  obtain h | ⟨fault, h⟩ := h
  · exact ⟨[], List.nil_sublist _, by rw [blamed, h, List.append_nil, blamed]⟩
  · exact ⟨[t], List.Sublist.refl _, by rw [blamed, h, List.map_cons, List.reverse_cons, blamed]⟩

theorem Blames.append {r r' r'' : Reading} {ts us : List Token} (h : Blames r ts r')
    (h' : Blames r' us r'') : Blames r (ts ++ us) r'' := by
  obtain ⟨as, has, hr⟩ := h
  obtain ⟨bs, hbs, hr'⟩ := h'
  exact ⟨as ++ bs, has.append hbs, by rw [hr', hr, List.append_assoc]⟩

theorem Blames.more {r r' : Reading} {ts : List Token} (h : Blames r ts r') (us : List Token) :
    Blames r (ts ++ us) r' := by
  obtain ⟨as, has, hr⟩ := h
  exact ⟨as, has.trans (List.sublist_append_left _ _), hr⟩

theorem blames_run (recover : Bool) (r : Reading) {ts : List Token}
    (hend : ∃ t ∈ ts, t.kind = .eof) : Blames r ts (run recover r ts) := by
  induction ts generalizing r with
  | nil =>
    obtain ⟨t, ht, -⟩ := hend
    cases ht
  | cons t ts ih =>
    have hfeed : Blames r [t] (r.feed t) := blames_of_errors (r.errors_feed t)
    rw [run]
    split
    -- what stands behind the first end token is not read
    · exact (blames_of_errors (r.errors_finish t)).more ts
    next ht =>
    dsimp only
    split
    · obtain ⟨e, he, hkind⟩ := hend
      obtain rfl | he := List.mem_cons.1 he
      · exact absurd hkind ht
      · exact hfeed.append (ih (r.feed t) ⟨e, he, hkind⟩)
    · exact hfeed.more ts

end Reading

/-- A parse blames tokens in order, each at most once. -/
theorem parse_blames {tokens : List Token} (recover : Bool) (hend : ∃ t ∈ tokens, t.kind = .eof) :
    ((parse tokens recover).errors.map (·.token)).Sublist tokens := by
  obtain ⟨us, hus, hr⟩ := Reading.blames_run recover .start hend
  rw [parse, List.map_reverse]
  change (Reading.blamed _).Sublist tokens
  rw [hr]
  exact hus

theorem parse_error_lines (source : String) (recover : Bool) : LinesWithin 1 (lastLine source)
    ((parse (scan source).tokens recover).errors.map (·.token.line)) := by
  have hend : ∃ t ∈ (scan source).tokens, t.kind = .eof := by
    rw [scan_eq]
    exact ⟨_, List.mem_append_right _ (List.mem_singleton_self _), rfl⟩
  have hsub := (parse_blames recover hend).map (·.line)
  rw [List.map_map] at hsub
  exact (token_lines source).sublist hsub

/-! The outcome. -/

/-- How the codes of a phase start. -/
def Phase.codes : Phase → String
  | scanning => "E0"
  | parsing => "E1"
  | running => "E6"

/-- The phase that finds what the code stands for. -/
def DiagnosticCode.phase : DiagnosticCode → Phase
  | unterminatedString | unexpectedCharacter => .scanning
  | expectedToken | expectedExpression | invalidTarget => .parsing
  | operandType | undefinedVariable | undeclaredAssignment => .running

theorem DiagnosticCode.codes_phase (c : DiagnosticCode) :
    c.phase.codes.toList <+: c.text.toList := by
  cases c <;> decide

/-- The code is one of the phase, a location is given for errors of syntax only, and the source
has such a line. -/
structure Diagnostic.Sound (source : String) (d : Diagnostic) : Prop where
  code : d.phase.codes.toList <+: d.code.text.toList
  location : d.location.isSome ↔ d.phase = .parsing
  line : 1 ≤ d.line ∧ d.line ≤ lastLine source

section Sound

variable {source : String}

theorem LexicalError.sound {e : LexicalError} (h : 1 ≤ e.line ∧ e.line ≤ lastLine source) :
    e.toDiagnostic.Sound source where
  code := by
    have hphase : e.fault.code.phase = .scanning := by cases e.fault <;> rfl
    have hcode := e.fault.code.codes_phase
    rwa [hphase] at hcode
  location := iff_of_false Bool.false_ne_true nofun
  line := h

theorem SyntaxError.sound {e : SyntaxError}
    (h : 1 ≤ e.token.line ∧ e.token.line ≤ lastLine source) : e.toDiagnostic.Sound source where
  code := by
    have hphase : e.fault.code.phase = .parsing := by cases e.fault <;> rfl
    have hcode := e.fault.code.codes_phase
    rwa [hphase] at hcode
  location := iff_of_true rfl rfl
  line := h

theorem RuntimeError.sound {x : RuntimeError} (h : 1 ≤ x.line ∧ x.line ≤ lastLine source) :
    x.toDiagnostic.Sound source where
  code := by
    have hphase : x.fault.code.phase = .running := by cases x.fault <;> rfl
    have hcode := x.fault.code.codes_phase
    rwa [hphase] at hcode
  location := iff_of_false Bool.false_ne_true nofun
  line := h

end Sound

theorem Script.sound_of_mem {source : String} {recover : Bool} {d : Diagnostic}
    (h : d ∈ (read source recover).diagnostics) : d.Sound source := by
  obtain h | h := List.mem_append.1 h
  · obtain ⟨e, he, rfl⟩ := List.mem_map.1 h
    exact LexicalError.sound ((scan_error_lines source).within _ (List.mem_map_of_mem he))
  · obtain ⟨e, he, rfl⟩ := List.mem_map.1 h
    exact SyntaxError.sound ((parse_error_lines source recover).within _ (List.mem_map_of_mem he))

/-- A source without errors that fails when it runs fails on one of its lines. -/
theorem line_of_failure {source : String} {recover : Bool} {ss : List Stmt}
    (h : Script.read source recover = ⟨ss, []⟩) {m m' : Machine} {x : RuntimeError}
    (hrun : m.Ends ss m' (some x)) : 1 ≤ x.line ∧ x.line ≤ lastLine source := by
  obtain ⟨t, ht, hline⟩ := (hrun.blames_token (Script.read_eq_iff.1 h).2).exists_mem
  rw [← hline]
  exact (word_lines source).within _ (List.mem_map_of_mem ht)

namespace Outcome

structure Succeeds (o : Outcome) : Prop where
  code : o.status.code = 0
  diagnostics : o.diagnostics = []

/-- The source was not run: lexical errors are reported and then errors of syntax, each kind in the
order of lines. -/
structure Rejects (sink : Sink) (o : Outcome) : Prop where
  code : o.status.code = 65
  diagnostics : o.diagnostics ≠ []
  groups : ∃ lexical syntactic : List Diagnostic, o.diagnostics = lexical ++ syntactic ∧
    (∀ d ∈ lexical, d.phase = .scanning) ∧ (∀ d ∈ syntactic, d.phase = .parsing) ∧
    (lexical.map (·.line)).Pairwise (· ≤ ·) ∧ (syntactic.map (·.line)).Pairwise (· ≤ ·)
  sink : o.sink = sink

structure Fails (source : String) (o : Outcome) : Prop where
  code : o.status.code = 70
  diagnostic : ∃ d, o.diagnostics = [d] ∧ d.phase = .running
  lexical : (scan source).errors = []
  syntactic : ∀ recover, (parse (scan source).tokens recover).errors = []

/-- The codes tell the three kinds apart. -/
theorem exactly_one {sink : Sink} {source : String} {o : Outcome}
    (h : o.Succeeds ∨ o.Rejects sink ∨ o.Fails source) :
    o.Succeeds ∧ ¬o.Rejects sink ∧ ¬o.Fails source ∨
      ¬o.Succeeds ∧ o.Rejects sink ∧ ¬o.Fails source ∨
      ¬o.Succeeds ∧ ¬o.Rejects sink ∧ o.Fails source := by
  rcases h with h | h | h
  · exact .inl ⟨h, fun h' => absurd (h.code.symm.trans h'.code) (by decide),
      fun h' => absurd (h.code.symm.trans h'.code) (by decide)⟩
  · exact .inr (.inl ⟨fun h' => absurd (h.code.symm.trans h'.code) (by decide), h,
      fun h' => absurd (h.code.symm.trans h'.code) (by decide)⟩)
  · exact .inr (.inr ⟨fun h' => absurd (h.code.symm.trans h'.code) (by decide),
      fun h' => absurd (h.code.symm.trans h'.code) (by decide), h⟩)

end Outcome

theorem Script.rejects {source : String} {config : RunConfig} {sink : Sink}
    (h : (read source config.recover).diagnostics ≠ []) :
    Outcome.Rejects sink ⟨(read source config.recover).diagnostics, .dataError, sink⟩ where
  code := rfl
  diagnostics := h
  groups := by
    refine ⟨_, _, rfl, ?_, ?_, ?_, ?_⟩
    · intro d hd
      obtain ⟨e, -, rfl⟩ := List.mem_map.1 hd
      rfl
    · intro d hd
      obtain ⟨e, -, rfl⟩ := List.mem_map.1 hd
      rfl
    · rw [List.map_map]
      exact (scan_error_lines source).ordered
    · rw [List.map_map]
      exact (parse_error_lines source config.recover).ordered
  sink := rfl

/-- Without diagnostics there is no error, and none would be found with recovery either. -/
theorem Script.errors_nil {source : String} {recover : Bool}
    (h : (read source recover).diagnostics = []) : (scan source).errors = [] ∧
      ∀ recover', (parse (scan source).tokens recover').errors = [] := by
  have hread : ∀ recover', (read source recover').diagnostics = [] := fun recover' =>
    congrArg Script.diagnostics (read_eq_iff.2 (read_eq_iff.1 (read_of_clean h)))
  constructor
  · exact List.map_eq_nil_iff.1 (List.append_eq_nil_iff.1 h).1
  · exact fun recover' => List.map_eq_nil_iff.1 (List.append_eq_nil_iff.1 (hread recover')).2

/-- A source without errors has the outcome of its run. -/
theorem runSource_of_clean {rounds : Nat} {config : RunConfig} {sink : Sink} {source : String}
    {ss : List Stmt} {o : Outcome} (hread : Script.read source config.recover = ⟨ss, []⟩)
    (h : runSource rounds config sink source = some o) :
    ∃ m x, Machine.Ends ⟨.new config.scoping, sink⟩ ss m x ∧
      (x = none ∧ o = ⟨[], .success, m.sink⟩ ∨
        ∃ y, x = some y ∧ o = ⟨[y.toDiagnostic], .software, m.sink⟩) := by
  rw [runSource, hread] at h
  simp only [List.isEmpty_nil, if_true] at h
  split at h
  · cases h
  · next m hrun =>
    cases h
    exact ⟨m, none, ⟨rounds, hrun⟩, .inl ⟨rfl, rfl⟩⟩
  · next m y hrun =>
    cases h
    exact ⟨m, some y, ⟨rounds, hrun⟩, .inr ⟨y, rfl, rfl⟩⟩

/-- What comes of a source is of exactly one of three kinds: it succeeds with nothing reported, or
it is rejected with its lexical and its syntactic errors, each group in the order of lines, and
prints nothing, or it has no such errors and fails with one error. Every report has a code of its
phase, a location just for a syntactic error, and a line of the source. -/
theorem outcome_coherent {rounds : Nat} {config : RunConfig} {sink : Sink} {source : String}
    {o : Outcome} (h : runSource rounds config sink source = some o) :
    (o.Succeeds ∧ ¬o.Rejects sink ∧ ¬o.Fails source ∨
        ¬o.Succeeds ∧ o.Rejects sink ∧ ¬o.Fails source ∨
        ¬o.Succeeds ∧ ¬o.Rejects sink ∧ o.Fails source) ∧
      ∀ d ∈ o.diagnostics, d.Sound source := by
  by_cases hclean : (Script.read source config.recover).diagnostics = []
  · have hread := Script.read_of_clean hclean
    obtain ⟨m, x, hrun, ⟨-, rfl⟩ | ⟨y, rfl, rfl⟩⟩ := runSource_of_clean hread h
    · exact ⟨Outcome.exactly_one (.inl ⟨rfl, rfl⟩), nofun⟩
    · obtain ⟨hlexical, hsyntactic⟩ := Script.errors_nil hclean
      refine ⟨Outcome.exactly_one (.inr (.inr ⟨rfl, ⟨_, rfl, rfl⟩, hlexical, hsyntactic⟩)), ?_⟩
      exact List.forall_mem_singleton.2 (RuntimeError.sound (line_of_failure hread hrun))
  · rw [runSource_of_diagnostics hclean] at h
    cases h
    exact ⟨Outcome.exactly_one (.inr (.inl (Script.rejects hclean))),
      fun d hd => Script.sound_of_mem hd⟩

/-- The line of the error is counted with the break inside the text. -/
theorem failing_source_outcome :
    let source := "var s = \"a\nb\";\nprint s;\nprint -s;"
    let o : Outcome := ⟨[⟨.operandType, .running, 4, none, "operand must be a number"⟩], .software,
      .buffer "a\nb\n"⟩
    runSource 0 ⟨.lexical, true⟩ (.buffer "") source = some o ∧ o.Fails source ∧
      ∀ d ∈ o.diagnostics, d.Sound source := by
  intro source o
  have hread : Script.read source true = ⟨[.declare ⟨"s", 1⟩ (.literal (.text "a\nb")),
      .print (.var ⟨"s", 3⟩), .print (.unary .neg 4 (.var ⟨"s", 4⟩))], []⟩ := by cbv
  have hmachine : Machine.run 0 ⟨.new .lexical, .buffer ""⟩ (Script.read source true).statements =
      some (⟨⟨.lexical, [], [("s", .text "a\nb")]⟩, .buffer "a\nb\n"⟩,
        some ⟨.numberOperand, 4⟩) := by
    rw [hread]
    cbv
  have hrun : runSource 0 ⟨.lexical, true⟩ (.buffer "") source = some o := by
    simp only [runSource, hmachine]
    rw [hread]
    rfl
  obtain ⟨⟨h, -⟩ | ⟨-, h, -⟩ | ⟨-, -, h⟩, hsound⟩ := outcome_coherent hrun
  · exact absurd h.code (by decide)
  · exact absurd h.code (by decide)
  · exact ⟨hrun, h, hsound⟩

end TinyScript
