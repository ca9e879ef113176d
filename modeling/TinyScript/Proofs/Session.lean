import Mathlib
import TinyScript.Proofs.Derivation
import TinyScript.Proofs.Runs
import TinyScript.Proofs.Stretches
import TinyScript.Script

/-!
Two sources one after the other are the same as one source with a line break between them. Each
stage takes such a source apart at the line break: the second part comes out as it would by itself,
only on later lines.
-/

namespace TinyScript

open Grammar

/-- The tokens of a source without the end. -/
def words (source : String) : List Token :=
  (Stretch.sequence .start source.toList).filterMap Stretch.token?

theorem carried_words {source : String} {t : Token} (ht : t ∈ words source) :
    t.kind ≠ .eof ∧ Carried t := by
  obtain ⟨s, hs, hst⟩ := List.mem_filterMap.1 ht
  have hcarries := Stretch.mem_sequence hs
  unfold Stretch.token? at hst
  split at hst
  · next kind literal hpiece =>
    cases hst
    rw [hpiece] at hcarries
    exact hcarries
  · cases hst

theorem Script.read_of_clean {source : String} {recover : Bool}
    (h : (read source recover).diagnostics = []) :
    read source recover = ⟨(read source recover).statements, []⟩ :=
  congrArg (Script.mk (read source recover).statements) h

/-- A source is read without diagnostics if each of its stretches is in order and its tokens are
those of a program. -/
theorem Script.read_eq_iff {source : String} {recover : Bool} {ss : List Stmt} :
    Script.read source recover = ⟨ss, []⟩ ↔
      (∀ s ∈ Stretch.sequence .start source.toList, s.error? = none) ∧
        Statements (words source) ss := by
  have hkind : ∀ t ∈ words source, t.kind ≠ .eof := fun t ht => (carried_words ht).1
  have hparse := parse_iff (Eq.refl (Token.eof (Place.start.advance source.toList).line
    (min (Place.start.advance source.toList).offset Span.limit)).kind) hkind
    (fun t ht => (carried_words ht).2) recover ss
  rw [← hparse, ← List.filterMap_eq_nil_iff, read, scan_eq]
  simp only [Script.mk.injEq, List.append_eq_nil_iff, List.map_eq_nil_iff, words]
  constructor
  · rintro ⟨hs, hscan, herrors⟩
    exact ⟨hscan, by rw [← hs, ← herrors]⟩
  · rintro ⟨hscan, h⟩
    rw [h]
    exact ⟨rfl, hscan, rfl⟩

theorem token?_shift (bytes lines : Nat) (s : Stretch) :
    (s.shift bytes lines).token?.map (Token.onLine id) =
      s.token?.map (Token.onLine (· + lines)) := by
  obtain ⟨piece, text, before, after⟩ := s
  cases piece <;> rfl

theorem error?_shift (bytes lines : Nat) {s : Stretch} (h : s.error? = none) :
    (s.shift bytes lines).error? = none := by
  obtain ⟨piece, text, before, after⟩ := s
  cases piece with
  | fault cause => cases h
  | _ => rfl

/-- Two programs on lines of their own are one program. -/
theorem Script.read_join {a b : String} {recover : Bool} {ss ts : List Stmt}
    (ha : Script.read a recover = ⟨ss, []⟩) (hb : Script.read b recover = ⟨ts, []⟩) :
    Script.read (a ++ "\n" ++ b) recover =
      ⟨ss ++ mapLinesIn (· + (1 + a.toList.count '\n')) ts, []⟩ := by
  obtain ⟨hasound, hawords⟩ := read_eq_iff.1 ha
  obtain ⟨hbsound, hbwords⟩ := read_eq_iff.1 hb
  have hopen : ∀ s ∈ Stretch.sequence .start a.toList, s.piece ≠ .fault .unterminatedString := by
    intro s hs hpiece
    have hnone := hasound s hs
    rw [Stretch.error?, hpiece] at hnone
    cases hnone
  obtain ⟨blank, hblank, hjoin⟩ := Stretch.sequence_join a.toList b.toList hopen
  have hlist : (a ++ "\n" ++ b).toList = a.toList ++ '\n' :: b.toList := by simp
  rw [← hlist] at hjoin
  generalize (Place.start.advance a.toList).offset + 1 = bytes at hjoin
  have htoken : blank.token? = none := by
    rw [Stretch.token?, hblank]
  have herror : blank.error? = none := by
    rw [Stretch.error?, hblank]
  have hwords : words (a ++ "\n" ++ b) = words a ++
      ((Stretch.sequence .start b.toList).map
        (Stretch.shift bytes (1 + a.toList.count '\n'))).filterMap Stretch.token? := by
    rw [words, hjoin, List.filterMap_append, List.filterMap_cons, htoken]
    rfl
  refine read_eq_iff.2 ⟨?_, ?_⟩
  · rw [hjoin]
    intro s hs
    rcases List.mem_append.1 hs with hs | hs
    · exact hasound s hs
    · obtain rfl | hs := List.mem_cons.1 hs
      · exact herror
      · obtain ⟨s', hs', rfl⟩ := List.mem_map.1 hs
        exact error?_shift _ _ (hbsound s' hs')
  · have hlines := hbwords.onLine (· + (1 + a.toList.count '\n'))
    rw [words, List.map_filterMap] at hlines
    simp only [← token?_shift bytes] at hlines
    rw [hwords]
    refine hawords.append (statements_of_bare (fun t ht => ?_) ?_)
    · have hmem : t ∈ words (a ++ "\n" ++ b) := hwords ▸ List.mem_append_right _ ht
      exact (carried_words hmem).2
    · rw [List.map_filterMap, List.filterMap_map]
      exact hlines

/-- A run of one program and then another on later lines is a run of the first and, if that does
not fail, one of the second. -/
theorem Machine.ends_join {m m' : Machine} {x : Option RuntimeError} (lines : Nat)
    (ss ts : List Stmt) :
    m.Ends (ss ++ mapLinesIn (· + lines) ts) m' x ↔
      (∃ m₁ y, m.Ends ss m₁ none ∧ m₁.Ends ts m' y ∧ x = y.map (.onLine (· + lines))) ∨
        ∃ y, x = some y ∧ m.Ends ss m' (some y) := by
  have hback : ∀ n, n + lines - lines = n := fun n => Nat.add_sub_cancel n lines
  simp only [Ends, run_iff_exec]
  constructor
  · intro h
    obtain ⟨m₁, hss, hts⟩ | ⟨y, hx, hss⟩ := h.of_append
    · obtain ⟨y, hts, hx⟩ := (Exec.mapLines_iff (g := (· - lines)) hback).1 hts
      exact .inl ⟨m₁, y, hss, hts, hx⟩
    · exact .inr ⟨y, hx, hss⟩
  · rintro (⟨m₁, y, hss, hts, rfl⟩ | ⟨y, rfl, hss⟩)
    · exact hss.append (hts.mapLines _)
    · exact hss.append_of_error _

/-- What a run prints is what it prints on an empty buffer. -/
theorem Machine.Ends.prints {m m' : Machine} {ss : List Stmt} {x : Option RuntimeError}
    (h : m.Ends ss m' x) : ∃ text, m'.sink = m.sink.write text ∧
      Ends ⟨m.env, .buffer ""⟩ ss ⟨m'.env, .buffer text⟩ x := by
  simp only [Ends, run_iff_exec] at h ⊢
  obtain ⟨text, hsink, hrun⟩ := h.prints
  have hempty := hrun (.buffer "")
  rw [Sink.write, String.empty_append] at hempty
  exact ⟨text, hsink, hempty⟩

/-- Two sources with a line break between them are read if each is, and are run as the one and
then the other on the same machine. An error of the first ends the run; one of the second comes
out on a later line; and the text of the second follows that of the first. -/
theorem run_joined_sources {a b : String} {recover : Bool}
    (ha : (Script.read a recover).diagnostics = [])
    (hb : (Script.read b recover).diagnostics = []) :
    (Script.read (a ++ "\n" ++ b) recover).diagnostics = [] ∧
      (∀ (m m' : Machine) (x : Option RuntimeError),
        m.Ends (Script.read (a ++ "\n" ++ b) recover).statements m' x ↔
          (∃ m₁ y, m.Ends (Script.read a recover).statements m₁ none ∧
              m₁.Ends (Script.read b recover).statements m' y ∧
              x = y.map (.onLine (· + (1 + a.toList.count '\n')))) ∨
            ∃ y, x = some y ∧ m.Ends (Script.read a recover).statements m' (some y)) ∧
      ∀ (m m₁ m' : Machine) (y : Option RuntimeError),
        m.Ends (Script.read a recover).statements m₁ none →
        m₁.Ends (Script.read b recover).statements m' y →
        ∃ s t, Machine.Ends ⟨m.env, .buffer ""⟩ (Script.read a recover).statements
            ⟨m₁.env, .buffer s⟩ none ∧
          Machine.Ends ⟨m₁.env, .buffer ""⟩ (Script.read b recover).statements
            ⟨m'.env, .buffer t⟩ y ∧
          m'.sink = m.sink.write (s ++ t) := by
  have hclean : ∀ source, (Script.read source recover).diagnostics = [] →
      Script.read source recover = ⟨(Script.read source recover).statements, []⟩ :=
    fun source h => congrArg (Script.mk (Script.read source recover).statements) h
  rw [Script.read_join (hclean a ha) (hclean b hb)]
  refine ⟨rfl, fun m m' x => Machine.ends_join _ _ _, fun m m₁ m' y h h' => ?_⟩
  obtain ⟨s, hs, hprints⟩ := h.prints
  obtain ⟨t, ht, hprints'⟩ := h'.prints
  exact ⟨s, t, hprints, hprints', by rw [ht, hs, Sink.write_write]⟩

theorem joined_sources_error_line :
    let a := "var s = \"a\nb\"; // seam"
    let b := "print s;\nprint -s;"
    ((Script.read a false).diagnostics = [] ∧ (Script.read b false).diagnostics = []) ∧
      (Script.read (a ++ "\n" ++ b) false).diagnostics = [] ∧
      ∃ env, Machine.Ends ⟨.new .lexical, .buffer ""⟩
        (Script.read (a ++ "\n" ++ b) false).statements
        ⟨env, .buffer "a\nb\n"⟩ (some ⟨.numberOperand, 4⟩) := by
  intro a b
  have hreada : Script.read a false =
      ⟨[.declare ⟨"s", 1⟩ (.literal (.text "a\nb"))], []⟩ := by cbv
  have hreadb : Script.read b false =
      ⟨[.print (.var ⟨"s", 1⟩), .print (.unary .neg 2 (.var ⟨"s", 2⟩))], []⟩ := by cbv
  have ha : (Script.read a false).diagnostics = [] := congrArg Script.diagnostics hreada
  have hb : (Script.read b false).diagnostics = [] := congrArg Script.diagnostics hreadb
  have hruna : Machine.run 0 ⟨.new .lexical, .buffer ""⟩ (Script.read a false).statements =
      some (⟨⟨.lexical, [], [("s", .text "a\nb")]⟩, .buffer ""⟩, none) := by
    rw [hreada]
    cbv
  have hrunb : Machine.run 0 ⟨⟨.lexical, [], [("s", .text "a\nb")]⟩, .buffer ""⟩
      (Script.read b false).statements =
      some (⟨⟨.lexical, [], [("s", .text "a\nb")]⟩, .buffer "a\nb\n"⟩,
        some ⟨.numberOperand, 2⟩) := by
    rw [hreadb]
    cbv
  obtain ⟨hread, hrun, -⟩ := run_joined_sources ha hb
  refine ⟨⟨ha, hb⟩, hread, _, (hrun _ _ _).2 (.inl ⟨_, _, ⟨0, hruna⟩, ⟨0, hrunb⟩, ?_⟩)⟩
  cbv

end TinyScript
