import TinyScript.Proofs.Tiling

/-!
A scan is the division of the source that the lexical grammar gives, the only one there is. Every
token and every fault is what the grammar gives where it starts, and no longer piece starts there.
-/

namespace TinyScript

namespace Lexical

/-- What is cut in front of a text would also be cut at the end of a source. -/
theorem Cut.alone {text rest : List Char} {p : Piece} (h : Cut text p rest) : Cut text p [] := by
  cases h with
  | blank h => exact .blank h
  | comment h _ => exact .comment h (stops_nil _)
  | punctuation h => exact .punctuation h
  | single h _ => exact .single h nofun
  | double h => exact .double h
  | slash _ => exact .slash nofun
  | text h => exact .text h
  | whole h _ _ => exact .whole h (stops_nil _) nofun
  | decimal h hne h' _ => exact .decimal h hne h' (stops_nil _)
  | word h h' _ => exact .word h h' (stops_nil _)
  | unterminated h => exact .unterminated h
  | unexpected hblank hpunctuation hoperator hslash hquote hdigit hname =>
    exact .unexpected hblank hpunctuation hoperator hslash hquote hdigit hname

/-- No token, comment or blank starts with a character that is a fault by itself. -/
theorem Cut.not_lexeme {c : Char} {text rest : List Char}
    (h : Cut text (.fault (.unexpectedCharacter c)) rest) :
    text = [c] ∧ ∀ cs, ¬Lexeme (c :: cs) := by
  cases h with
  | unexpected hblank hpunctuation hoperator hslash hquote hdigit hname =>
    refine ⟨rfl, fun cs hlexeme => ?_⟩
    have hcut : Cut [c] _ cs :=
      .unexpected hblank hpunctuation hoperator hslash hquote hdigit hname
    exact (hcut.longest hlexeme (List.prefix_refl _)).1 _ rfl

/-- The grammar divides a text into pieces, from its start to its end. -/
inductive Divided : List Char → List (List Char × Piece) → Prop where
  | nil : Divided [] []
  | cons {text rest : List Char} {p : Piece} {pieces : List (List Char × Piece)}
      (h : Cut text p rest) (hrest : Divided rest pieces) :
      Divided (text ++ rest) ((text, p) :: pieces)

theorem divided_sequence (p : Place) (cs : List Char) :
    Divided cs ((Stretch.sequence p cs).map fun s => (s.text, s.piece)) := by
  fun_induction Stretch.sequence p cs with
  | case1 => exact .nil
  | case2 p c rest text ih =>
    have hsplit : c :: rest = text ++ rest.drop (Piece.first c rest).2 := by
      rw [List.cons_append, List.take_append_drop]
    rw [hsplit]
    exact .cons (cut_first c rest) ih

/-- There is no other division. -/
theorem Divided.unique {text : List Char} {pieces pieces' : List (List Char × Piece)}
    (h : Divided text pieces) (h' : Divided text pieces') : pieces = pieces' := by
  induction h generalizing pieces' with
  | nil =>
    generalize hsame : ([] : List Char) = whole at h'
    cases h' with
    | nil => rfl
    | cons hcut' _ => exact absurd (List.append_eq_nil_iff.1 hsame.symm).1 hcut'.ne_nil
  | @cons text rest p pieces hcut _ ih =>
    generalize hsame : text ++ rest = whole at h'
    cases h' with
    | nil => exact absurd (List.append_eq_nil_iff.1 hsame).1 hcut.ne_nil
    | @cons text' rest' p' pieces' hcut' hrest' =>
      obtain ⟨rfl, rfl⟩ := hcut.unique hcut' hsame
      rw [← List.append_cancel_left hsame] at hrest'
      rw [ih hrest']

/-- The text, the kind and the literal of a piece that is a token. -/
def token? : List Char × Piece → Option (String × TokenKind × Option Literal)
  | (text, .token kind literal) => some (String.ofList text, kind, literal)
  | _ => none

def fault? : List Char × Piece → Option LexicalFault
  | (_, .fault cause) => some cause
  | _ => none

end Lexical

namespace Scanned

open Lexical

/-- The scan holds the tokens and the faults of the only division, in order and with an end behind
them; each is what the grammar gives where it starts, and the longest. -/
structure Longest (source : String) (r : Scanned) : Prop where
  complete : ∃ pieces, Divided source.toList pieces ∧
    (∀ others, Divided source.toList others → others = pieces) ∧
    r.tokens.map (fun t => (t.lexeme, t.kind, t.literal)) =
      pieces.filterMap token? ++ [("", .eof, none)] ∧
    r.errors.map LexicalError.fault = pieces.filterMap fault?
  token : ∀ t ∈ r.tokens, t.kind ≠ .eof → ∃ before after : String,
    source = before ++ t.lexeme ++ after ∧
      t.span = ⟨before.utf8ByteSize, (before ++ t.lexeme).utf8ByteSize⟩ ∧
      Cut t.lexeme.toList (.token t.kind t.literal) after.toList ∧ Lexeme t.lexeme.toList ∧
      ∀ text, Lexeme text → text <+: (t.lexeme ++ after).toList → text.length ≤ t.lexeme.length
  eof : ∀ t ∈ r.tokens, t.kind = .eof → t.literal = none
  error : ∀ e ∈ r.errors, ∃ before text after : String,
    source = before ++ text ++ after ∧
      e.span = ⟨before.utf8ByteSize, (before ++ text).utf8ByteSize⟩ ∧
      Cut text.toList (.fault e.fault) after.toList ∧
      ∀ text', Lexeme text' → ¬text' <+: (text ++ after).toList
  unexpected : ∀ e ∈ r.errors, ∀ c, e.fault = .unexpectedCharacter c → ∀ cs, ¬Lexeme (c :: cs)

/-- A scan takes the longest match everywhere. -/
theorem scan_longest (source : String) (hsize : source.utf8ByteSize < 2 ^ 32 - 1) :
    Longest source (scan source) := by
  have hle : source.utf8ByteSize ≤ Span.limit := Nat.le_of_lt hsize
  constructor
  case complete =>
    have htoken : (fun s : Stretch => s.token?.map fun t => (t.lexeme, t.kind, t.literal)) =
        token? ∘ fun s => (s.text, s.piece) := by
      funext s
      simp only [Function.comp_apply, Stretch.token?, token?]
      cases s.piece <;> rfl
    have hfault : (fun s : Stretch => s.error?.map LexicalError.fault) =
        fault? ∘ fun s => (s.text, s.piece) := by
      funext s
      simp only [Function.comp_apply, Stretch.error?, fault?]
      cases s.piece <;> rfl
    have hdivided := divided_sequence .start source.toList
    refine ⟨_, hdivided, fun others h => h.unique hdivided, ?_, ?_⟩
    · rw [tokens_eq hle, List.map_append, List.map_filterMap, List.filterMap_map, htoken]
      rfl
    · rw [scan_eq, List.map_filterMap, List.filterMap_map, hfault]
  case token =>
    intro t ht hkind
    obtain ⟨s, hs, kind, literal, hpiece, rfl⟩ | ⟨line, rfl⟩ := mem_tokens hle ht
    · obtain ⟨-, before, after, hsource, hspan, hcut⟩ := Stretch.place_of_mem hle hs
      rw [hpiece] at hcut
      have hsound : ∀ x, Piece.token kind literal ≠ .fault x := fun x h => by cases h
      simp only [String.toList_append, String.toList_ofList, String.length_ofList]
      exact ⟨before, after, hsource, hspan, hcut, ⟨_, hcut.alone, hsound⟩,
        fun text hlexeme hhead => (hcut.longest hlexeme hhead).2⟩
    · exact absurd rfl hkind
  case eof =>
    intro t ht hkind
    obtain ⟨s, hs, kind, literal, hpiece, rfl⟩ | ⟨line, rfl⟩ := mem_tokens hle ht
    · have hcarries := Stretch.mem_sequence hs
      rw [hpiece] at hcarries
      exact absurd hkind hcarries.1
    · rfl
  case error =>
    intro e he
    obtain ⟨s, hs, cause, hpiece, rfl⟩ := mem_errors he
    obtain ⟨-, before, after, hsource, hspan, hcut⟩ := Stretch.place_of_mem hle hs
    rw [hpiece] at hcut
    refine ⟨before, String.ofList s.text, after, hsource, hspan, ?_⟩
    simp only [String.toList_append, String.toList_ofList]
    exact ⟨hcut, fun text' hlexeme hhead => (hcut.longest hlexeme hhead).1 _ rfl⟩
  case unexpected =>
    rintro e he c hfault cs
    obtain ⟨s, hs, cause, hpiece, rfl⟩ := mem_errors he
    obtain ⟨-, before, after, -, -, hcut⟩ := Stretch.place_of_mem hle hs
    obtain rfl : cause = .unexpectedCharacter c := hfault
    rw [hpiece] at hcut
    exact hcut.not_lexeme.2 cs

/-- Digits with a point and no fraction behind them, a word that starts with a reserved one, and
an operator that could go on. -/
theorem short_pieces_longest : "7.orx<=!\x00\"".utf8ByteSize < 2 ^ 32 - 1 ∧
    Longest "7.orx<=!\x00\"" (scan "7.orx<=!\x00\"") :=
  ⟨by decide, scan_longest _ (by decide)⟩

end Scanned

end TinyScript
