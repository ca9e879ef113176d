import TinyScript.Proofs.Soundness

/-!
Parsing and derivations are the same, and a program has at most one tree.
-/

namespace TinyScript

namespace Grammar

theorem parse_iff {w : List Token} {e : Token} (he : e.kind = .eof)
    (hw : ∀ t ∈ w, t.kind ≠ .eof) (hl : ∀ t ∈ w, Carried t) (recover : Bool) (ss : List Stmt) :
    parse (w ++ [e]) recover = ⟨ss, []⟩ ↔ Statements w ss := by
  rw [parse_eq_ok_iff he hw]
  constructor
  · rintro ⟨herrors, rfl⟩
    exact statements_of_read he hl herrors
  · intro h
    exact h.read he

/-- Trees are read off the words by the parser, so there is no choice between them. -/
theorem Statements.unique {w : List Token} {ss ss' : List Stmt} (h : Statements w ss)
    (h' : Statements w ss') : ss = ss' :=
  (h.read (e := .eof 1 0) rfl).2.symm.trans (h'.read rfl).2

/-- A list of tokens is parsed to a program without error if and only if the program has a
derivation from it, and no other program has one. -/
theorem parse_ok_iff_derivation {w : List Token} {e : Token} (he : e.kind = .eof)
    (hw : ∀ t ∈ w, t.kind ≠ .eof) (hl : ∀ t ∈ w, Carried t) (ss : List Stmt) :
    (parse (w ++ [e]) false = ⟨ss, []⟩ ↔ Statements w ss) ∧
      (Statements w ss → ∀ ss', Statements w ss' → ss' = ss) :=
  ⟨parse_iff he hw hl false ss, fun h _ h' => h'.unique h⟩

/-- The tokens of `if (a) if (b) c = d * c / d; else print "s";`. -/
def danglingElse : List Token :=
  let word (k : TokenKind) (s : String) : Token := ⟨k, s, none, 1, ⟨0, 0⟩⟩
  [word .kwIf "if", word .leftParen "(", word .identifier "a", word .rightParen ")",
    word .kwIf "if", word .leftParen "(", word .identifier "b", word .rightParen ")",
    word .identifier "c", word .equal "=", word .identifier "d", word .star "*",
    word .identifier "c", word .slash "/", word .identifier "d", word .semicolon ";",
    word .kwElse "else", word .kwPrint "print", ⟨.string, "\"s\"", some (.text "s"), 1, ⟨0, 0⟩⟩,
    word .semicolon ";"]

/-- The `else` belongs to the inner `if`, and the product groups to the right. -/
theorem danglingElse_derivation :
    (∀ t ∈ danglingElse, t.kind ≠ .eof) ∧ (∀ t ∈ danglingElse, Carried t) ∧
      Statements danglingElse [.ifThen (.var ⟨"a", 1⟩) (.ifElse (.var ⟨"b", 1⟩)
        (.expression (.assign ⟨"c", 1⟩ (.binary .mul 1 (.var ⟨"d", 1⟩)
          (.binary .div 1 (.var ⟨"c", 1⟩) (.var ⟨"d", 1⟩)))))
        (.print (.literal (.text "s"))))] := by
  have hw : ∀ t ∈ danglingElse, t.kind ≠ .eof := by decide
  have hl : ∀ t ∈ danglingElse, Carried t := by
    unfold Carried
    decide
  exact ⟨hw, hl, (parse_ok_iff_derivation (e := .eof 1 0) rfl hw hl _).1.1 rfl⟩

end Grammar

end TinyScript
