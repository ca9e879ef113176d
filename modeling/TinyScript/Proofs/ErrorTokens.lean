import TinyScript.Proofs.Culprits
import TinyScript.Proofs.Session

/-!
A runtime error and the source it comes from. The report of an error names a line and says in words
what went wrong there; on that line the source has a token that the words fit.
-/

namespace TinyScript

/-- A report with this code and this message fits the token, with `after` behind it. -/
inductive Token.Fits (t : Token) (after : List Token) : DiagnosticCode → String → Prop where
  | undefinedVariable (ht : t.kind = .identifier) :
      Fits t after .undefinedVariable ("undefined variable '" ++ t.lexeme ++ "'")
  | undeclaredAssignment {q : Token} {rest : List Token} (ht : t.kind = .identifier)
      (hafter : after = q :: rest) (hq : q.kind = .equal) :
      Fits t after .undeclaredAssignment
        ("cannot assign to undeclared variable '" ++ t.lexeme ++ "'")
  | addOperands (ht : t.kind = .plus) :
      Fits t after .operandType "operands must be two numbers or two strings"
  | numberOperands (ht : t.kind ∈ [.minus, .star, .slash, .percent, .less, .lessEqual, .greater,
      .greaterEqual]) : Fits t after .operandType "operands must be numbers"
  | numberOperand (ht : t.kind = .minus) : Fits t after .operandType "operand must be a number"

theorem RuntimeFault.Blames.fits {fault : RuntimeFault} {t : Token} {after : List Token}
    (h : fault.Blames t after) : t.Fits after fault.code fault.message := by
  cases fault with
  | addOperands => exact .addOperands h
  | numberOperands => exact .numberOperands h
  | numberOperand => exact .numberOperand h
  | undefinedVariable name =>
    obtain ⟨hkind, rfl⟩ := h
    exact .undefinedVariable hkind
  | undeclaredAssignment name =>
    obtain ⟨hkind, rfl, q, rest, hafter, hq⟩ := h
    exact .undeclaredAssignment hkind hafter hq

theorem tokens_eq_words (source : String) :
    ∃ e : Token, e.kind = .eof ∧ (scan source).tokens = words source ++ [e] := by
  rw [scan_eq]
  exact ⟨_, rfl, rfl⟩

/-- The error in which a source ends points at one of its tokens: the token stands on the line of
the error and is a name or an operator as code and message say. -/
theorem runtime_error_fits_token {source : String} {recover : Bool}
    (hread : (Script.read source recover).diagnostics = []) {m m' : Machine} {x : RuntimeError}
    (hrun : m.Ends (Script.read source recover).statements m' (some x)) :
    ∃ before t after, (scan source).tokens = before ++ t :: after ∧
      t.line = x.toDiagnostic.line ∧
      t.Fits after x.toDiagnostic.code x.toDiagnostic.message := by
  obtain ⟨-, hwords⟩ := Script.read_eq_iff.1 (Script.read_of_clean hread)
  obtain ⟨e, -, htokens⟩ := tokens_eq_words source
  have hstands := (hrun.blames_token hwords).append_right [e]
  rw [← htokens] at hstands
  generalize (scan source).tokens = tokens at hstands
  obtain @⟨before, after, t, hline, hblames⟩ := hstands
  exact ⟨before, t, after, rfl, hline.symm, hblames.fits⟩

/-- The first clause of the loop assigns to a name that is not declared. -/
theorem loop_clause_error_fits_token :
    let source := "print \"a\nb\"; for (i\n= null; ; ) print i;"
    (Script.read source false).diagnostics = [] ∧
      Machine.Ends ⟨.new .lexical, .buffer ""⟩ (Script.read source false).statements
        ⟨.new .lexical, .buffer "a\nb\n"⟩ (some ⟨.undeclaredAssignment "i", 2⟩) ∧
      ∃ before t after, (scan source).tokens = before ++ t :: after ∧ t.line = 2 ∧
        t.Fits after .undeclaredAssignment "cannot assign to undeclared variable 'i'" := by
  intro source
  have hread : Script.read source false = ⟨[.print (.literal (.text "a\nb")),
      .block [.expression (.assign ⟨"i", 2⟩ (.literal .null)),
        .while (.literal (.boolean true)) (.print (.var ⟨"i", 3⟩))]], []⟩ := by cbv
  have hclean : (Script.read source false).diagnostics = [] := congrArg Script.diagnostics hread
  have hmachine : Machine.run 0 ⟨.new .lexical, .buffer ""⟩ (Script.read source false).statements =
      some (⟨.new .lexical, .buffer "a\nb\n"⟩, some ⟨.undeclaredAssignment "i", 2⟩) := by
    rw [hread]
    cbv
  have hrun : Machine.Ends _ _ _ _ := ⟨0, hmachine⟩
  exact ⟨hclean, hrun, runtime_error_fits_token hclean hrun⟩

end TinyScript
