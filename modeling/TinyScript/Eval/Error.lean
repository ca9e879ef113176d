import TinyScript.Diagnostic.Basic

/-!
What can go wrong while a program runs.
-/

namespace TinyScript

inductive RuntimeFault where
  | addOperands
  | numberOperands
  | numberOperand
  | undefinedVariable (name : String)
  | undeclaredAssignment (name : String)
deriving DecidableEq, Repr

namespace RuntimeFault

def code : RuntimeFault → DiagnosticCode
  | addOperands | numberOperands | numberOperand => .operandType
  | undefinedVariable _ => .undefinedVariable
  | undeclaredAssignment _ => .undeclaredAssignment

def message : RuntimeFault → String
  | addOperands => "operands must be two numbers or two strings"
  | numberOperands => "operands must be numbers"
  | numberOperand => "operand must be a number"
  | undefinedVariable name => "undefined variable '" ++ name ++ "'"
  | undeclaredAssignment name => "cannot assign to undeclared variable '" ++ name ++ "'"

end RuntimeFault

/-- The line is that of the operator or the name. -/
structure RuntimeError where
  fault : RuntimeFault
  line : Nat
deriving DecidableEq, Repr

def RuntimeError.toDiagnostic (e : RuntimeError) : Diagnostic where
  code := e.fault.code
  phase := .running
  line := e.line
  location := none
  message := e.fault.message

end TinyScript
