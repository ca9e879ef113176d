/-!
Diagnostics: what is reported about a program, whichever part of the language found it.
-/

namespace TinyScript

inductive DiagnosticCode where
  | unterminatedString
  | unexpectedCharacter
  | expectedToken
  | expectedExpression
  | invalidTarget
  | operandType
  | undefinedVariable
  | undeclaredAssignment
deriving DecidableEq, Repr

namespace DiagnosticCode

def all : List DiagnosticCode := [
  unterminatedString, unexpectedCharacter, expectedToken, expectedExpression, invalidTarget,
  operandType, undefinedVariable, undeclaredAssignment]

/-- The first digit tells the phase: 0 for scanning, 1 for parsing, 6 for running. -/
def text : DiagnosticCode → String
  | unterminatedString => "E0001"
  | unexpectedCharacter => "E0002"
  | expectedToken => "E1001"
  | expectedExpression => "E1002"
  | invalidTarget => "E1003"
  | operandType => "E6001"
  | undefinedVariable => "E6002"
  | undeclaredAssignment => "E6003"

def description : DiagnosticCode → String
  | unterminatedString => "string literal is missing its closing quote"
  | unexpectedCharacter => "character is not part of the language"
  | expectedToken => "a required token is missing"
  | expectedExpression => "an expression was expected here"
  | invalidTarget => "only a variable can appear on the left of `=`"
  | operandType => "operator applied to operands of the wrong type"
  | undefinedVariable => "variable read before it was declared"
  | undeclaredAssignment => "variable assigned before it was declared"

/-- The code with this text, in either case. No character outside ASCII has a capital that occurs
in a code, so the capitals of ASCII decide. -/
def ofText? (s : String) : Option DiagnosticCode := all.find? fun c => c.text == s.toUpper

def explain (c : DiagnosticCode) : String := c.text ++ ": " ++ c.description

end DiagnosticCode

/-- The part of the language that found a problem. -/
inductive Phase where
  | scanning
  | parsing
  | running
deriving DecidableEq, Repr

def Phase.text : Phase → String
  | .scanning => "lex"
  | .parsing => "parse"
  | .running => "runtime"

/-- A location is given for problems of syntax only. -/
structure Diagnostic where
  code : DiagnosticCode
  phase : Phase
  line : Nat
  location : Option String
  message : String
deriving DecidableEq, Repr

namespace Diagnostic

def isRuntime (d : Diagnostic) : Bool := d.phase == .running

def label (d : Diagnostic) : String := if d.isRuntime then "Runtime error" else "Error"

def display (d : Diagnostic) : String :=
  let place := match d.location with
    | some l => " " ++ l
    | none => ""
  "[line " ++ toString d.line ++ "] " ++ d.label ++ place ++ ": " ++ d.message

end Diagnostic

end TinyScript
