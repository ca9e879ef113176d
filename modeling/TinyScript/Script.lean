import TinyScript.Eval.Statement
import TinyScript.Syntax.Parse
import TinyScript.Token.Scan

/-!
From source text to outcome: scan, parse, and run if both succeeded.
-/

namespace TinyScript

/-- A source that has been read, with all that is wrong with it: lexical errors first. -/
structure Script where
  statements : List Stmt
  diagnostics : List Diagnostic

def Script.read (source : String) (recover : Bool) : Script :=
  let scanned := scan source
  let parsed := parse scanned.tokens recover
  { statements := parsed.statements
    diagnostics := scanned.errors.map (·.toDiagnostic) ++ parsed.errors.map (·.toDiagnostic) }

inductive ExitStatus where
  | success
  | usage
  | dataError
  | noInput
  | software
deriving DecidableEq, Repr

def ExitStatus.code : ExitStatus → Nat
  | success => 0
  | usage => 64
  | dataError => 65
  | noInput => 66
  | software => 70

structure RunConfig where
  scoping : ScopeMode
  recover : Bool

structure Outcome where
  diagnostics : List Diagnostic
  status : ExitStatus
  sink : Sink

/-- A source with any error is not run. There is no outcome if `rounds` are not enough. -/
def runSource (rounds : Nat) (config : RunConfig) (sink : Sink) (source : String) :
    Option Outcome :=
  let script := Script.read source config.recover
  if script.diagnostics.isEmpty then
    match Machine.run rounds ⟨.new config.scoping, sink⟩ script.statements with
    | none => none
    | some (m, none) => some ⟨[], .success, m.sink⟩
    | some (m, some e) => some ⟨[e.toDiagnostic], .software, m.sink⟩
  else some ⟨script.diagnostics, .dataError, sink⟩

end TinyScript
