import TinyScript.CommandLine.Arguments
import TinyScript.CommandLine.File
import TinyScript.Script
import TinyScript.Syntax.Printer

/-!
What a command writes and with which status it ends, as a function of the file that it reads.
-/

namespace TinyScript.CommandLine

structure Result where
  status : ExitStatus
  output : String
  errors : String
deriving DecidableEq, Repr

namespace Result

def success (output : String) : Result := ⟨.success, output, ""⟩

def unreadable (path : String) (x : ReadError) : Result :=
  ⟨.noInput, "", "error: " ++ x.message path ++ "\n"⟩

/-- Ends with the diagnostics, if there are any. -/
def checked (output : String) (color : Bool) (ds : List Diagnostic) : Result :=
  if ds.isEmpty then success output else ⟨.dataError, output, report .text color ds⟩

end Result

namespace Command

/-- The file that the command reads. -/
def path : Command → Option String
  | run path _ _ _ _ => some path
  | lex path _ => some path
  | parse path _ _ => some path
  | explain _ => none

def explanation (code : String) : Result :=
  match DiagnosticCode.ofText? code with
  | some c => .success (c.explain ++ "\n")
  | none =>
    ⟨.usage, "", "error: unknown error code '" ++ code
      ++ "'\ncodes look like E0001 (lexical), E1001 (syntax) or E6001 (runtime)\n"⟩

def listing (ts : List Token) : String := ts.foldl (fun out t => out ++ t.display ++ "\n") ""

/-- `read` gives the content of a file. There is no result if `rounds` are not enough. -/
def execute (rounds : Nat) (isTerminal : Bool) (read : String → Except ReadError String) :
    Command → Option Result
  | explain code => some (explanation code)
  | lex path color =>
    match read path with
    | .error x => some (.unreadable path x)
    | .ok source =>
      let s := scan source
      some (.checked (listing s.tokens) (color.resolve isTerminal)
        (s.errors.map (·.toDiagnostic)))
  | parse path recover color =>
    match read path with
    | .error x => some (.unreadable path x)
    | .ok source =>
      let script := Script.read source recover
      some (.checked (Program.display script.statements) (color.resolve isTerminal)
        script.diagnostics)
  | run path scoping recover format color =>
    match read path with
    | .error x => some (.unreadable path x)
    | .ok source =>
      (runSource rounds ⟨scoping, recover⟩ (.buffer "") source).map fun outcome =>
        ⟨outcome.status, outcome.sink.captured,
          report format (color.resolve isTerminal) outcome.diagnostics⟩

end Command

end TinyScript.CommandLine
