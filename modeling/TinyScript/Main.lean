import TinyScript.CommandLine.Execute

/-!
The program: it reads the file that the command names, does the command, and writes what came of
it.
-/

namespace TinyScript.CommandLine

/-- The number of a system error, which may come with its sign turned. -/
def errorNumber (code : UInt32) : Nat := code.toInt32.toInt.natAbs

namespace ReadError

def ofSystem (code : UInt32) (details : String) : ReadError :=
  match errorNumber code with
  | 20 => notDirectory
  | 21 => isDirectory
  | 36 => nameTooLong
  | n => other (details ++ " (os error " ++ toString n ++ ")")

def ofFailure (x : IO.Error) : ReadError :=
  match x with
  | .noFileOrDirectory _ _ _ => notFound
  | .permissionDenied _ _ _ => permissionDenied
  | .inappropriateType _ code details => ofSystem code details
  | .invalidArgument _ code details => ofSystem code details
  | .hardwareFault code details => ofSystem code details
  | .otherError code details => ofSystem code details
  | x => other x.toString

end ReadError

def readFile (path : String) : IO (Except ReadError String) := do
  try
    return decode (← IO.FS.readBinFile path)
  catch x =>
    return .error (.ofFailure x)

def usage : String :=
  "usage: run FILE [--scoping flat|lexical] [--recover] [--format text|json] [--color MODE]\n"
    ++ "       lex FILE [--color MODE]\n"
    ++ "       parse FILE [--recover] [--color MODE]\n"
    ++ "       explain CODE\n"

/-- More rounds than a machine has time for. -/
def boundlessRounds : Nat := 1 <<< 62

end TinyScript.CommandLine

open TinyScript.CommandLine

def main (arguments : List String) : IO UInt32 := do
  match Command.ofArguments? arguments with
  | none =>
    IO.eprint usage
    return 2
  | some command =>
    let content ← match command.path with
      | some path => readFile path
      | none => pure (.ok "")
    let isTerminal ← (← IO.getStderr).isTty
    match command.execute boundlessRounds isTerminal fun _ => content with
    | none => throw (IO.userError "a loop went round too often")
    | some r =>
      IO.print r.output
      IO.eprint r.errors
      return r.status.code.toUInt32
