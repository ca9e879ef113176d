import TinyScript.Diagnostic.Report
import TinyScript.Environment

/-!
The arguments of the command line. A command takes one operand; options stand before or after it,
each at most once, with the value in the next argument or behind an equals sign. Behind `--`
everything is an operand.
-/

namespace TinyScript.CommandLine

structure Options where
  scoping : Option ScopeMode
  recover : Option Unit
  format : Option ReportFormat
  color : Option ColorMode

namespace Options

def none : Options := ⟨.none, .none, .none, .none⟩

def colorMode (o : Options) : ColorMode := o.color.getD .auto

end Options

inductive OptionName where
  | scoping
  | recover
  | format
  | color
deriving DecidableEq, Repr

namespace OptionName

def ofText? : String → Option OptionName
  | "--scoping" => some scoping
  | "--recover" => some recover
  | "--format" => some format
  | "--color" => some color
  | _ => none

end OptionName

/-- A setting that is made once. -/
def once {α : Type} (old : Option α) (new : α) : Option (Option α) :=
  if old.isSome then none else some (some new)

namespace Options

/-- Sets an option that has no value. -/
def setFlag? (o : Options) : OptionName → Option Options
  | .recover => (once o.recover ()).map fun x => { o with recover := x }
  | _ => .none

/-- Sets an option that has a value. -/
def set? (o : Options) (name : OptionName) (value : String) : Option Options :=
  match name with
  | .scoping => do return { o with scoping := ← once o.scoping (← ScopeMode.ofText? value) }
  | .format => do return { o with format := ← once o.format (← ReportFormat.ofText? value) }
  | .color => do return { o with color := ← once o.color (← ColorMode.ofText? value) }
  | .recover => .none

end Options

/-- A word cut at its first equals sign, if it holds one. -/
def cutAtEqual (word : String) : String × Option String :=
  let cs := word.toList
  let name := cs.takeWhile (· != '=')
  match cs.drop name.length with
  | [] => (word, none)
  | _ :: value => (String.ofList name, some (String.ofList value))

/-- The options and operands of a command that allows the options `allowed`. A single dash is an
operand. -/
def split (allowed : List OptionName) (o : Options) (operands : List String) :
    List String → Option (Options × List String)
  | [] => some (o, operands.reverse)
  | "--" :: rest => some (o, operands.reverse ++ rest)
  | word :: rest =>
    if !word.startsWith "-" || word == "-" then split allowed o (word :: operands) rest
    else
      let (text, value) := cutAtEqual word
      match (OptionName.ofText? text).filter (· ∈ allowed), value, rest with
      | none, _, _ => none
      | some name, some value, rest => (o.set? name value).bind (split allowed · operands rest)
      | some .recover, none, rest => (o.setFlag? .recover).bind (split allowed · operands rest)
      | some _, none, [] => none
      | some name, none, value :: rest => (o.set? name value).bind (split allowed · operands rest)
termination_by words => words.length

inductive Command where
  | run (path : String) (scoping : ScopeMode) (recover : Bool) (format : ReportFormat)
      (color : ColorMode)
  | lex (path : String) (color : ColorMode)
  | parse (path : String) (recover : Bool) (color : ColorMode)
  | explain (code : String)

namespace Command

/-- The options and the only operand. -/
def single? (allowed : List OptionName) (words : List String) : Option (Options × String) :=
  match split allowed .none [] words with
  | some (o, [operand]) => some (o, operand)
  | _ => none

/-- As `single?`, for an operand that names a file. -/
def path? (allowed : List OptionName) (words : List String) : Option (Options × String) :=
  (single? allowed words).filter fun p => !p.2.isEmpty

/-- The command that the arguments give; none if they are misused. -/
def ofArguments? : List String → Option Command
  | "run" :: words =>
    (path? [.scoping, .recover, .format, .color] words).map fun (o, path) =>
      run path (o.scoping.getD .flat) o.recover.isSome (o.format.getD .text) o.colorMode
  | "lex" :: words => (path? [.color] words).map fun (o, path) => lex path o.colorMode
  | "parse" :: words =>
    (path? [.recover, .color] words).map fun (o, path) => parse path o.recover.isSome o.colorMode
  | "explain" :: words => (single? [] words).map fun (_, code) => explain code
  | _ => none

end Command

end TinyScript.CommandLine
