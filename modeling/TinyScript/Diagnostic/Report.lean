import TinyScript.Diagnostic.Basic
import TinyScript.Text.Quoted

/-!
Reports of diagnostics: lines of text, in colour on request, or one JSON array of flat objects.
-/

namespace TinyScript

inductive ReportFormat where
  | text
  | json
deriving DecidableEq, Repr

def ReportFormat.ofText? : String → Option ReportFormat
  | "text" => some .text
  | "json" => some .json
  | _ => none

inductive ColorMode where
  | auto
  | always
  | never
deriving DecidableEq, Repr

def ColorMode.ofText? : String → Option ColorMode
  | "auto" => some .auto
  | "always" => some .always
  | "never" => some .never
  | _ => none

/-- Whether to colour; the kind of output matters to `auto` only. -/
def ColorMode.resolve (m : ColorMode) (isTerminal : Bool) : Bool :=
  match m with
  | .auto => isTerminal
  | .always => true
  | .never => false

namespace Report

def reset : String := "\x1b[0m"
def bold : String := "\x1b[1m"
def boldRed : String := "\x1b[1;31m"
def boldMagenta : String := "\x1b[1;35m"

def paint (colored : Bool) (style text : String) : String :=
  if colored then style ++ text ++ reset else text

/-- One diagnostic as a line of text. -/
def textLine (colored : Bool) (d : Diagnostic) : String :=
  let label := paint colored (if d.isRuntime then boldMagenta else boldRed) d.label
  let place := match d.location with
    | some l => " " ++ paint colored bold l
    | none => ""
  "[line " ++ toString d.line ++ "] " ++ label ++ place ++ ": " ++ d.message ++ "\n"

def textSummary (count : Nat) : String :=
  match count with
  | 0 => ""
  | 1 => "1 error emitted\n"
  | n => toString n ++ " errors emitted\n"

/-- `n < 65536` in four digits. -/
def hexFour (n : Nat) : String :=
  let digits := Nat.toDigits 16 n
  String.ofList (List.replicate (4 - digits.length) '0' ++ digits)

def jsonChar (c : Char) : String :=
  match c with
  | '"' => "\\\""
  | '\\' => "\\\\"
  | '\n' => "\\n"
  | '\r' => "\\r"
  | '\t' => "\\t"
  | c => if isControl c then "\\u" ++ hexFour c.toNat else c.toString

def jsonString (s : String) : String :=
  s.foldl (fun out c => out ++ jsonChar c) "\"" ++ "\""

def jsonObject (d : Diagnostic) : String :=
  let place := match d.location with
    | some l => jsonString l
    | none => "null"
  "\n  \x7b\"code\": " ++ jsonString d.code.text
    ++ ", \"phase\": " ++ jsonString d.phase.text
    ++ ", \"line\": " ++ toString d.line
    ++ ", \"location\": " ++ place
    ++ ", \"message\": " ++ jsonString d.message ++ "\x7d"

end Report

/-- Writes a report piece by piece. A JSON report keeps in mind whether it is still empty. -/
inductive Emitter where
  | text (colored : Bool)
  | json (isEmpty : Bool)
deriving DecidableEq, Repr

namespace Emitter

def start (format : ReportFormat) (colored : Bool) : Emitter :=
  match format with
  | .text => text colored
  | .json => json true

def opening : Emitter → String
  | text _ => ""
  | json _ => "["

def emit (e : Emitter) (d : Diagnostic) : Emitter × String :=
  match e with
  | text colored => (e, Report.textLine colored d)
  | json isEmpty => (json false, (if isEmpty then "" else ",") ++ Report.jsonObject d)

def emitAll (e : Emitter) (ds : List Diagnostic) : Emitter × String :=
  ds.foldl (fun (e, out) d => let (e, s) := e.emit d; (e, out ++ s)) (e, "")

def closing : Emitter → String
  | text _ => ""
  | json isEmpty => if isEmpty then "]\n" else "\n]\n"

/-- The length of a JSON array speaks for itself. -/
def summary (e : Emitter) (count : Nat) : String :=
  match e with
  | text _ => Report.textSummary count
  | json _ => ""

end Emitter

/-- The whole report. -/
def report (format : ReportFormat) (colored : Bool) (ds : List Diagnostic) : String :=
  let e := Emitter.start format colored
  let (last, body) := e.emitAll ds
  e.opening ++ body ++ last.closing ++ last.summary ds.length

end TinyScript
