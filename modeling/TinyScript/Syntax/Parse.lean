import TinyScript.Syntax.Stage
import TinyScript.Token.Set

/-!
Reading a program from its tokens. Without recovery reading stops at the first error. With
recovery it goes on behind the next semicolon or at the next token that starts a statement, and
collects every error.
-/

namespace TinyScript

/-- How far reading has come. The stage is missing while tokens are skipped after an error.
Statements and errors are kept with the last one first. -/
structure Reading where
  stage : Option Stage
  statements : List Stmt
  errors : List SyntaxError

namespace Reading

def start : Reading := ⟨some .start, [], []⟩

/-- The stage in which reading goes on after an error, if `t` ends the skipping. -/
def resume (t : Token) : Option Stage :=
  if t.kind = .semicolon then some .start
  else if TokenSet.statementStart.contains t.kind then (Stage.statement [] t).toOption
  else none

/-- Takes what a token leads to, and on an error starts to skip. -/
def proceed (r : Reading) (t : Token) : Stage.Next → Reading
  | .ok stage => { r with stage := some stage }
  | .error fault =>
    { r with
      stage := if fault.tookToken then none else resume t
      errors := ⟨fault, t⟩ :: r.errors }

/-- Reads a token that is not the end. -/
def feed (r : Reading) (t : Token) : Reading :=
  match r.stage with
  | none => { r with stage := resume t }
  | some (.inside mode enclosing) => r.proceed t (Stage.step mode enclosing t)
  | some (.finished s enclosing) =>
    match Stage.settle t.kind s enclosing with
    | .outermost s =>
      { r with statements := s :: r.statements }.proceed t (Stage.statement [] t)
    | .within mode enclosing => r.proceed t (Stage.step mode enclosing t)
    | .atElse test yes enclosing =>
      { r with stage := some (.inside .statement (.elseBranch test yes :: enclosing)) }

/-- What is wrong when the tokens end in a stage. -/
def unfinished (mode : Mode) (enclosing : List Enclosing) (t : Token) : List SyntaxError :=
  match mode, enclosing with
  | .statement, [] => []
  | _, _ =>
    match Stage.step mode enclosing t with
    | .ok _ => []
    | .error fault => [⟨fault, t⟩]

/-- Reads the end. -/
def finish (r : Reading) (t : Token) : Reading :=
  match r.stage with
  | none => r
  | some (.inside mode enclosing) => { r with errors := unfinished mode enclosing t ++ r.errors }
  | some (.finished s enclosing) =>
    match Stage.settle t.kind s enclosing with
    | .outermost s => { r with statements := s :: r.statements }
    | .within mode enclosing => { r with errors := unfinished mode enclosing t ++ r.errors }
    | .atElse _ _ _ => r

/-- Reads up to the first end token; a list that holds none ends with one. -/
def run (recover : Bool) (r : Reading) : List Token → Reading
  | [] => r.finish .missingEof
  | t :: ts =>
    if t.kind = .eof then r.finish t
    else
      let r := r.feed t
      if recover || r.errors.isEmpty then run recover r ts else r

end Reading

structure Parsed where
  statements : List Stmt
  errors : List SyntaxError

def parse (tokens : List Token) (recover : Bool) : Parsed :=
  let r := Reading.start.run recover tokens
  ⟨r.statements.reverse, r.errors.reverse⟩

end TinyScript
