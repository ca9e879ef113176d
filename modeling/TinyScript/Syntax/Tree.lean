import TinyScript.Syntax.Operator
import TinyScript.Value

/-!
Syntax trees. A node that can fail when it runs keeps the line of its operator or name.
-/

namespace TinyScript

/-- A name where it stands in the source. -/
structure Ident where
  name : String
  line : Nat
deriving DecidableEq, Repr

inductive Expr where
  | literal (value : Value)
  | group (inner : Expr)
  | unary (op : UnaryOp) (line : Nat) (operand : Expr)
  | binary (op : BinaryOp) (line : Nat) (left right : Expr)
  | logical (op : LogicalOp) (left right : Expr)
  | assign (target : Ident) (value : Expr)
  | var (ident : Ident)

inductive Stmt where
  | expression (e : Expr)
  | print (e : Expr)
  | declare (ident : Ident) (initial : Expr)
  | block (body : List Stmt)
  | ifThen (test : Expr) (yes : Stmt)
  | ifElse (test : Expr) (yes no : Stmt)
  | while (test : Expr) (body : Stmt)

namespace Expr

/-- Only a bare variable can be assigned to; one in parentheses cannot. -/
def asVariable? : Expr → Option Ident
  | var x => some x
  | _ => none

end Expr

namespace Stmt

/-- What kind of statement it is, in one word. -/
def kindName : Stmt → String
  | expression _ => "expression"
  | print _ => "print"
  | declare _ _ => "var"
  | block _ => "block"
  | ifThen _ _ => "if"
  | ifElse _ _ _ => "if"
  | .while _ _ => "while"

/-- A counting loop in terms of `while`: the step runs after each round of the body, and a block
around the whole holds what the initializer declares. -/
def counting (init : Option Stmt) (test : Expr) (step : Option Expr) (body : Stmt) : Stmt :=
  let round := match step with
    | some e => block [body, expression e]
    | none => body
  match init with
  | some s => block [s, .while test round]
  | none => .while test round

end Stmt

end TinyScript
