import TinyScript.Syntax.Tree

/-!
Operators that wait for their right operand. The innermost one stands first. A new operator
closes those that bind their operand more tightly, an open parenthesis stops that.
-/

namespace TinyScript

inductive Pending where
  | unary (op : UnaryOp) (line : Nat)
  | binary (left : Expr) (op : BinaryOp) (line : Nat)
  | logical (left : Expr) (op : LogicalOp)
  | assign (target : Ident)
  | group

namespace Pending

def level : Pending → Level
  | unary _ _ => Level.unary
  | binary _ op _ => op.level
  | logical _ op => op.level
  | assign _ => Level.assignment
  | group => Level.bracket

/-- The expression, once its operand is there. -/
def complete (e : Expr) : Pending → Expr
  | unary op line => .unary op line e
  | binary left op line => .binary op line left e
  | logical left op => .logical op left e
  | assign target => .assign target e
  | group => .group e

/-- `e` is the operand of every operator that binds at least as tightly as `l`. -/
def close (l : Level) (e : Expr) : List Pending → Expr × List Pending
  | [] => (e, [])
  | p :: ps => if l ≤ p.level then close l (p.complete e) ps else (e, p :: ps)

def ofInfix (op : InfixOp) (line : Nat) (left : Expr) : Pending :=
  match op with
  | .binary op => binary left op line
  | .logical op => logical left op

end Pending

end TinyScript
