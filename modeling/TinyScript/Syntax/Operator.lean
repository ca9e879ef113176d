import TinyScript.Token.Kind

/-!
Operators, their symbols and how tightly they bind.
-/

namespace TinyScript

inductive UnaryOp where
  | neg
  | not
deriving DecidableEq, Repr

/-- The operators that need both operands. -/
inductive BinaryOp where
  | add | sub | mul | div | rem
  | eq | ne
  | lt | le | gt | ge
deriving DecidableEq, Repr

/-- The operators whose left operand may decide alone. -/
inductive LogicalOp where
  | and
  | or
deriving DecidableEq, Repr

namespace UnaryOp

def symbol : UnaryOp → String
  | neg => "-"
  | not => "!"

def ofToken? : TokenKind → Option UnaryOp
  | .minus => some neg
  | .bang => some not
  | _ => none

end UnaryOp

namespace BinaryOp

def all : List BinaryOp := [add, sub, mul, div, rem, eq, ne, lt, le, gt, ge]

def symbol : BinaryOp → String
  | add => "+"
  | sub => "-"
  | mul => "*"
  | div => "/"
  | rem => "%"
  | eq => "=="
  | ne => "!="
  | lt => "<"
  | le => "<="
  | gt => ">"
  | ge => ">="

def ofToken? : TokenKind → Option BinaryOp
  | .plus => some add
  | .minus => some sub
  | .star => some mul
  | .slash => some div
  | .percent => some rem
  | .equalEqual => some eq
  | .bangEqual => some ne
  | .less => some lt
  | .lessEqual => some le
  | .greater => some gt
  | .greaterEqual => some ge
  | _ => none

end BinaryOp

namespace LogicalOp

def symbol : LogicalOp → String
  | and => "and"
  | or => "or"

def ofToken? : TokenKind → Option LogicalOp
  | .kwAnd => some and
  | .kwOr => some or
  | _ => none

end LogicalOp

/-- How tightly something holds its operand; greater is tighter. -/
abbrev Level := Nat

namespace Level

def bracket : Level := 0
def assignment : Level := 1
def disjunction : Level := 2
def conjunction : Level := 3
def equality : Level := 4
def comparison : Level := 5
def sum : Level := 6
def product : Level := 7
def unary : Level := 8

end Level

def BinaryOp.level : BinaryOp → Level
  | eq | ne => Level.equality
  | lt | le | gt | ge => Level.comparison
  | add | sub => Level.sum
  | mul | div | rem => Level.product

def LogicalOp.level : LogicalOp → Level
  | or => Level.disjunction
  | and => Level.conjunction

/-- The operators that stand between two operands. -/
inductive InfixOp where
  | binary (op : BinaryOp)
  | logical (op : LogicalOp)
deriving DecidableEq, Repr

namespace InfixOp

def ofToken? (k : TokenKind) : Option InfixOp :=
  ((BinaryOp.ofToken? k).map binary).or ((LogicalOp.ofToken? k).map logical)

def level : InfixOp → Level
  | binary op => op.level
  | logical op => op.level

/-- What stands to the left is one operand of the operator if it binds at least this tightly.
Products group to the right, all else groups to the left. -/
def leftLevel (op : InfixOp) : Level :=
  if op.level = Level.product then Level.unary else op.level

end InfixOp

end TinyScript
