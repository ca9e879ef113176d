import TinyScript.Syntax.Error
import TinyScript.Syntax.Pending

/-!
The stages of reading a program, and how one token leads from a stage to the next. A stage says
what may come now and holds the statements and expressions that have been begun, so reading needs
one step for each token and no recursion into the nesting of the program.
-/

namespace TinyScript

/-- What an expression is read for. -/
inductive Purpose where
  | print
  | initial (ident : Ident)
  | discard
  | ifTest
  | whileTest
  | forTest (init : Option Stmt)
  | forStep (init : Option Stmt) (test : Expr)

/-- A statement that has been begun and holds the one being read. -/
inductive Enclosing where
  /-- The statements read so far, the last one first. -/
  | block (before : List Stmt)
  | thenBranch (test : Expr)
  | elseBranch (test : Expr) (yes : Stmt)
  | whileBody (test : Expr)
  /-- The statement is the initializer of a loop. -/
  | forInit
  | forBody (init : Option Stmt) (test : Expr) (step : Option Expr)

/-- What may come next. -/
inductive Mode where
  | statement
  /-- An operand has to come. -/
  | operand (pending : List Pending) (purpose : Purpose)
  /-- An operand has been read; an operator or the end of the expression comes. -/
  | operator (e : Expr) (pending : List Pending) (purpose : Purpose)
  | ifParen
  | whileParen
  | forParen
  | forInit
  | forTest (init : Option Stmt)
  | forStep (init : Option Stmt) (test : Expr)
  | varName
  | varEqual (ident : Ident)

inductive Stage where
  | inside (mode : Mode) (enclosing : List Enclosing)
  /-- A statement is complete, but an `else` may still follow. -/
  | finished (s : Stmt) (enclosing : List Enclosing)

namespace Purpose

/-- The token that has to follow the expression, and how a message names the place. -/
def terminator : Purpose → TokenKind × String
  | print => (.semicolon, "after value")
  | initial _ => (.semicolon, "after variable declaration")
  | discard => (.semicolon, "after expression")
  | ifTest => (.rightParen, "after if condition")
  | whileTest => (.rightParen, "after while condition")
  | forTest _ => (.semicolon, "after loop condition")
  | forStep _ _ => (.rightParen, "after for clauses")

/-- The stage after the expression and its terminator. -/
def fulfil (e : Expr) (enclosing : List Enclosing) : Purpose → Stage
  | print => .finished (.print e) enclosing
  | initial x => .finished (.declare x e) enclosing
  | discard => .finished (.expression e) enclosing
  | ifTest => .inside .statement (.thenBranch e :: enclosing)
  | whileTest => .inside .statement (.whileBody e :: enclosing)
  | forTest init => .inside (.forStep init e) enclosing
  | forStep init test => .inside .statement (.forBody init test (some e) :: enclosing)

end Purpose

namespace Stage

/-- The stage before the first token. -/
def start : Stage := inside .statement []

abbrev Next := Except SyntaxFault Stage

def expect (t : Token) (kind : TokenKind) (context : String) (next : Stage) : Next :=
  if t.kind = kind then .ok next else .error (.expectedToken kind context)

/-- The expression that a token is by itself. -/
def leaf? (t : Token) : Option Expr :=
  match t.kind with
  | .number | .string => some (.literal ((t.literal.map Literal.toValue).getD .null))
  | .kwTrue => some (.literal (.boolean true))
  | .kwFalse => some (.literal (.boolean false))
  | .kwNull => some (.literal .null)
  | .identifier => some (.var ⟨t.lexeme, t.line⟩)
  | _ => none

def operand (pending : List Pending) (purpose : Purpose) (enclosing : List Enclosing)
    (t : Token) : Next :=
  match UnaryOp.ofToken? t.kind with
  | some op => .ok (inside (.operand (.unary op t.line :: pending) purpose) enclosing)
  | none =>
    if t.kind = .leftParen then .ok (inside (.operand (.group :: pending) purpose) enclosing)
    else match leaf? t with
      | some e => .ok (inside (.operator e pending purpose) enclosing)
      | none => .error .expectedExpression

/-- The expression ends here, or a parenthesis in it does. -/
def ending (e : Expr) (pending : List Pending) (purpose : Purpose) (enclosing : List Enclosing)
    (t : Token) : Next :=
  match Pending.close .assignment e pending with
  | (e, p :: pending) =>
    expect t .rightParen "after expression"
      (inside (.operator (p.complete e) pending purpose) enclosing)
  | (e, []) =>
    let (kind, context) := purpose.terminator
    expect t kind context (purpose.fulfil e enclosing)

/-- An equals sign has come. The value of an assignment is no assignment itself. -/
def equals (e : Expr) (pending : List Pending) (purpose : Purpose) (enclosing : List Enclosing)
    (t : Token) : Next :=
  match Pending.close .disjunction e pending with
  | (_, .assign _ :: _) => ending e pending purpose enclosing t
  | (target, pending) =>
    match target.asVariable? with
    | some x => .ok (inside (.operand (.assign x :: pending) purpose) enclosing)
    | none => .error .invalidTarget

def operator (e : Expr) (pending : List Pending) (purpose : Purpose) (enclosing : List Enclosing)
    (t : Token) : Next :=
  match InfixOp.ofToken? t.kind with
  | some op =>
    let (left, pending) := Pending.close op.leftLevel e pending
    .ok (inside (.operand (.ofInfix op t.line left :: pending) purpose) enclosing)
  | none =>
    if t.kind = .equal then equals e pending purpose enclosing t
    else ending e pending purpose enclosing t

/-- A statement starts, or a block ends. -/
def statement (enclosing : List Enclosing) (t : Token) : Next :=
  match t.kind, enclosing with
  | .kwPrint, _ => .ok (inside (.operand [] .print) enclosing)
  | .kwVar, _ => .ok (inside .varName enclosing)
  | .leftBrace, _ => .ok (inside .statement (.block [] :: enclosing))
  | .kwIf, _ => .ok (inside .ifParen enclosing)
  | .kwWhile, _ => .ok (inside .whileParen enclosing)
  | .kwFor, _ => .ok (inside .forParen enclosing)
  | .rightBrace, .block before :: outer => .ok (finished (.block before.reverse) outer)
  | .eof, .block _ :: _ => .error (.expectedToken .rightBrace "after block")
  | _, _ => operand [] .discard enclosing t

def step (mode : Mode) (enclosing : List Enclosing) (t : Token) : Next :=
  match mode with
  | .statement => statement enclosing t
  | .operand pending purpose => operand pending purpose enclosing t
  | .operator e pending purpose => operator e pending purpose enclosing t
  | .ifParen => expect t .leftParen "after `if`" (inside (.operand [] .ifTest) enclosing)
  | .whileParen => expect t .leftParen "after `while`" (inside (.operand [] .whileTest) enclosing)
  | .forParen => expect t .leftParen "after `for`" (inside .forInit enclosing)
  | .forInit =>
    match t.kind with
    | .semicolon => .ok (inside (.forTest none) enclosing)
    | .kwVar => .ok (inside .varName (.forInit :: enclosing))
    | _ => operand [] .discard (.forInit :: enclosing) t
  | .forTest init =>
    if t.kind = .semicolon then .ok (inside (.forStep init (.literal (.boolean true))) enclosing)
    else operand [] (.forTest init) enclosing t
  | .forStep init test =>
    if t.kind = .rightParen then .ok (inside .statement (.forBody init test none :: enclosing))
    else operand [] (.forStep init test) enclosing t
  | .varName => expect t .identifier "after `var`" (inside (.varEqual ⟨t.lexeme, t.line⟩) enclosing)
  | .varEqual x => expect t .equal "after variable name" (inside (.operand [] (.initial x)) enclosing)

/-- Where a complete statement leads when `next` is the kind of the token that follows. -/
inductive Settled where
  /-- The statement stands by itself in the program. -/
  | outermost (s : Stmt)
  /-- Reading goes on inside an enclosing statement. -/
  | within (mode : Mode) (enclosing : List Enclosing)
  /-- The token is the `else` of an enclosing statement. -/
  | atElse (test : Expr) (yes : Stmt) (enclosing : List Enclosing)

def settle (next : TokenKind) (s : Stmt) : List Enclosing → Settled
  | [] => .outermost s
  | .block before :: outer => .within .statement (.block (s :: before) :: outer)
  | .thenBranch test :: outer =>
    if next = .kwElse then .atElse test s outer else settle next (.ifThen test s) outer
  | .elseBranch test yes :: outer => settle next (.ifElse test yes s) outer
  | .whileBody test :: outer => settle next (.while test s) outer
  | .forInit :: outer => .within (.forTest (some s)) outer
  | .forBody init test step :: outer => settle next (.counting init test step s) outer

end Stage

end TinyScript
