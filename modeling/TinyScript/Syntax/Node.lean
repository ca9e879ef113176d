import TinyScript.Syntax.Tree

/-!
Expressions and statements as nodes of one tree, each with a label and children. Walks over a
tree keep the nodes still to visit in a list, so that a deep tree needs no deep recursion.
-/

namespace TinyScript

inductive Node where
  | expr (e : Expr)
  | stmt (s : Stmt)

/-- A node without its children. -/
inductive Label where
  | literal (value : Value)
  | group
  | unary (op : UnaryOp) (line : Nat)
  | binary (op : BinaryOp) (line : Nat)
  | logical (op : LogicalOp)
  | assign (target : Ident)
  | var (ident : Ident)
  | expression
  | print
  | declare (ident : Ident)
  | block (size : Nat)
  | ifThen
  | ifElse
  | while

/-- Literals are compared as values of the language, all else exactly. -/
def Label.same : Label → Label → Bool
  | literal a, literal b => a.same b
  | group, group => true
  | unary o m, unary p n => o == p && m == n
  | binary o m, binary p n => o == p && m == n
  | logical o, logical p => o == p
  | assign x, assign y => x == y
  | var x, var y => x == y
  | expression, expression => true
  | print, print => true
  | declare x, declare y => x == y
  | block m, block n => m == n
  | ifThen, ifThen => true
  | ifElse, ifElse => true
  | .while, .while => true
  | _, _ => false

namespace Node

def label : Node → Label
  | expr (.literal v) => .literal v
  | expr (.group _) => .group
  | expr (.unary op line _) => .unary op line
  | expr (.binary op line _ _) => .binary op line
  | expr (.logical op _ _) => .logical op
  | expr (.assign target _) => .assign target
  | expr (.var x) => .var x
  | stmt (.expression _) => .expression
  | stmt (.print _) => .print
  | stmt (.declare x _) => .declare x
  | stmt (.block body) => .block body.length
  | stmt (.ifThen _ _) => .ifThen
  | stmt (.ifElse _ _ _) => .ifElse
  | stmt (.while _ _) => .while

def children : Node → List Node
  | expr (.literal _) => []
  | expr (.group e) => [expr e]
  | expr (.unary _ _ e) => [expr e]
  | expr (.binary _ _ l r) => [expr l, expr r]
  | expr (.logical _ l r) => [expr l, expr r]
  | expr (.assign _ e) => [expr e]
  | expr (.var _) => []
  | stmt (.expression e) => [expr e]
  | stmt (.print e) => [expr e]
  | stmt (.declare _ e) => [expr e]
  | stmt (.block body) => body.map stmt
  | stmt (.ifThen c t) => [expr c, stmt t]
  | stmt (.ifElse c t f) => [expr c, stmt t, stmt f]
  | stmt (.while c b) => [expr c, stmt b]

/-- Measures the walks below. -/
noncomputable def size : Node → Nat
  | expr e => sizeOf e
  | stmt s => sizeOf s

noncomputable def sizes : List Node → Nat
  | [] => 0
  | n :: ns => n.size + sizes ns

theorem sizes_append (ms ns : List Node) : sizes (ms ++ ns) = sizes ms + sizes ns := by
  induction ms with
  | nil => simp [sizes]
  | cons m ms ih => simp only [List.cons_append, sizes, ih]; omega

theorem sizes_stmts_lt : ∀ ss : List Stmt, sizes (ss.map stmt) < sizeOf ss
  | [] => by simp [sizes]
  | s :: ss => by
    have := sizes_stmts_lt ss
    simp only [List.map_cons, sizes, size, List.cons.sizeOf_spec]
    omega

theorem sizes_children_lt (n : Node) : sizes n.children < n.size := by
  cases n with
  | expr e => cases e <;> simp +arith [children, sizes, size]
  | stmt s =>
    cases s with
    | block body =>
      have := sizes_stmts_lt body
      simp only [children, size, Stmt.block.sizeOf_spec]
      omega
    | _ => simp [children, sizes, size] <;> omega

/-- The labels of the nodes at the given depths and of all that is below them, a node before its
children, put in front of `seen`, the last one first. -/
def outlineFrom (seen : List (Nat × Label)) : List (Nat × Node) → List (Nat × Label)
  | [] => seen
  | (depth, n) :: rest =>
    outlineFrom ((depth, n.label) :: seen) (n.children.map (depth + 1, ·) ++ rest)
termination_by work => sizes (work.map (·.2))
decreasing_by
  have h : (n.children.map (depth + 1, ·) ++ rest).map (·.2) = n.children ++ rest.map (·.2) := by
    simp [Function.comp_def]
  rw [h, sizes_append, List.map_cons, sizes]
  dsimp only
  have := sizes_children_lt n
  omega

theorem sizes_zip_le : ∀ ms ns : List Node, sizes ((ms.zip ns).map (·.1)) ≤ sizes ms
  | [], _ => by simp [sizes]
  | _ :: _, [] => by simp [sizes]
  | m :: ms, n :: ns => by
    have := sizes_zip_le ms ns
    rw [List.zip_cons_cons, List.map_cons, sizes, sizes]
    dsimp only
    omega

/-- Whether the two trees of every pair are equal. -/
def allSame : List (Node × Node) → Bool
  | [] => true
  | (a, b) :: rest =>
    if a.label.same b.label then allSame (a.children.zip b.children ++ rest) else false
termination_by work => sizes (work.map (·.1))
decreasing_by
  rw [List.map_append, sizes_append, List.map_cons, sizes]
  dsimp only
  have := sizes_children_lt a
  have := sizes_zip_le a.children b.children
  omega

end Node

namespace Program

/-- The nodes of a program in order, a node before its children, with their depths. -/
def outline (program : List Stmt) : List (Nat × Label) :=
  (Node.outlineFrom [] (program.map fun s => (0, .stmt s))).reverse

/-- Equality of programs: the same trees with the same recorded lines. -/
def same (a b : List Stmt) : Bool :=
  a.length == b.length && Node.allSame ((a.zip b).map fun p => (.stmt p.1, .stmt p.2))

end Program

end TinyScript
