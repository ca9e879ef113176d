import TinyScript.Syntax.Node

/-!
Trees as parenthesised text, the operator first: `1 + 2 * 3` is `(+ 1 (* 2 3))`.
-/

namespace TinyScript

/-- What is still to be written: text, or a node that has not been taken apart yet. -/
inductive Fragment where
  | text (s : String)
  | node (n : Node)

namespace Fragment

def expr (e : Expr) : Fragment := node (.expr e)

def stmt (s : Stmt) : Fragment := node (.stmt s)

/-- Texts are quoted, so that `"1"` and `1` differ. -/
def literal : Value → String
  | .text s => "\"" ++ s ++ "\""
  | v => v.display

/-- The text of a node down to its children. -/
def ofNode : Node → List Fragment
  | .expr (.literal v) => [text (literal v)]
  | .expr (.group e) => [text "(group ", expr e, text ")"]
  | .expr (.unary op _ e) => [text ("(" ++ op.symbol ++ " "), expr e, text ")"]
  | .expr (.binary op _ l r) =>
    [text ("(" ++ op.symbol ++ " "), expr l, text " ", expr r, text ")"]
  | .expr (.logical op l r) =>
    [text ("(" ++ op.symbol ++ " "), expr l, text " ", expr r, text ")"]
  | .expr (.assign x e) => [text ("(= " ++ x.name ++ " "), expr e, text ")"]
  | .expr (.var x) => [text x.name]
  | .stmt (.expression e) => [expr e]
  | .stmt (.print e) => [text "(print ", expr e, text ")"]
  | .stmt (.declare x e) => [text ("(var " ++ x.name ++ " "), expr e, text ")"]
  | .stmt (.block body) =>
    text "(block" :: body.flatMap (fun s => [text " ", stmt s]) ++ [text ")"]
  | .stmt (.ifThen c t) => [text "(if ", expr c, text " ", stmt t, text ")"]
  | .stmt (.ifElse c t f) =>
    [text "(if ", expr c, text " ", stmt t, text " ", stmt f, text ")"]
  | .stmt (.while c b) => [text "(while ", expr c, text " ", stmt b, text ")"]

def node? : Fragment → Option Node
  | node n => some n
  | text _ => none

/-- The nodes among the fragments. -/
def nodes (work : List Fragment) : List Node := work.filterMap node?

theorem nodes_append (v w : List Fragment) : nodes (v ++ w) = nodes v ++ nodes w :=
  List.filterMap_append

theorem nodes_body : ∀ ss : List Stmt,
    nodes (ss.flatMap fun s => [text " ", stmt s]) = ss.map .stmt
  | [] => rfl
  | s :: ss => by
    rw [List.flatMap_cons, nodes_append, nodes_body ss]
    rfl

/-- Writing a node leaves its children to write. -/
theorem nodes_ofNode (n : Node) : nodes (ofNode n) = n.children := by
  cases n with
  | expr e => cases e <;> rfl
  | stmt s =>
    cases s with
    | block body =>
      rw [ofNode, List.cons_append, ← List.singleton_append, nodes_append, nodes_append, nodes_body]
      exact List.append_nil _
    | _ => rfl

/-- Writes the fragments in order behind `out`. -/
def write (out : String) : List Fragment → String
  | [] => out
  | text s :: rest => write (out ++ s) rest
  | node n :: rest => write out (ofNode n ++ rest)
termination_by work => (Node.sizes (nodes work), work.length)
decreasing_by
  · exact Prod.Lex.right _ (Nat.lt_succ_self _)
  · refine Prod.Lex.left _ _ ?_
    rw [nodes_append, nodes_ofNode, Node.sizes_append]
    change _ < Node.sizes (n :: nodes rest)
    rw [Node.sizes]
    have := Node.sizes_children_lt n
    omega

end Fragment

def Expr.display (e : Expr) : String := Fragment.write "" [.expr e]

def Stmt.display (s : Stmt) : String := Fragment.write "" [.stmt s]

/-- One line for each statement. -/
def Program.display (program : List Stmt) : String :=
  Fragment.write "" (program.flatMap fun s => [.stmt s, .text "\n"])

end TinyScript
