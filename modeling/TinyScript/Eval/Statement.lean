import TinyScript.Eval.Expression
import TinyScript.Eval.Sink

/-!
Running statements. What is left to do stands in a list of tasks, so that the depth of a program
does not matter. A loop may go on for ever: a run is given the number of rounds that its loops
may make together, and has no result if they are not enough.
-/

namespace TinyScript

/-- The variables and the printed text, all that a program changes. -/
structure Machine where
  env : Environment
  sink : Sink

inductive Task where
  | statements (ss : List Stmt)
  | loop (test : Expr) (body : Stmt)
  /-- The end of a block. -/
  | leave

namespace Task

noncomputable def weight : Task → Nat
  | statements ss => 2 * sizeOf ss + 1
  | loop test body => 2 * (sizeOf test + sizeOf body) + 1
  | leave => 1

noncomputable def weights : List Task → Nat
  | [] => 0
  | t :: k => t.weight + weights k

/-- An error closes the scopes of all blocks that are open. -/
def unwind (env : Environment) : List Task → Environment
  | [] => env
  | leave :: k => unwind env.pop k
  | _ :: k => unwind env k

end Task

namespace Machine

variable [Binary64.NaNChoice]

/-- `none` stands for success. -/
abbrev Finished := Machine × Option RuntimeError

def fail (m : Machine) (x : RuntimeError) (k : List Task) : Finished :=
  ({ m with env := Task.unwind m.env k }, some x)

/-- Evaluates an expression. -/
def evaluate (m : Machine) (e : Expr) : Machine × Except RuntimeError Value :=
  let r := e.evaluate m.env
  ({ m with env := r.1 }, r.2)

def execute (rounds : Nat) (m : Machine) : List Task → Option Finished
  | [] => some (m, none)
  | .leave :: k => execute rounds { m with env := m.env.pop } k
  | .statements [] :: k => execute rounds m k
  | .statements (.expression e :: ss) :: k =>
    match m.evaluate e with
    | (m, .ok _) => execute rounds m (.statements ss :: k)
    | (m, .error x) => some (m.fail x k)
  | .statements (.print e :: ss) :: k =>
    match m.evaluate e with
    | (m, .ok v) =>
      execute rounds { m with sink := m.sink.printLine v.display } (.statements ss :: k)
    | (m, .error x) => some (m.fail x k)
  | .statements (.declare y e :: ss) :: k =>
    match m.evaluate e with
    | (m, .ok v) => execute rounds { m with env := m.env.define y.name v } (.statements ss :: k)
    | (m, .error x) => some (m.fail x k)
  | .statements (.block body :: ss) :: k =>
    execute rounds { m with env := m.env.push } (.statements body :: .leave :: .statements ss :: k)
  | .statements (.ifThen test yes :: ss) :: k =>
    match m.evaluate test with
    | (m, .ok v) =>
      if v.truthy then execute rounds m (.statements (yes :: ss) :: k)
      else execute rounds m (.statements ss :: k)
    | (m, .error x) => some (m.fail x k)
  | .statements (.ifElse test yes no :: ss) :: k =>
    match m.evaluate test with
    | (m, .ok v) =>
      if v.truthy then execute rounds m (.statements (yes :: ss) :: k)
      else execute rounds m (.statements (no :: ss) :: k)
    | (m, .error x) => some (m.fail x k)
  | .statements (.while test body :: ss) :: k =>
    execute rounds m (.loop test body :: .statements ss :: k)
  | .loop test body :: k =>
    match m.evaluate test with
    | (m, .ok v) =>
      if v.truthy then
        match rounds with
        | 0 => none
        | rounds + 1 => execute rounds m (.statements [body] :: .loop test body :: k)
      else execute rounds m k
    | (m, .error x) => some (m.fail x k)
termination_by k => (rounds, Task.weights k)
decreasing_by
  all_goals first
    | exact Prod.Lex.left _ _ (Nat.lt_succ_self _)
    | refine Prod.Lex.right _ ?_
      simp only [Task.weights, Task.weight, List.cons.sizeOf_spec,
        List.nil.sizeOf_spec, Stmt.expression.sizeOf_spec, Stmt.print.sizeOf_spec,
        Stmt.declare.sizeOf_spec, Stmt.block.sizeOf_spec, Stmt.ifThen.sizeOf_spec,
        Stmt.ifElse.sizeOf_spec, Stmt.while.sizeOf_spec]
      omega

/-- Runs a program. -/
def run (rounds : Nat) (m : Machine) (program : List Stmt) : Option Finished :=
  m.execute rounds [.statements program]

end Machine

end TinyScript
