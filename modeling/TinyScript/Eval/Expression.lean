import TinyScript.Environment
import TinyScript.Eval.Operator
import TinyScript.Syntax.Tree

/-!
The value of an expression. `Expr.eval` says what it is, by recursion on the expression.
`Expr.evaluate` finds it with the operations under way in a list of frames, so that the depth of
the expression does not matter. `Expr.evaluate_eq_eval`: both are the same.
-/

namespace TinyScript

/-- What evaluation gives: assignments change the environment, also before an error. -/
abbrev Evaluated := Environment × Except RuntimeError Value

/-- The result of an operation on the given line. -/
def Evaluated.ofOperation (env : Environment) (line : Nat) (r : Except RuntimeFault Value) :
    Evaluated :=
  match r with
  | .ok v => (env, .ok v)
  | .error fault => (env, .error ⟨fault, line⟩)

namespace Environment

def read (env : Environment) (x : Ident) : Evaluated :=
  match env.lookup x.name with
  | some v => (env, .ok v)
  | none => (env, .error ⟨.undefinedVariable x.name, x.line⟩)

/-- An assignment has the value assigned. -/
def store (env : Environment) (x : Ident) (v : Value) : Evaluated :=
  match env.assign x.name v with
  | some env => (env, .ok v)
  | none => (env, .error ⟨.undeclaredAssignment x.name, x.line⟩)

end Environment

namespace Expr

def eval [Binary64.NaNChoice] (env : Environment) : Expr → Evaluated
  | literal v => (env, .ok v)
  | group e => e.eval env
  | unary op line e =>
    match e.eval env with
    | (env, .ok v) => .ofOperation env line (op.apply v)
    | (env, .error x) => (env, .error x)
  | binary op line l r =>
    match l.eval env with
    | (env, .ok a) =>
      match r.eval env with
      | (env, .ok b) => .ofOperation env line (op.apply a b)
      | (env, .error x) => (env, .error x)
    | (env, .error x) => (env, .error x)
  | logical op l r =>
    match l.eval env with
    | (env, .ok a) => if op.decides a then (env, .ok a) else r.eval env
    | (env, .error x) => (env, .error x)
  | assign x e =>
    match e.eval env with
    | (env, .ok v) => env.store x v
    | (env, .error y) => (env, .error y)
  | var x => env.read x

end Expr

/-- An operation under way, which waits for the value of an operand. -/
inductive Frame where
  | unary (op : UnaryOp) (line : Nat)
  | left (op : BinaryOp) (line : Nat) (right : Expr)
  | right (a : Value) (op : BinaryOp) (line : Nat)
  | logical (op : LogicalOp) (right : Expr)
  | assign (x : Ident)

/-- What evaluation is about to do: take an expression apart, or hand a result on. -/
inductive Control where
  | expr (e : Expr)
  | result (r : Except RuntimeError Value)

namespace Frame

/-- What a frame does with the value it waits for. -/
def resume [Binary64.NaNChoice] (env : Environment) (v : Value) :
    Frame → Environment × Control × List Frame
  | unary op line => done (.ofOperation env line (op.apply v))
  | left op line r => (env, .expr r, [right v op line])
  | right a op line => done (.ofOperation env line (op.apply a v))
  | logical op r => if op.decides v then (env, .result (.ok v), []) else (env, .expr r, [])
  | assign x => done (env.store x v)
where
  done (r : Evaluated) : Environment × Control × List Frame := (r.1, .result r.2, [])

/-- What evaluation of an expression starts with. -/
def enter (env : Environment) : Expr → Environment × Control × List Frame
  | .literal v => (env, .result (.ok v), [])
  | .group e => (env, .expr e, [])
  | .unary op line e => (env, .expr e, [unary op line])
  | .binary op line l r => (env, .expr l, [left op line r])
  | .logical op l r => (env, .expr l, [logical op r])
  | .assign x e => (env, .expr e, [assign x])
  | .var x =>
    let r := env.read x
    (r.1, .result r.2, [])

noncomputable def weight : Frame → Nat
  | unary _ _ => 1
  | left _ _ r => 3 * sizeOf r + 2
  | right _ _ _ => 1
  | logical _ r => 3 * sizeOf r + 1
  | assign _ => 1

noncomputable def weights : List Frame → Nat
  | [] => 0
  | f :: k => f.weight + weights k

theorem weights_append (j k : List Frame) : weights (j ++ k) = weights j + weights k := by
  induction j with
  | nil => simp [weights]
  | cons f j ih => simp only [List.cons_append, weights, ih]; omega

end Frame

noncomputable def Control.weight : Control → Nat
  | expr e => 3 * sizeOf e
  | result _ => 0

namespace Frame

theorem weight_enter_lt (env : Environment) (e : Expr) :
    (enter env e).2.1.weight + weights (enter env e).2.2 < (Control.expr e).weight := by
  cases e <;> simp [enter, Control.weight, weights, weight] <;> omega

theorem weight_resume_lt [Binary64.NaNChoice] (env : Environment) (v : Value) (f : Frame) :
    (f.resume env v).2.1.weight + weights (f.resume env v).2.2 < f.weight := by
  cases f with
  | logical op r =>
    simp only [resume]
    split <;> simp [Control.weight, weights, weight]
  | _ => simp [resume, resume.done, Control.weight, weights, weight]

end Frame

namespace Expr

variable [Binary64.NaNChoice]

/-- Goes on until no frame is left. An error passes all frames by. -/
def evaluateFrom (env : Environment) (c : Control) (k : List Frame) : Evaluated :=
  match c, k with
  | .expr e, k =>
    let next := Frame.enter env e
    evaluateFrom next.1 next.2.1 (next.2.2 ++ k)
  | .result (.ok v), f :: k =>
    let next := f.resume env v
    evaluateFrom next.1 next.2.1 (next.2.2 ++ k)
  | .result r, _ => (env, r)
termination_by c.weight + Frame.weights k
decreasing_by
  · have := Frame.weight_enter_lt env e
    rw [Frame.weights_append]
    omega
  · have := Frame.weight_resume_lt env v f
    rw [Frame.weights_append, Frame.weights]
    have : (Control.result (.ok v)).weight = 0 := rfl
    omega

def evaluate (env : Environment) (e : Expr) : Evaluated := evaluateFrom env (.expr e) []

theorem evaluateFrom_error (env : Environment) (x : RuntimeError) (k : List Frame) :
    evaluateFrom env (.result (.error x)) k = (env, .error x) := by
  rw [evaluateFrom]
  simp

/-- The frames below an expression wait for its value. -/
theorem evaluateFrom_expr (e : Expr) (env : Environment) (k : List Frame) :
    evaluateFrom env (.expr e) k = evaluateFrom (e.eval env).1 (.result (e.eval env).2) k := by
  induction e generalizing env k with
  | literal v => rw [evaluateFrom]; rfl
  | group e ih => rw [evaluateFrom]; exact ih env k
  | unary op line e ih =>
    rw [evaluateFrom, Frame.enter, List.singleton_append, ih, eval]
    rcases e.eval env with ⟨env, _ | v⟩
    · simp [evaluateFrom_error]
    · rw [evaluateFrom]; rfl
  | binary op line l r ihl ihr =>
    rw [evaluateFrom, Frame.enter, List.singleton_append, ihl, eval]
    rcases l.eval env with ⟨env, _ | a⟩
    · simp [evaluateFrom_error]
    · rw [evaluateFrom, Frame.resume, List.singleton_append, ihr]
      dsimp only
      rcases r.eval env with ⟨env, _ | b⟩
      · simp [evaluateFrom_error]
      · rw [evaluateFrom]; rfl
  | logical op l r ihl ihr =>
    rw [evaluateFrom, Frame.enter, List.singleton_append, ihl, eval]
    rcases l.eval env with ⟨env, _ | a⟩
    · simp [evaluateFrom_error]
    · rw [evaluateFrom, Frame.resume]
      by_cases h : op.decides a
      · simp [h]
      · simp [h, ihr]
  | assign x e ih =>
    rw [evaluateFrom, Frame.enter, List.singleton_append, ih, eval]
    rcases e.eval env with ⟨env, _ | v⟩
    · simp [evaluateFrom_error]
    · rw [evaluateFrom]; rfl
  | var x => rw [evaluateFrom]; rfl

theorem evaluate_eq_eval (env : Environment) (e : Expr) : e.evaluate env = e.eval env := by
  rw [evaluate, evaluateFrom_expr]
  rcases e.eval env with ⟨env, _ | v⟩
  · exact evaluateFrom_error _ _ _
  · rw [evaluateFrom]
    simp

end Expr

end TinyScript
