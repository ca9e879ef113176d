import TinyScript.Value

/-!
The variables of a running program: one global scope, and in lexical mode a scope for each open
block. A name means its innermost binding.
-/

namespace TinyScript

inductive ScopeMode where
  /-- Blocks share the global scope. -/
  | flat
  /-- Each block has a scope of its own. -/
  | lexical
deriving DecidableEq, Repr

def ScopeMode.ofText? : String → Option ScopeMode
  | "flat" => some flat
  | "lexical" => some lexical
  | _ => none

abbrev Scope := List (String × Value)

namespace Scope

def find? (s : Scope) (name : String) : Option Value := s.lookup name

def binds (s : Scope) (name : String) : Bool := (s.find? name).isSome

/-- Binds the name, in place of a binding that is there. -/
def insert (s : Scope) (name : String) (v : Value) : Scope :=
  if s.binds name then s.map fun b => if b.1 == name then (name, v) else b
  else (name, v) :: s

end Scope

/-- `inner` holds the scopes of the open blocks, the innermost one first. -/
structure Environment where
  mode : ScopeMode
  inner : List Scope
  global : Scope

namespace Environment

def new (mode : ScopeMode) : Environment := ⟨mode, [], []⟩

def depth (env : Environment) : Nat := env.inner.length + 1

def push (env : Environment) : Environment :=
  match env.mode with
  | .flat => env
  | .lexical => { env with inner := [] :: env.inner }

/-- The global scope stays. -/
def pop (env : Environment) : Environment := { env with inner := env.inner.tail }

/-- Binds the name in the innermost scope. -/
def define (env : Environment) (name : String) (v : Value) : Environment :=
  match env.inner with
  | [] => { env with global := env.global.insert name v }
  | s :: rest => { env with inner := s.insert name v :: rest }

def lookup (env : Environment) (name : String) : Option Value :=
  (env.inner.findSome? (·.find? name)).or (env.global.find? name)

def contains (env : Environment) (name : String) : Bool := (env.lookup name).isSome

/-- Changes the innermost binding of the name, if there is one. -/
def assign (env : Environment) (name : String) (v : Value) : Option Environment :=
  match env.inner.findIdx? (·.binds name) with
  | some i => some { env with inner := env.inner.modify i (·.insert name v) }
  | none =>
    if env.global.binds name then some { env with global := env.global.insert name v } else none

end Environment

end TinyScript
