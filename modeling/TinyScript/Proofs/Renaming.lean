import Mathlib
import TinyScript.Proofs.Likeness

/-!
A run does not see how its variables are called. With other names for them, distinct for distinct
variables, it does the same to the renamed scopes.
-/

namespace TinyScript

section Rename

variable (f : String → String)

def Ident.rename (x : Ident) : Ident := ⟨f x.name, x.line⟩

def Expr.rename : Expr → Expr
  | literal v => literal v
  | group e => group e.rename
  | unary op line e => unary op line e.rename
  | binary op line l r => binary op line l.rename r.rename
  | logical op l r => logical op l.rename r.rename
  | assign x e => assign (x.rename f) e.rename
  | var x => var (x.rename f)

mutual

def Stmt.rename : Stmt → Stmt
  | .expression e => .expression (e.rename f)
  | .print e => .print (e.rename f)
  | .declare x e => .declare (x.rename f) (e.rename f)
  | .block body => .block (renameIn body)
  | .ifThen test yes => .ifThen (test.rename f) yes.rename
  | .ifElse test yes no => .ifElse (test.rename f) yes.rename no.rename
  | .while test body => .while (test.rename f) body.rename

def renameIn : List Stmt → List Stmt
  | [] => []
  | s :: ss => s.rename :: renameIn ss

end

def Scope.rename (s : Scope) : Scope := s.map fun b => (f b.1, b.2)

def Environment.rename (env : Environment) : Environment :=
  ⟨env.mode, env.inner.map (Scope.rename f), env.global.rename f⟩

/-- What has been printed stays. -/
def Machine.rename (m : Machine) : Machine := ⟨m.env.rename f, m.sink⟩

/-- An error about a variable names that variable. -/
def RuntimeFault.rename : RuntimeFault → RuntimeFault
  | addOperands => addOperands
  | numberOperands => numberOperands
  | numberOperand => numberOperand
  | undefinedVariable name => undefinedVariable (f name)
  | undeclaredAssignment name => undeclaredAssignment (f name)

def RuntimeError.rename (x : RuntimeError) : RuntimeError := ⟨x.fault.rename f, x.line⟩

/-- Each name is alike to its new one. -/
def renamed : Likeness := ⟨fun a b => b = f a, Eq, fun s t => t = s.rename f⟩

theorem renamed_ident (x : Ident) : (renamed f).Ident x (x.rename f) := ⟨rfl, rfl⟩

theorem Expr.alike_rename (e : Expr) : e.Alike (renamed f) (e.rename f) := by
  induction e with
  | literal v => exact .literal rfl
  | group _ ih => exact .group ih
  | unary op line _ ih => exact .unary op line ih
  | binary op line _ _ ihl ihr => exact .binary op line ihl ihr
  | logical op _ _ ihl ihr => exact .logical op ihl ihr
  | assign x _ ih => exact .assign (renamed_ident f x) ih
  | var x => exact .var (renamed_ident f x)

mutual

theorem Stmt.alike_rename : ∀ s : Stmt, s.Alike (renamed f) (s.rename f)
  | .expression e => .expression (e.alike_rename f)
  | .print e => .print (e.alike_rename f)
  | .declare x e => .declare (renamed_ident f x) (e.alike_rename f)
  | .block body => .block (alikeIn_rename body)
  | .ifThen test yes => .ifThen (test.alike_rename f) yes.alike_rename
  | .ifElse test yes no => .ifElse (test.alike_rename f) yes.alike_rename no.alike_rename
  | .while test body => .while (test.alike_rename f) body.alike_rename

theorem alikeIn_rename : ∀ ss : List Stmt,
    List.Forall₂ (Stmt.Alike (renamed f)) ss (renameIn f ss)
  | [] => .nil
  | s :: ss => .cons s.alike_rename (alikeIn_rename ss)

end

end Rename

section Runs

variable {f : String → String}

theorem Scope.find?_rename (hf : Function.Injective f) (s : Scope) (x : String) :
    (s.rename f).find? (f x) = s.find? x := by
  induction s with
  | nil => rfl
  | cons b s ih =>
    change find? ((f b.1, b.2) :: rename f s) (f x) = find? (b :: s) x
    rw [find?_cons, find?_cons, ih]
    simp only [hf.eq_iff]

theorem Scope.rename_insert (hf : Function.Injective f) (s : Scope) (x : String) (v : Value) :
    (s.insert x v).rename f = (s.rename f).insert (f x) v := by
  have hbinds : (s.rename f).binds (f x) = s.binds x :=
    congrArg Option.isSome (s.find?_rename hf x)
  rw [insert, insert, hbinds]
  split
  · rw [rename, rename, List.map_map, List.map_map]
    -- distinct names stay distinct, so the same binding is replaced
    refine List.map_congr_left fun b _ => ?_
    have hname : (f b.1 == f x) = (b.1 == x) := by simp only [beq_eq_decide, hf.eq_iff]
    simp only [Function.comp_apply, hname]
    split <;> rfl
  · rfl

theorem renamed_lawful (hf : Function.Injective f) : (renamed f).Lawful := by
  refine Likeness.lawful_of_eq rfl ?_ ?_
  · rintro s _ rfl x _ rfl
    exact (s.find?_rename hf x).symm
  · rintro s _ rfl x _ rfl v
    exact (s.rename_insert hf x v).symm

/-- Only the renamed environment is alike to an environment. -/
theorem Environment.corresponds_rename_iff {env env' : Environment} :
    env.Corresponds (renamed f).scope env' ↔ env' = env.rename f := by
  constructor
  · rintro ⟨hmode, hinner, hglobal⟩
    obtain ⟨mode', inner', global'⟩ := env'
    have hscopes : inner' = env.inner.map (Scope.rename f) := by
      rw [← List.forall₂_eq_eq_eq, List.forall₂_map_right_iff]
      exact hinner.flip
    have hscope : global' = env.global.rename f := hglobal
    rw [rename, hmode, ← hscopes, ← hscope]
  · rintro rfl
    refine ⟨rfl, ?_, rfl⟩
    rw [rename, List.forall₂_map_right_iff]
    exact List.forall₂_same.2 fun s _ => rfl

theorem Machine.alike_rename_iff {m n : Machine} :
    (renamed f).Machine m n ↔ n = m.rename f := by
  constructor
  · rintro ⟨henv, hsink⟩
    obtain ⟨env', sink'⟩ := n
    rw [rename, ← Environment.corresponds_rename_iff.1 henv, hsink]
  · rintro rfl
    exact ⟨Environment.corresponds_rename_iff.2 rfl, rfl⟩

theorem RuntimeError.eq_rename {x y : RuntimeError} (h : (renamed f).Error x y) :
    y = x.rename f := by
  obtain ⟨fault, line⟩ := x
  obtain ⟨fault', line'⟩ := y
  obtain ⟨hfault, rfl⟩ := h
  cases hfault with
  | addOperands | numberOperands | numberOperand => rfl
  | undefinedVariable h | undeclaredAssignment h => rw [h]; rfl

theorem eq_map_rename {x y : Option RuntimeError} (h : Option.Rel (renamed f).Error x y) :
    y = x.map (.rename f) := by
  cases h with
  | some h => rw [RuntimeError.eq_rename h]; rfl
  | none => rfl

end Runs

/-- Under other names for its variables, distinct ones for distinct variables, a program comes to
an end just when it did before: with the same text printed, with the same error up to the name in
it, and with the renamed scopes. -/
theorem renamed_run_iff {f : String → String} (hf : Function.Injective f) (m : Machine)
    (program : List Stmt) (n : Machine) (y : Option RuntimeError) :
    (m.rename f).Ends (renameIn f program) n y ↔
      ∃ m' x, m.Ends program m' x ∧ n = m'.rename f ∧ y = x.map (.rename f) := by
  have hprogram := alikeIn_rename f program
  have hstart : (renamed f).Machine m (m.rename f) := Machine.alike_rename_iff.2 rfl
  obtain ⟨hends, halike⟩ := (renamed_lawful hf).runs hprogram hstart
  constructor
  · intro hn
    obtain ⟨m', x, hm⟩ := hends.2 ⟨n, y, hn⟩
    obtain ⟨hmachine, herror⟩ := halike m' x n y hm hn
    exact ⟨m', x, hm, Machine.alike_rename_iff.1 hmachine, eq_map_rename herror⟩
  · rintro ⟨m', x, hm, rfl, rfl⟩
    obtain ⟨n, y, hn⟩ := hends.1 ⟨m', x, hm⟩
    obtain ⟨hmachine, herror⟩ := halike m' x n y hm hn
    rwa [← Machine.alike_rename_iff.1 hmachine, ← eq_map_rename herror]

/-- `a = b; { var b = a; print b; c = b; }` fails at the assignment, whatever its names are. -/
theorem underscored_run :
    let f : String → String := (· ++ "_")
    let program (a b c : String) : List Stmt := [.expression (.assign ⟨a, 1⟩ (.var ⟨b, 1⟩)),
      .block [.declare ⟨b, 1⟩ (.var ⟨a, 1⟩), .print (.var ⟨b, 1⟩),
        .expression (.assign ⟨c, 2⟩ (.var ⟨b, 2⟩))]]
    let env (a b : String) (v : Value) : Environment := ⟨.lexical, [[(a, v)]], [(b, .text "x")]⟩
    Function.Injective f ∧
      Machine.Ends ⟨env "a_" "b_" .null, .buffer ""⟩ (program "a_" "b_" "c_")
        ⟨env "a_" "b_" (.text "x"), .buffer "x\n"⟩ (some ⟨.undeclaredAssignment "c_", 2⟩) := by
  intro f program env
  have hf : Function.Injective f := fun _ _ h => (String.append_left_inj "_").1 h
  have hrun : Machine.Ends ⟨env "a" "b" .null, .buffer ""⟩ (program "a" "b" "c")
      ⟨env "a" "b" (.text "x"), .buffer "x\n"⟩ (some ⟨.undeclaredAssignment "c", 2⟩) :=
    ⟨0, by cbv⟩
  exact ⟨hf, (renamed_run_iff hf _ _ _ _).2 ⟨_, _, hrun, rfl, rfl⟩⟩

end TinyScript
