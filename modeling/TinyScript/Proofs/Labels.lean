import TinyScript.Proofs.Execution
import TinyScript.Syntax.Node

/-!
The labels of all nodes of a tree. What a run does with names and lines it has from them: the
statements that are left at any time are made of the nodes of the program.
-/

namespace TinyScript

def Expr.labels : Expr → List Label
  | literal v => [.literal v]
  | group e => .group :: e.labels
  | unary op line e => .unary op line :: e.labels
  | binary op line l r => .binary op line :: (l.labels ++ r.labels)
  | logical op l r => .logical op :: (l.labels ++ r.labels)
  | assign x e => .assign x :: e.labels
  | var x => [.var x]

mutual

def Stmt.labels : Stmt → List Label
  | .expression e => .expression :: e.labels
  | .print e => .print :: e.labels
  | .declare x e => .declare x :: e.labels
  | .block body => .block body.length :: labelsIn body
  | .ifThen test yes => .ifThen :: (test.labels ++ yes.labels)
  | .ifElse test yes no => .ifElse :: (test.labels ++ (yes.labels ++ no.labels))
  | .while test body => .while :: (test.labels ++ body.labels)

def labelsIn : List Stmt → List Label
  | [] => []
  | s :: ss => s.labels ++ labelsIn ss

end

theorem labelsIn_append (ss tt : List Stmt) :
    labelsIn (ss ++ tt) = labelsIn ss ++ labelsIn tt := by
  induction ss with
  | nil => rfl
  | cons s ss ih => rw [List.cons_append, labelsIn, labelsIn, ih, List.append_assoc]

namespace Stmt

theorem labels_head? {s : Stmt} {e : Expr} (he : s.head? = some e) : e.labels ⊆ s.labels := by
  cases s with
  | block => cases he
  | expression | print | declare =>
    cases he
    exact List.subset_cons_self _ _
  | ifThen | ifElse | «while» =>
    cases he
    exact List.Subset.trans (List.subset_append_left _ _) (List.subset_cons_self _ _)

theorem labels_goOn (m : Machine) (v : Value) (s : Stmt) :
    labelsIn (s.goOn m v).2 ⊆ s.labels := by
  cases s with
  | expression | print | declare | block => exact List.nil_subset _
  | ifThen test yes =>
    rw [goOn]
    split
    · simp [labelsIn, labels]
    · exact List.nil_subset _
  | ifElse test yes no =>
    rw [goOn]
    split <;> simp +contextual [labelsIn, labels, List.subset_def]
  | «while» test body =>
    rw [goOn]
    split
    · simp [labelsIn, labels]
    · exact List.nil_subset _

end Stmt

/-- What runs next is made of what was there before. -/
theorem labels_rest (m : Machine) (v : Value) (s : Stmt) (ss : List Stmt) :
    labelsIn ((s.goOn m v).2 ++ ss) ⊆ labelsIn (s :: ss) := by
  rw [labelsIn_append, labelsIn]
  exact List.append_subset.2 ⟨List.Subset.trans (s.labels_goOn m v) (List.subset_append_left _ _),
    List.subset_append_right _ _⟩

theorem labels_first {s : Stmt} {e : Expr} (he : s.head? = some e) (ss : List Stmt) :
    e.labels ⊆ labelsIn (s :: ss) :=
  List.Subset.trans (Stmt.labels_head? he) (List.subset_append_left _ _)

end TinyScript
