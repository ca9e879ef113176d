import TinyScript.Proofs.Soundness

/-!
Lines are carried along and nothing else. Tokens on other lines are derived to the same tree with
the other lines in it, and where a token stands in bytes is not in the tree at all.
-/

namespace TinyScript

def Ident.mapLines (f : Nat → Nat) (x : Ident) : Ident := ⟨x.name, f x.line⟩

/-- The expression with other lines in it. -/
def Expr.mapLines (f : Nat → Nat) : Expr → Expr
  | literal v => literal v
  | group e => group (e.mapLines f)
  | unary op line e => unary op (f line) (e.mapLines f)
  | binary op line l r => binary op (f line) (l.mapLines f) (r.mapLines f)
  | logical op l r => logical op (l.mapLines f) (r.mapLines f)
  | assign x e => assign (x.mapLines f) (e.mapLines f)
  | var x => var (x.mapLines f)

mutual

def Stmt.mapLines (f : Nat → Nat) : Stmt → Stmt
  | .expression e => .expression (e.mapLines f)
  | .print e => .print (e.mapLines f)
  | .declare x e => .declare (x.mapLines f) (e.mapLines f)
  | .block body => .block (mapLinesIn f body)
  | .ifThen test yes => .ifThen (test.mapLines f) (yes.mapLines f)
  | .ifElse test yes no => .ifElse (test.mapLines f) (yes.mapLines f) (no.mapLines f)
  | .while test body => .while (test.mapLines f) (body.mapLines f)

def mapLinesIn (f : Nat → Nat) : List Stmt → List Stmt
  | [] => []
  | s :: ss => s.mapLines f :: mapLinesIn f ss

end

section

variable {f g : Nat → Nat}

theorem Ident.mapLines_cancel (hgf : ∀ n, g (f n) = n) (x : Ident) :
    (x.mapLines f).mapLines g = x := by
  rw [mapLines, mapLines, hgf]

theorem Expr.mapLines_cancel (hgf : ∀ n, g (f n) = n) (e : Expr) :
    (e.mapLines f).mapLines g = e := by
  induction e with
  | literal v => rfl
  | group e ih => rw [mapLines, mapLines, ih]
  | unary op line e ih => rw [mapLines, mapLines, hgf, ih]
  | binary op line l r ihl ihr => rw [mapLines, mapLines, hgf, ihl, ihr]
  | logical op l r ihl ihr => rw [mapLines, mapLines, ihl, ihr]
  | assign x e ih => rw [mapLines, mapLines, x.mapLines_cancel hgf, ih]
  | var x => rw [mapLines, mapLines, x.mapLines_cancel hgf]

mutual

theorem Stmt.mapLines_cancel (hgf : ∀ n, g (f n) = n) : ∀ s : Stmt, (s.mapLines f).mapLines g = s
  | .expression e => by rw [Stmt.mapLines, Stmt.mapLines, e.mapLines_cancel hgf]
  | .print e => by rw [Stmt.mapLines, Stmt.mapLines, e.mapLines_cancel hgf]
  | .declare x e => by
    rw [Stmt.mapLines, Stmt.mapLines, x.mapLines_cancel hgf, e.mapLines_cancel hgf]
  | .block body => by rw [Stmt.mapLines, Stmt.mapLines, mapLinesIn_cancel hgf body]
  | .ifThen test yes => by
    rw [Stmt.mapLines, Stmt.mapLines, test.mapLines_cancel hgf, yes.mapLines_cancel hgf]
  | .ifElse test yes no => by
    rw [Stmt.mapLines, Stmt.mapLines, test.mapLines_cancel hgf, yes.mapLines_cancel hgf,
      no.mapLines_cancel hgf]
  | .while test body => by
    rw [Stmt.mapLines, Stmt.mapLines, test.mapLines_cancel hgf, body.mapLines_cancel hgf]

theorem mapLinesIn_cancel (hgf : ∀ n, g (f n) = n) : ∀ ss : List Stmt,
    mapLinesIn g (mapLinesIn f ss) = ss
  | [] => rfl
  | s :: ss => by
    rw [mapLinesIn, mapLinesIn, s.mapLines_cancel hgf, mapLinesIn_cancel hgf ss]

end

end

theorem mapLinesIn_append (f : Nat → Nat) (ss ts : List Stmt) :
    mapLinesIn f (ss ++ ts) = mapLinesIn f ss ++ mapLinesIn f ts := by
  induction ss with
  | nil => rfl
  | cons s ss ih => rw [List.cons_append, mapLinesIn, mapLinesIn, ih, List.cons_append]

/-- The token on another line, wherever that is in the source. -/
def Token.onLine (f : Nat → Nat) (t : Token) : Token :=
  { t with line := f t.line, span := ⟨0, 0⟩ }

namespace Grammar

variable (f : Nat → Nat)

theorem Category.chain?_mapLines {c : Category} {k : TokenKind} {node : Nat → Expr → Expr → Expr}
    (h : c.chain? k = some node) (line : Nat) (a b : Expr) :
    (node line a b).mapLines f = node (f line) (a.mapLines f) (b.mapLines f) := by
  unfold chain? at h
  split at h
  all_goals cases h
  all_goals rfl

theorem Phrase.onLine {c : Category} {w : List Token} {e : Expr} (h : Phrase c w e) :
    Phrase c (w.map (Token.onLine f)) (e.mapLines f) := by
  induction h with
  | literal ht hl => exact .literal ht hl
  | true ht => exact .true ht
  | false ht => exact .false ht
  | null ht => exact .null ht
  | name ht => exact .name ht
  | group hl _ hr ih =>
    rw [List.map_append, List.map_cons]
    exact .group hl ih hr
  | unary ht _ ih => exact .unary ht ih
  | product _ ht _ iha ihb =>
    rw [List.map_append, List.map_cons]
    exact .product iha ht ihb
  | chain _ ht _ iha ihb =>
    rw [List.map_append, List.map_cons, Category.chain?_mapLines f ht]
    exact .chain iha ht ihb
  | assign _ ht _ ihx ihe =>
    rw [List.map_append, List.map_cons]
    exact .assign ihx ht ihe
  | operand hc _ ih => exact .operand hc ih

theorem Simple.onLine {w : List Token} {s : Stmt} (h : Simple w s) :
    Simple (w.map (Token.onLine f)) (s.mapLines f) := by
  cases h with
  | declare hk hn hq he hz =>
    rw [List.map_append]
    exact .declare hk hn hq (he.onLine f) hz
  | expression he hz =>
    rw [List.map_append]
    exact .expression (he.onLine f) hz

theorem Initializer.onLine {w : List Token} {init : Option Stmt} (h : Initializer w init) :
    Initializer (w.map (Token.onLine f)) (init.map (Stmt.mapLines f)) := by
  cases h with
  | none hz => exact .none hz
  | some hs => exact .some (hs.onLine f)

theorem Test.onLine {w : List Token} {test : Expr} (h : Test w test) :
    Test (w.map (Token.onLine f)) (test.mapLines f) := by
  cases h with
  | none => exact .none
  | some he => exact .some (he.onLine f)

theorem Step.onLine {w : List Token} {step : Option Expr} (h : Step w step) :
    Step (w.map (Token.onLine f)) (step.map (Expr.mapLines f)) := by
  cases h with
  | none => exact .none
  | some he => exact .some (he.onLine f)

theorem mapLines_loop (init : Option Stmt) (test : Expr) (step : Option Expr) (body : Stmt) :
    (loop init test step body).mapLines f = loop (init.map (Stmt.mapLines f)) (test.mapLines f)
      (step.map (Expr.mapLines f)) (body.mapLines f) := by
  cases init <;> cases step <;> rfl

mutual

theorem Statement.onLine : {d : Bool} → {w : List Token} → {s : Stmt} → Statement d w s →
    Statement d (w.map (Token.onLine f)) (s.mapLines f)
  | _, _, _, .simple hs => .simple (hs.onLine f)
  | _, _, _, .print hk he hz => by
    rw [List.map_append]
    exact .print hk (he.onLine f) hz
  | _, _, _, .block hl hs hr => by
    rw [List.map_append, Stmt.mapLines]
    exact .block hl hs.onLine hr
  | _, _, _, .ifThen hk hl ht hr hy => by
    rw [List.map_append]
    exact .ifThen hk hl (ht.onLine f) hr hy.onLine
  | _, _, _, .ifElse hk hl ht hr hy ho hn => by
    rw [List.map_append, List.map_append]
    exact .ifElse hk hl (ht.onLine f) hr hy.onLine ho hn.onLine
  | _, _, _, .while hk hl ht hr hb => by
    rw [List.map_append]
    exact .while hk hl (ht.onLine f) hr hb.onLine
  | _, _, _, .for hk hl hi ht hz hx hr hb => by
    rw [List.map_append, List.map_append, List.map_append, mapLines_loop]
    exact .for hk hl (hi.onLine f) (ht.onLine f) hz (hx.onLine f) hr hb.onLine

theorem Statements.onLine : {w : List Token} → {ss : List Stmt} → Statements w ss →
    Statements (w.map (Token.onLine f)) (mapLinesIn f ss)
  | _, _, .nil => .nil
  | _, _, .cons hs hr => by
    rw [List.map_append]
    exact .cons hs.onLine hr.onLine

end

end Grammar

namespace Reading

/-- The reading, if the bytes at which the blamed tokens stand are forgotten. -/
def bare (r : Reading) : Reading :=
  { r with errors := r.errors.map fun x => ⟨x.fault, x.token.onLine id⟩ }

theorem proceed_bare (r : Reading) (t : Token) (next : Stage.Next) :
    r.bare.proceed (t.onLine id) next = (r.proceed t next).bare := by
  cases next <;> rfl

theorem feed_bare (r : Reading) (t : Token) : r.bare.feed (t.onLine id) = (r.feed t).bare := by
  obtain ⟨stage, statements, errors⟩ := r
  have hkind : (t.onLine id).kind = t.kind := rfl
  rcases stage with _ | ⟨mode, enclosing⟩ | ⟨s, enclosing⟩
  · rfl
  · exact proceed_bare _ _ _
  · rcases hsettle : Stage.settle t.kind s enclosing with s' | ⟨mode, outer⟩ | ⟨test, yes, outer⟩
    · simp only [feed, bare, hkind, hsettle]
      exact proceed_bare ⟨some (.finished s enclosing), s' :: statements, errors⟩ t _
    · simp only [feed, bare, hkind, hsettle]
      exact proceed_bare ⟨some (.finished s enclosing), statements, errors⟩ t _
    · simp only [feed, bare, hkind, hsettle]

theorem feeds_bare (r : Reading) (w : List Token) :
    r.bare.feeds (w.map (Token.onLine id)) = (r.feeds w).bare := by
  induction w generalizing r with
  | nil => rfl
  | cons t w ih => rw [List.map_cons, feeds_cons, feeds_cons, feed_bare, ih]

theorem unfinished_bare (mode : Mode) (enclosing : List Enclosing) (t : Token) :
    unfinished mode enclosing (t.onLine id) =
      (unfinished mode enclosing t).map fun x => ⟨x.fault, x.token.onLine id⟩ := by
  have hstep : Stage.step mode enclosing (t.onLine id) = Stage.step mode enclosing t := rfl
  simp only [unfinished, hstep]
  split
  · rfl
  · cases Stage.step mode enclosing t <;> rfl

theorem finish_bare (r : Reading) (t : Token) :
    r.bare.finish (t.onLine id) = (r.finish t).bare := by
  obtain ⟨stage, statements, errors⟩ := r
  have hkind : (t.onLine id).kind = t.kind := rfl
  rcases stage with _ | ⟨mode, enclosing⟩ | ⟨s, enclosing⟩
  · rfl
  · simp only [finish, bare, unfinished_bare, List.map_append]
  · rcases hsettle : Stage.settle t.kind s enclosing with s' | ⟨mode, outer⟩ | ⟨test, yes, outer⟩
    · simp only [finish, bare, hkind, hsettle]
    · simp only [finish, bare, hkind, hsettle, unfinished_bare, List.map_append]
    · simp only [finish, bare, hkind, hsettle]

end Reading

namespace Grammar

/-- A derivation does not depend on where its tokens stand in bytes. -/
theorem statements_of_bare {w : List Token} {ss : List Stmt} (hl : ∀ t ∈ w, Carried t)
    (h : Statements (w.map (Token.onLine id)) ss) : Statements w ss := by
  have he : (Token.eof 1 0).onLine id = Token.eof 1 0 := rfl
  have hbare : (Reading.start.feeds (w.map (Token.onLine id))).finish (Token.eof 1 0) =
      ((Reading.start.feeds w).finish (Token.eof 1 0)).bare := by
    rw [← Reading.finish_bare, ← Reading.feeds_bare, he]
    rfl
  obtain ⟨herrors, hstatements⟩ := h.read (e := Token.eof 1 0) rfl
  rw [hbare] at herrors hstatements
  have hw := statements_of_read (e := Token.eof 1 0) rfl hl (List.map_eq_nil_iff.1 herrors)
  exact hstatements ▸ hw

end Grammar

end TinyScript
