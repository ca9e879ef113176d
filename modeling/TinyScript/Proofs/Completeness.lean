import TinyScript.Proofs.Grammar
import TinyScript.Proofs.Reading

/-!
Every derivation is read without error, and gives its tree. A phrase is read with any operators
waiting in front of it, as long as none of them would close before the phrase ends; afterwards the
operators of the phrase itself still wait, so what is said of the result is how it closes.
-/

namespace TinyScript

theorem BinaryOp.level_le (op : BinaryOp) : op.level ≤ Level.product := by cases op <;> decide

theorem LogicalOp.level_le (op : LogicalOp) : op.level ≤ Level.conjunction := by
  cases op <;> decide

namespace Pending

/-- The operator that waits first, if any, binds more loosely than `l`. -/
def Room (l : Level) (ps : List Pending) : Prop := ∀ p ∈ ps.head?, p.level < l

theorem room_cons {l : Level} {p : Pending} {ps : List Pending} :
    Room l (p :: ps) ↔ p.level < l := by
  simp [Room]

theorem Room.mono {l m : Level} {ps : List Pending} (h : Room l ps) (hlm : l ≤ m) : Room m ps :=
  fun p hp => Nat.lt_of_lt_of_le (h p hp) hlm

theorem level_lt (p : Pending) : p.level < Level.unary + 1 := by
  cases p with
  | unary op line => exact Nat.lt_succ_self _
  | binary left op line => exact Nat.lt_of_le_of_lt op.level_le (by decide)
  | logical left op => exact Nat.lt_of_le_of_lt op.level_le (by decide)
  | assign target => exact (by decide : Level.assignment < Level.unary + 1)
  | group => exact Nat.succ_pos _

theorem room_top (ps : List Pending) : Room (Level.unary + 1) ps := fun p _ => p.level_lt

theorem close_of_room {l : Level} {ps : List Pending} (h : Room l ps) (e : Expr) :
    close l e ps = (e, ps) := by
  cases ps with
  | nil => rfl
  | cons p ps => rw [close, if_neg (Nat.not_le.2 (room_cons.1 h))]

theorem close_cons {l : Level} {p : Pending} (h : l ≤ p.level) (e : Expr) (ps : List Pending) :
    close l e (p :: ps) = close l (p.complete e) ps := by
  rw [close, if_pos h]

end Pending

theorem Purpose.terminator_kind (p : Purpose) :
    p.terminator.1 = .semicolon ∨ p.terminator.1 = .rightParen := by
  cases p <;> simp [Purpose.terminator]

namespace Grammar

namespace Category

def level : Category → Nat
  | expression => Level.assignment
  | disjunction => Level.disjunction
  | conjunction => Level.conjunction
  | equality => Level.equality
  | comparison => Level.comparison
  | sum => Level.sum
  | product => Level.product
  | unary => Level.unary
  | primary => Level.unary + 1

/-- The operators that wait in front of a phrase have to bind more loosely than this. Those of a
product may bind as tightly as the product, since it groups to the right. -/
def floor : Category → Nat
  | product => Level.unary
  | unary => Level.unary + 1
  | c => c.level

theorem level_le_next (c : Category) : c.level ≤ c.next.level := by cases c <;> decide

theorem floor_le_next (c : Category) : c.floor ≤ c.next.floor := by cases c <;> decide

end Category

/-- An operator that chains to the left closes what is as tight as itself, and is closed by it. -/
theorem chain?_eq_some {c : Category} {k : TokenKind} {node : Nat → Expr → Expr → Expr}
    (h : c.chain? k = some node) :
    ∃ op, InfixOp.ofToken? k = some op ∧ op.leftLevel = c.level ∧ c.floor = c.level ∧
      c.level < c.next.floor ∧ ∀ line a, (Pending.ofInfix op line a).level = c.level ∧
        ∀ b, (Pending.ofInfix op line a).complete b = node line a b := by
  unfold Category.chain? at h
  split at h
  all_goals first
    | cases h
      exact ⟨_, rfl, rfl, rfl, by decide, fun line a => ⟨rfl, fun b => rfl⟩⟩
    | cases h

theorem factor?_eq_some {k : TokenKind} {op : BinaryOp} (h : factor? k = some op) :
    InfixOp.ofToken? k = some (.binary op) ∧ op.level = Level.product := by
  unfold factor? at h
  split at h
  all_goals first
    | cases h
      exact ⟨rfl, rfl⟩
    | cases h

theorem sign?_eq (k : TokenKind) : sign? k = UnaryOp.ofToken? k := by cases k <;> rfl

theorem operand_leaf {t : Token} {e : Expr} (h : Stage.leaf? t = some e) (ps : List Pending)
    (purpose : Purpose) (enclosing : List Enclosing) :
    Stage.operand ps purpose enclosing t = .ok (.inside (.operator e ps purpose) enclosing) := by
  have hs : UnaryOp.ofToken? t.kind = none ∧ t.kind ≠ .leftParen := by
    unfold Stage.leaf? at h
    split at h <;> simp_all [UnaryOp.ofToken?]
  rw [Stage.operand, hs.1]
  simp [hs.2, h]

/-- Reading `w` where an operand has to come leads to where an operator may come, and what has
been read then closes like `e` for every operator that is no tighter than the category. -/
def Reads (c : Category) (w : List Token) (e : Expr) : Prop :=
  ∀ (ps : List Pending) (purpose : Purpose) (enclosing : List Enclosing) (out : List Stmt),
    Pending.Room c.floor ps →
    ∃ e' ps', (Reading.clean (.inside (.operand ps purpose) enclosing) out).feeds w =
        Reading.clean (.inside (.operator e' ps' purpose) enclosing) out ∧
      ∀ m ≤ c.level, Pending.close m e' ps' = Pending.close m e ps

namespace Reads

theorem leaf {t : Token} {e : Expr} (h : Stage.leaf? t = some e) : Reads .primary [t] e := by
  intro ps purpose enclosing out _
  refine ⟨e, ps, ?_, fun m _ => rfl⟩
  have hstep : Stage.step (.operand ps purpose) enclosing t =
      .ok (.inside (.operator e ps purpose) enclosing) := operand_leaf h ps purpose enclosing
  exact Reading.feed_of_step hstep out

theorem group {l r : Token} {w : List Token} {e : Expr} (hl : l.kind = .leftParen)
    (he : Reads .expression w e) (hr : r.kind = .rightParen) :
    Reads .primary (l :: w ++ [r]) (.group e) := by
  intro ps purpose enclosing out _
  obtain ⟨e', ps', hw, hc⟩ := he (.group :: ps) purpose enclosing out
    (Pending.room_cons.2 (by decide))
  refine ⟨.group e, ps, ?_, fun m _ => rfl⟩
  have hopen : Stage.step (.operand ps purpose) enclosing l =
      .ok (.inside (.operand (.group :: ps) purpose) enclosing) := by
    simp [Stage.step, Stage.operand, hl, UnaryOp.ofToken?]
  have hclose : Stage.step (.operator e' ps' purpose) enclosing r =
      .ok (.inside (.operator (.group e) ps purpose) enclosing) := by
    have hg : Pending.close .assignment e' ps' = (e, .group :: ps) := by
      rw [hc Level.assignment (Nat.le_refl _)]
      exact Pending.close_of_room (Pending.room_cons.2 (by decide)) e
    simp [Stage.step, Stage.operator, Stage.ending, hr, InfixOp.ofToken?, BinaryOp.ofToken?,
      LogicalOp.ofToken?, hg, Stage.expect, Pending.complete]
  rw [List.cons_append, Reading.feeds_cons, Reading.feed_of_step hopen, Reading.feeds_append, hw,
    Reading.feeds_cons, Reading.feed_of_step hclose, Reading.feeds_nil]

theorem unary {t : Token} {op : UnaryOp} {w : List Token} {e : Expr}
    (ht : sign? t.kind = some op) (he : Reads .unary w e) :
    Reads .unary (t :: w) (.unary op t.line e) := by
  intro ps purpose enclosing out _
  obtain ⟨e', ps', hw, hc⟩ := he (.unary op t.line :: ps) purpose enclosing out
    (Pending.room_top _)
  refine ⟨e', ps', ?_, fun m hm => ?_⟩
  · have hstep : Stage.step (.operand ps purpose) enclosing t =
        .ok (.inside (.operand (.unary op t.line :: ps) purpose) enclosing) := by
      simp [Stage.step, Stage.operand, ← sign?_eq, ht]
    rw [Reading.feeds_cons, Reading.feed_of_step hstep, hw]
  · rw [hc m hm]
    exact Pending.close_cons hm e ps

/-- An infix operator behind what closes to `a` starts to wait for its right operand. -/
theorem infix_step {t : Token} {op : InfixOp} (ht : InfixOp.ofToken? t.kind = some op)
    {a a' : Expr} {ps ps' : List Pending} (hc : Pending.close op.leftLevel a' ps' = (a, ps))
    (purpose : Purpose) (enclosing : List Enclosing) (out : List Stmt) :
    (Reading.clean (.inside (.operator a' ps' purpose) enclosing) out).feed t =
      Reading.clean (.inside (.operand (.ofInfix op t.line a :: ps) purpose) enclosing) out := by
  apply Reading.feed_of_step
  simp [Stage.step, Stage.operator, ht, hc]

theorem product {t : Token} {op : BinaryOp} {u v : List Token} {a b : Expr}
    (ha : Reads .unary u a) (ht : factor? t.kind = some op) (hb : Reads .product v b) :
    Reads .product (u ++ t :: v) (.binary op t.line a b) := by
  intro ps purpose enclosing out hroom
  obtain ⟨hop, hlevel⟩ := factor?_eq_some ht
  have hleft : (InfixOp.binary op).leftLevel = Level.unary := if_pos hlevel
  have hp : (Pending.binary a op t.line).level = Level.product := hlevel
  obtain ⟨a', ps', hu, hca⟩ := ha ps purpose enclosing out (Pending.room_top _)
  have hclose : Pending.close (InfixOp.binary op).leftLevel a' ps' = (a, ps) := by
    rw [hleft, hca Level.unary (Nat.le_refl _)]
    exact Pending.close_of_room hroom a
  obtain ⟨b', qs', hv, hcb⟩ := hb (.binary a op t.line :: ps) purpose enclosing out
    (Pending.room_cons.2 (hp ▸ by decide))
  refine ⟨b', qs', ?_, fun m hm => ?_⟩
  · rw [Reading.feeds_append, hu, Reading.feeds_cons, infix_step hop hclose, ← hv]
    rfl
  · rw [hcb m hm]
    exact Pending.close_cons (hp ▸ hm) b ps

theorem chain {c : Category} {t : Token} {node : Nat → Expr → Expr → Expr} {u v : List Token}
    {a b : Expr} (ha : Reads c u a) (ht : c.chain? t.kind = some node) (hb : Reads c.next v b) :
    Reads c (u ++ t :: v) (node t.line a b) := by
  intro ps purpose enclosing out hroom
  obtain ⟨op, hop, hleft, hfloor, hnext, hnode⟩ := chain?_eq_some ht
  obtain ⟨hp, hcomplete⟩ := hnode t.line a
  obtain ⟨a', ps', hu, hca⟩ := ha ps purpose enclosing out hroom
  have hclose : Pending.close op.leftLevel a' ps' = (a, ps) := by
    rw [hleft, hca _ (Nat.le_refl _)]
    exact Pending.close_of_room (hfloor ▸ hroom) a
  obtain ⟨b', qs', hv, hcb⟩ := hb (.ofInfix op t.line a :: ps) purpose enclosing out
    (Pending.room_cons.2 (hp ▸ hnext))
  refine ⟨b', qs', ?_, fun m hm => ?_⟩
  · rw [Reading.feeds_append, hu, Reading.feeds_cons, infix_step hop hclose, hv]
  · rw [hcb m (Nat.le_trans hm c.level_le_next), Pending.close_cons (hp ▸ hm), hcomplete]

theorem assign {t : Token} {x : Ident} {u v : List Token} {e : Expr}
    (hx : Reads .disjunction u (.var x)) (ht : t.kind = .equal) (he : Reads .disjunction v e) :
    Reads .expression (u ++ t :: v) (.assign x e) := by
  intro ps purpose enclosing out hroom
  have hroom' : Pending.Room Level.disjunction ps := hroom.mono (by decide)
  obtain ⟨x', ps', hu, hcx⟩ := hx ps purpose enclosing out hroom'
  have hclose : Pending.close .disjunction x' ps' = (.var x, ps) := by
    rw [hcx Level.disjunction (Nat.le_refl _)]
    exact Pending.close_of_room hroom' _
  have hstep : Stage.step (.operator x' ps' purpose) enclosing t =
      .ok (.inside (.operand (.assign x :: ps) purpose) enclosing) := by
    rw [Stage.step, Stage.operator, show InfixOp.ofToken? t.kind = none by rw [ht]; rfl]
    simp only [ht, if_true, Stage.equals, hclose]
    split
    · next y qs heq =>
      -- an assignment never waits where there is room for another one
      cases heq
      exact absurd (Pending.room_cons.1 hroom) (Nat.lt_irrefl _)
    · next heq =>
      cases heq
      rfl
  obtain ⟨e', qs', hv, hce⟩ := he (.assign x :: ps) purpose enclosing out
    (Pending.room_cons.2 (Nat.lt_succ_self _))
  refine ⟨e', qs', ?_, fun m hm => ?_⟩
  · rw [Reading.feeds_append, hu, Reading.feeds_cons, Reading.feed_of_step hstep, hv]
  · rw [hce m (Nat.le_trans hm (by decide))]
    exact Pending.close_cons hm e ps

theorem operand {c : Category} {w : List Token} {e : Expr} (he : Reads c.next w e) :
    Reads c w e := by
  intro ps purpose enclosing out hroom
  obtain ⟨e', ps', hw, hc⟩ := he ps purpose enclosing out (hroom.mono c.floor_le_next)
  exact ⟨e', ps', hw, fun m hm => hc m (Nat.le_trans hm c.level_le_next)⟩

end Reads

theorem Phrase.reads {c : Category} {w : List Token} {e : Expr} (h : Phrase c w e) :
    Reads c w e := by
  induction h with
  | literal ht hl =>
    apply Reads.leaf
    rcases ht with ht | ht <;> simp [Stage.leaf?, ht, hl]
  | true ht => exact Reads.leaf (by simp [Stage.leaf?, ht])
  | false ht => exact Reads.leaf (by simp [Stage.leaf?, ht])
  | null ht => exact Reads.leaf (by simp [Stage.leaf?, ht])
  | name ht => exact Reads.leaf (by simp [Stage.leaf?, ht])
  | group hl _ hr ih => exact Reads.group hl ih hr
  | unary ht _ ih => exact Reads.unary ht ih
  | product _ ht _ iha ihb => exact Reads.product iha ht ihb
  | chain _ ht _ iha ihb => exact Reads.chain iha ht ihb
  | assign _ ht _ ihx ihe => exact Reads.assign ihx ht ihe
  | operand _ _ ih => exact Reads.operand ih

/-- The kinds of token that a phrase can start with. -/
def phraseStarts : List TokenKind :=
  [.number, .string, .kwTrue, .kwFalse, .kwNull, .identifier, .leftParen, .minus, .bang]

theorem Phrase.head {c : Category} {w : List Token} {e : Expr} (h : Phrase c w e) :
    ∃ t w', w = t :: w' ∧ t.kind ∈ phraseStarts := by
  induction h with
  | literal ht _ => exact ⟨_, _, rfl, by rcases ht with ht | ht <;> rw [ht] <;> decide⟩
  | true ht | false ht | null ht | name ht => exact ⟨_, _, rfl, by rw [ht]; decide⟩
  | group hl _ _ _ => exact ⟨_, _, rfl, by rw [hl]; decide⟩
  | unary ht _ _ =>
    refine ⟨_, _, rfl, ?_⟩
    unfold sign? at ht
    split at ht <;> simp_all [phraseStarts]
  | product _ _ _ ih _ | chain _ _ _ ih _ | assign _ _ _ ih _ =>
    obtain ⟨t, w', rfl, ht⟩ := ih
    exact ⟨t, _, rfl, ht⟩
  | operand _ _ ih => exact ih

/-- A whole expression and its terminator fulfil the purpose. -/
theorem Phrase.fulfils {w : List Token} {e : Expr} (h : Phrase .expression w e) {z : Token}
    {purpose : Purpose} (hz : z.kind = purpose.terminator.1) (enclosing : List Enclosing)
    (out : List Stmt) :
    (Reading.clean (.inside (.operand [] purpose) enclosing) out).feeds (w ++ [z]) =
      Reading.clean (purpose.fulfil e enclosing) out := by
  obtain ⟨e', ps', hw, hc⟩ := h.reads [] purpose enclosing out (by simp [Pending.Room])
  have hclose : Pending.close .assignment e' ps' = (e, []) := hc Level.assignment (Nat.le_refl _)
  have hkind : InfixOp.ofToken? z.kind = none ∧ z.kind ≠ .equal := by
    rcases purpose.terminator_kind with hp | hp <;> rw [hz, hp] <;> exact ⟨rfl, by decide⟩
  have hstep : Stage.step (.operator e' ps' purpose) enclosing z =
      .ok (purpose.fulfil e enclosing) := by
    rw [Stage.step, Stage.operator, hkind.1]
    dsimp only
    rw [if_neg hkind.2, Stage.ending, hclose]
    exact if_pos hz
  rw [Reading.feeds_append, hw, Reading.feeds_cons, Reading.feed_of_step hstep, Reading.feeds_nil]

/-- The same where the expression may start, which is not only where an operand has to come. -/
theorem Phrase.fulfils_of_start {w : List Token} {e : Expr} (h : Phrase .expression w e)
    {z : Token} {purpose : Purpose} (hz : z.kind = purpose.terminator.1) {mode : Mode}
    {enclosing enclosing' : List Enclosing}
    (hstart : ∀ t : Token, t.kind ∈ phraseStarts →
      Stage.step mode enclosing t = Stage.operand [] purpose enclosing' t) (out : List Stmt) :
    (Reading.clean (.inside mode enclosing) out).feeds (w ++ [z]) =
      Reading.clean (purpose.fulfil e enclosing') out := by
  obtain ⟨t, w', rfl, ht⟩ := h.head
  rw [← h.fulfils hz, List.cons_append, Reading.feeds_cons, Reading.feeds_cons,
    Reading.feed_inside, Reading.feed_inside, hstart t ht]
  exact congrArg (Reading.feeds · (w' ++ [z])) (Reading.proceed_stage
    (Reading.clean (.inside (.operand [] purpose) enclosing') out) _ t _)

/-- A simple statement is read in any mode that leads to the start of one. -/
theorem Simple.reads {w : List Token} {s : Stmt} (h : Simple w s) {mode : Mode}
    {enclosing enclosing' : List Enclosing}
    (hvar : ∀ t : Token, t.kind = .kwVar →
      Stage.step mode enclosing t = .ok (.inside .varName enclosing'))
    (hstart : ∀ t : Token, t.kind ∈ phraseStarts →
      Stage.step mode enclosing t = Stage.operand [] .discard enclosing' t) (out : List Stmt) :
    (Reading.clean (.inside mode enclosing) out).feeds w =
      Reading.clean (.finished s enclosing') out := by
  cases h with
  | @declare k n q z w e hk hn hq he hz =>
    have hname : Stage.step .varName enclosing' n =
        .ok (.inside (.varEqual ⟨n.lexeme, n.line⟩) enclosing') := if_pos hn
    have hequal : Stage.step (.varEqual ⟨n.lexeme, n.line⟩) enclosing' q =
        .ok (.inside (.operand [] (.initial ⟨n.lexeme, n.line⟩)) enclosing') := if_pos hq
    simp only [List.cons_append, Reading.feeds_cons]
    rw [Reading.feed_of_step (hvar k hk), Reading.feed_of_step hname, Reading.feed_of_step hequal]
    exact he.fulfils hz enclosing' out
  | expression he hz => exact he.fulfils_of_start hz hstart out

theorem step_forInit {t : Token} (ht : t.kind ∈ phraseStarts) (enclosing : List Enclosing) :
    Stage.step .forInit enclosing t = Stage.operand [] .discard (.forInit :: enclosing) t := by
  rw [Stage.step]
  split
  · next hk => simp [hk, phraseStarts] at ht
  · next hk => simp [hk, phraseStarts] at ht
  · rfl

theorem step_statement {t : Token} (ht : t.kind ∈ phraseStarts) (enclosing : List Enclosing) :
    Stage.step .statement enclosing t = Stage.operand [] .discard enclosing t := by
  change Stage.statement enclosing t = _
  unfold Stage.statement
  split
  all_goals first
    | rfl
    | next hk => simp [hk, phraseStarts] at ht

theorem Initializer.reads {w : List Token} {init : Option Stmt} (h : Initializer w init)
    (enclosing : List Enclosing) (out : List Stmt) (k : TokenKind) :
    ((Reading.clean (.inside .forInit enclosing) out).feeds w).settled k =
      Reading.clean (.inside (.forTest init) enclosing) out := by
  cases h with
  | @none z hz =>
    have hstep : Stage.step .forInit enclosing z = .ok (.inside (.forTest .none) enclosing) := by
      simp [Stage.step, hz]
    rw [Reading.feeds_cons, Reading.feed_of_step hstep]
    rfl
  | some hs =>
    have hvar : ∀ t : Token, t.kind = .kwVar → Stage.step .forInit enclosing t =
        .ok (.inside .varName (.forInit :: enclosing)) := by
      intro t ht
      simp [Stage.step, ht]
    rw [hs.reads hvar (fun t ht => step_forInit ht enclosing)]
    rfl

theorem Test.reads {v : List Token} {test : Expr} (h : Test v test) {z : Token}
    (hz : z.kind = .semicolon) (init : Option Stmt) (enclosing : List Enclosing)
    (out : List Stmt) :
    (Reading.clean (.inside (.forTest init) enclosing) out).feeds (v ++ [z]) =
      Reading.clean (.inside (.forStep init test) enclosing) out := by
  cases h with
  | none =>
    have hstep : Stage.step (.forTest init) enclosing z =
        .ok (.inside (.forStep init (.literal (.boolean true))) enclosing) := if_pos hz
    exact Reading.feed_of_step hstep out
  | some he =>
    have hstart : ∀ t : Token, t.kind ∈ phraseStarts → Stage.step (.forTest init) enclosing t =
        Stage.operand [] (.forTest init) enclosing t :=
      fun t ht => if_neg fun hk => by simp [hk, phraseStarts] at ht
    exact he.fulfils_of_start hz hstart out

theorem Step.reads {x : List Token} {step : Option Expr} (h : Step x step) {r : Token}
    (hr : r.kind = .rightParen) (init : Option Stmt) (test : Expr) (enclosing : List Enclosing)
    (out : List Stmt) :
    (Reading.clean (.inside (.forStep init test) enclosing) out).feeds (x ++ [r]) =
      Reading.clean (.inside .statement (.forBody init test step :: enclosing)) out := by
  cases h with
  | none =>
    have hstep : Stage.step (.forStep init test) enclosing r =
        .ok (.inside .statement (.forBody init test .none :: enclosing)) := if_pos hr
    exact Reading.feed_of_step hstep out
  | some he =>
    have hstart : ∀ t : Token, t.kind ∈ phraseStarts →
        Stage.step (.forStep init test) enclosing t =
          Stage.operand [] (.forStep init test) enclosing t :=
      fun t ht => if_neg fun hk => by simp [hk, phraseStarts] at ht
    exact he.fulfils_of_start hr hstart out

theorem loop_eq_counting (init : Option Stmt) (test : Expr) (step : Option Expr) (body : Stmt) :
    loop init test step body = .counting init test step body := by
  cases init <;> cases step <;> rfl

theorem Statement.head {d : Bool} {w : List Token} {s : Stmt} (h : Statement d w s) :
    ∃ t w', w = t :: w' ∧ t.kind ≠ .kwElse := by
  cases h with
  | simple hs =>
    cases hs with
    | declare hk _ _ _ _ => exact ⟨_, _, rfl, by rw [hk]; decide⟩
    | expression he _ =>
      obtain ⟨t, w', rfl, ht⟩ := he.head
      exact ⟨t, _, rfl, fun hk => by simp [hk, phraseStarts] at ht⟩
  | print hk _ _ | block hk _ _ | ifThen hk _ _ _ _ | ifElse hk _ _ _ _ _ _ | «while» hk _ _ _ _
    | «for» hk _ _ _ _ _ _ _ => exact ⟨_, _, rfl, by rw [hk]; decide⟩

/-- Statements read one after the other are kept in the enclosing block, or in the program. -/
def Gathers (enclosing : List Stmt → List Enclosing) (out : List Stmt → List Stmt) : Prop :=
  ∀ k s ss, (Reading.clean (.finished s (enclosing ss)) (out ss)).settled k =
    Reading.clean (.inside .statement (enclosing (ss ++ [s]))) (out (ss ++ [s]))

theorem gathers_program : Gathers (fun _ => []) List.reverse := by
  intro k s ss
  simp [Reading.settled, Reading.clean, Stage.settle]

theorem gathers_block (outer : List Enclosing) (out : List Stmt) :
    Gathers (fun ss => .block ss.reverse :: outer) (fun _ => out) := by
  intro k s ss
  simp [Reading.settled, Reading.clean, Stage.settle]

/-- Reading `w` where a statement may start completes `s`. Where that leads depends on the next
token only if an `else` could belong to the statement. -/
def Completes (d : Bool) (w : List Token) (s : Stmt) : Prop :=
  ∀ (enclosing : List Enclosing) (out : List Stmt), ∃ s' enclosing',
    (Reading.clean (.inside .statement enclosing) out).feeds w =
        Reading.clean (.finished s' enclosing') out ∧
      ∀ k, (d = true → k ≠ .kwElse) → Stage.settle k s' enclosing' = Stage.settle k s enclosing

/-- Reading `w` where statements are gathered adds `ss` to them. -/
def Adds (w : List Token) (ss : List Stmt) : Prop :=
  ∀ (enclosing : List Stmt → List Enclosing) (out : List Stmt → List Stmt),
    Gathers enclosing out → ∀ (before : List Stmt) (r : Reading),
      (∀ k ≠ .kwElse, r.settled k =
        Reading.clean (.inside .statement (enclosing before)) (out before)) →
      ∀ k ≠ .kwElse, (r.feeds w).settled k =
        Reading.clean (.inside .statement (enclosing (before ++ ss))) (out (before ++ ss))

namespace Completes

theorem simple {w : List Token} {s : Stmt} (hs : Simple w s) : Completes false w s := by
  intro enclosing out
  have hvar : ∀ t : Token, t.kind = .kwVar →
      Stage.step .statement enclosing t = .ok (.inside .varName enclosing) := by
    intro t ht
    simp [Stage.step, Stage.statement, ht]
  exact ⟨_, _, hs.reads hvar (fun t ht => step_statement ht enclosing) out, fun k _ => rfl⟩

theorem print {k z : Token} {w : List Token} {e : Expr} (hk : k.kind = .kwPrint)
    (he : Phrase .expression w e) (hz : z.kind = .semicolon) :
    Completes false (k :: w ++ [z]) (.print e) := by
  intro enclosing out
  have hstep : Stage.step .statement enclosing k =
      .ok (.inside (.operand [] .print) enclosing) := by
    simp [Stage.step, Stage.statement, hk]
  refine ⟨.print e, enclosing, ?_, fun k _ => rfl⟩
  rw [List.cons_append, Reading.feeds_cons, Reading.feed_of_step hstep]
  exact he.fulfils hz enclosing out

theorem block {l r : Token} {w : List Token} {ss : List Stmt} (hl : l.kind = .leftBrace)
    (hs : Adds w ss) (hr : r.kind = .rightBrace) : Completes false (l :: w ++ [r]) (.block ss) := by
  intro enclosing out
  have hopen : Stage.step .statement enclosing l =
      .ok (.inside .statement (.block [] :: enclosing)) := by
    simp [Stage.step, Stage.statement, hl]
  have hclose : Stage.step .statement (.block ss.reverse :: enclosing) r =
      .ok (.finished (.block ss) enclosing) := by
    simp [Stage.step, Stage.statement, hr]
  have hbody := hs _ _ (gathers_block enclosing out) []
    (Reading.clean (.inside .statement (.block [] :: enclosing)) out) (fun _ _ => rfl)
    r.kind (hr ▸ by decide)
  refine ⟨.block ss, enclosing, ?_, fun k _ => rfl⟩
  rw [List.cons_append, Reading.feeds_cons, Reading.feed_of_step hopen, Reading.feeds_append,
    ← Reading.feeds_settled, hbody]
  exact Reading.feed_of_step hclose out

/-- A keyword and an expression in parentheses. -/
theorem condition {k l r : Token} {mode : Mode} {purpose : Purpose} {enclosing : List Enclosing}
    {w : List Token} {e : Expr}
    (hk : Stage.step .statement enclosing k = .ok (.inside mode enclosing))
    (hl : Stage.step mode enclosing l = .ok (.inside (.operand [] purpose) enclosing))
    (he : Phrase .expression w e) (hr : r.kind = purpose.terminator.1) (out : List Stmt) :
    (Reading.clean (.inside .statement enclosing) out).feeds (k :: l :: w ++ [r]) =
      Reading.clean (purpose.fulfil e enclosing) out := by
  rw [List.cons_append, List.cons_append, Reading.feeds_cons, Reading.feed_of_step hk,
    Reading.feeds_cons, Reading.feed_of_step hl, he.fulfils hr]

theorem if_condition {k l r : Token} {w : List Token} {test : Expr} (hk : k.kind = .kwIf)
    (hl : l.kind = .leftParen) (ht : Phrase .expression w test) (hr : r.kind = .rightParen)
    (enclosing : List Enclosing) (out : List Stmt) :
    (Reading.clean (.inside .statement enclosing) out).feeds (k :: l :: w ++ [r]) =
      Reading.clean (.inside .statement (.thenBranch test :: enclosing)) out := by
  have hif : Stage.step .statement enclosing k = .ok (.inside .ifParen enclosing) := by
    simp [Stage.step, Stage.statement, hk]
  have hparen : Stage.step .ifParen enclosing l = .ok (.inside (.operand [] .ifTest) enclosing) :=
    if_pos hl
  exact condition hif hparen ht hr out

theorem ifThen {d : Bool} {k l r : Token} {w u : List Token} {test : Expr} {yes : Stmt}
    (hk : k.kind = .kwIf) (hl : l.kind = .leftParen) (ht : Phrase .expression w test)
    (hr : r.kind = .rightParen) (hy : Completes d u yes) :
    Completes true (k :: l :: w ++ r :: u) (.ifThen test yes) := by
  intro enclosing out
  obtain ⟨s', enclosing', hu, hsettle⟩ := hy (.thenBranch test :: enclosing) out
  refine ⟨s', enclosing', ?_, fun n hn => ?_⟩
  · rw [List.append_cons, Reading.feeds_append, if_condition hk hl ht hr, hu]
  · rw [hsettle n (fun _ => hn rfl), Stage.settle, if_neg (hn rfl)]

theorem ifElse {d : Bool} {k l r o : Token} {w u v : List Token} {test : Expr} {yes no : Stmt}
    (hk : k.kind = .kwIf) (hl : l.kind = .leftParen) (ht : Phrase .expression w test)
    (hr : r.kind = .rightParen) (hy : Completes false u yes) (ho : o.kind = .kwElse)
    (hn : Completes d v no) :
    Completes d (k :: l :: w ++ r :: u ++ o :: v) (.ifElse test yes no) := by
  intro enclosing out
  obtain ⟨s', enclosing', hu, hyes⟩ := hy (.thenBranch test :: enclosing) out
  obtain ⟨s'', enclosing'', hv, hno⟩ := hn (.elseBranch test yes :: enclosing) out
  have helse : (Reading.clean (.finished s' enclosing') out).feed o =
      Reading.clean (.inside .statement (.elseBranch test yes :: enclosing)) out := by
    have hsettle : Stage.settle o.kind s' enclosing' = .atElse test yes enclosing := by
      rw [hyes o.kind nofun, Stage.settle, if_pos ho]
    simp [Reading.feed, Reading.clean, hsettle]
  refine ⟨s'', enclosing'', ?_, hno⟩
  rw [Reading.feeds_append, List.append_cons, Reading.feeds_append, if_condition hk hl ht hr, hu,
    Reading.feeds_cons, helse, hv]

theorem «while» {d : Bool} {k l r : Token} {w u : List Token} {test : Expr} {body : Stmt}
    (hk : k.kind = .kwWhile) (hl : l.kind = .leftParen) (ht : Phrase .expression w test)
    (hr : r.kind = .rightParen) (hb : Completes d u body) :
    Completes d (k :: l :: w ++ r :: u) (.while test body) := by
  intro enclosing out
  obtain ⟨s', enclosing', hu, hsettle⟩ := hb (.whileBody test :: enclosing) out
  refine ⟨s', enclosing', ?_, hsettle⟩
  have hwhile : Stage.step .statement enclosing k = .ok (.inside .whileParen enclosing) := by
    simp [Stage.step, Stage.statement, hk]
  have hparen : Stage.step .whileParen enclosing l =
      .ok (.inside (.operand [] .whileTest) enclosing) := if_pos hl
  rw [List.append_cons, Reading.feeds_append, condition hwhile hparen ht hr]
  exact hu

theorem «for» {d : Bool} {k l z r : Token} {w v x u : List Token} {init : Option Stmt}
    {test : Expr} {step : Option Expr} {body : Stmt} (hk : k.kind = .kwFor)
    (hl : l.kind = .leftParen) (hi : Initializer w init) (ht : Test v test)
    (hz : z.kind = .semicolon) (hx : Step x step) (hr : r.kind = .rightParen)
    (hb : Completes d u body) :
    Completes d (k :: l :: w ++ v ++ z :: x ++ r :: u) (loop init test step body) := by
  intro enclosing out
  obtain ⟨s', enclosing', hu, hsettle⟩ := hb (.forBody init test step :: enclosing) out
  refine ⟨s', enclosing', ?_, fun n hn => ?_⟩
  · have hfor : Stage.step .statement enclosing k = .ok (.inside .forParen enclosing) := by
      simp [Stage.step, Stage.statement, hk]
    have hparen : Stage.step .forParen enclosing l = .ok (.inside .forInit enclosing) := if_pos hl
    have htest : ((Reading.clean (.inside .forInit enclosing) out).feeds w).feeds (v ++ [z]) =
        Reading.clean (.inside (.forStep init test) enclosing) out := by
      rw [← ht.reads hz init enclosing out]
      obtain ⟨t, v', hv⟩ : ∃ t v', v ++ [z] = t :: v' := by cases v <;> simp
      rw [hv, ← Reading.feeds_settled, hi.reads enclosing out]
    have hword : k :: l :: w ++ v ++ z :: x ++ r :: u =
        k :: l :: (w ++ ((v ++ [z]) ++ ((x ++ [r]) ++ u))) := by simp
    rw [hword, Reading.feeds_cons, Reading.feed_of_step hfor, Reading.feeds_cons,
      Reading.feed_of_step hparen, Reading.feeds_append, Reading.feeds_append, htest,
      Reading.feeds_append, hx.reads hr, hu]
  · rw [hsettle n hn, loop_eq_counting]
    rfl

end Completes

namespace Adds

theorem nil : Adds [] [] := by
  intro enclosing out _ before r hr k hk
  rw [List.append_nil]
  exact hr k hk

theorem cons {d : Bool} {u v : List Token} {s : Stmt} {ss : List Stmt} (hs : Completes d u s)
    (hu : ∃ t u', u = t :: u' ∧ t.kind ≠ .kwElse) (hr : Adds v ss) : Adds (u ++ v) (s :: ss) := by
  intro enclosing out hg before r hbefore k hk
  obtain ⟨t, u', rfl, ht⟩ := hu
  obtain ⟨s', enclosing', hu, hsettle⟩ := hs (enclosing before) (out before)
  rw [Reading.feeds_append, ← Reading.feeds_settled, hbefore _ ht, hu, List.append_cons]
  refine hr enclosing out hg _ _ (fun n hn => ?_) k hk
  exact Reading.settled_congr (hsettle n fun _ => hn) (hg n s before)

end Adds

mutual

theorem Statement.completes : {d : Bool} → {w : List Token} → {s : Stmt} → Statement d w s →
    Completes d w s
  | _, _, _, .simple hs => Completes.simple hs
  | _, _, _, .print hk he hz => Completes.print hk he hz
  | _, _, _, .block hl hs hr => Completes.block hl hs.adds hr
  | _, _, _, .ifThen hk hl ht hr hy => Completes.ifThen hk hl ht hr hy.completes
  | _, _, _, .ifElse hk hl ht hr hy ho hn =>
    Completes.ifElse hk hl ht hr hy.completes ho hn.completes
  | _, _, _, .while hk hl ht hr hb => Completes.while hk hl ht hr hb.completes
  | _, _, _, .for hk hl hi ht hz hx hr hb => Completes.for hk hl hi ht hz hx hr hb.completes

theorem Statements.adds : {w : List Token} → {ss : List Stmt} → Statements w ss → Adds w ss
  | _, _, .nil => Adds.nil
  | _, _, .cons hs hr => Adds.cons hs.completes hs.head hr.adds

end

/-- A derivation of a program is read without error and gives the program. -/
theorem Statements.read {w : List Token} {ss : List Stmt} (h : Statements w ss) {e : Token}
    (he : e.kind = .eof) :
    ((Reading.start.feeds w).finish e).errors = [] ∧
      ((Reading.start.feeds w).finish e).statements.reverse = ss := by
  have hadds := h.adds _ _ gathers_program [] .start (fun _ _ => rfl) e.kind (he ▸ by decide)
  obtain ⟨herrors, hstatements⟩ := Reading.finish_settled (Reading.start.feeds w) e
  rw [← herrors, ← hstatements, hadds]
  exact ⟨rfl, List.reverse_reverse ss⟩

end Grammar

end TinyScript
