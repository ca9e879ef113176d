import TinyScript.Proofs.Bindings
import TinyScript.Proofs.Execution

/-!
Whether blocks have scopes of their own makes no difference to a program that declares the names
of its blocks only once. Without scopes the bindings of a finished block stay, but nothing that
runs with scopes can tell: it would read such a name only before it is declared.
-/

namespace TinyScript

mutual

/-- The names that a statement declares, as often as it does. -/
def Stmt.declared : Stmt → List String
  | .expression _ => []
  | .print _ => []
  | .declare x _ => [x.name]
  | .block body => declaredIn body
  | .ifThen _ yes => yes.declared
  | .ifElse _ yes no => yes.declared ++ no.declared
  | .while _ body => body.declared

def declaredIn : List Stmt → List String
  | [] => []
  | s :: ss => s.declared ++ declaredIn ss

end

/-- Those that are declared outside its blocks. -/
def Stmt.here : Stmt → List String
  | .expression _ => []
  | .print _ => []
  | .declare x _ => [x.name]
  | .block _ => []
  | .ifThen _ yes => yes.here
  | .ifElse _ yes no => yes.here ++ no.here
  | .while _ body => body.here

/-- Those that are declared inside one of its blocks. -/
def Stmt.nested : Stmt → List String
  | .expression _ => []
  | .print _ => []
  | .declare _ _ => []
  | .block body => declaredIn body
  | .ifThen _ yes => yes.nested
  | .ifElse _ yes no => yes.nested ++ no.nested
  | .while _ body => body.nested

def hereIn (ss : List Stmt) : List String := ss.flatMap Stmt.here

def nestedIn (ss : List Stmt) : List String := ss.flatMap Stmt.nested

/-- Each name declared inside a block is declared nowhere else in the program. -/
def NoClash (program : List Stmt) : Prop :=
  ∀ name ∈ nestedIn program, (declaredIn program).count name = 1

instance (program : List Stmt) : Decidable (NoClash program) :=
  inferInstanceAs (Decidable (∀ name ∈ nestedIn program, (declaredIn program).count name = 1))

mutual

/-- In no block is a name declared both in the block itself and in a block inside it. -/
def Stmt.Tidy : Stmt → Prop
  | .expression _ => True
  | .print _ => True
  | .declare _ _ => True
  | .block body => (∀ name ∈ nestedIn body, name ∉ hereIn body) ∧ TidyIn body
  | .ifThen _ yes => yes.Tidy
  | .ifElse _ yes no => yes.Tidy ∧ no.Tidy
  | .while _ body => body.Tidy

def TidyIn : List Stmt → Prop
  | [] => True
  | s :: ss => s.Tidy ∧ TidyIn ss

end

theorem Stmt.count_declared (s : Stmt) (name : String) :
    s.declared.count name = s.here.count name + s.nested.count name := by
  cases s with
  | expression | print | declare | block => simp [declared, here, nested]
  | ifThen _ yes => exact count_declared yes name
  | ifElse _ yes no =>
    have hyes := count_declared yes name
    have hno := count_declared no name
    simp only [declared, here, nested, List.count_append]
    omega
  | «while» _ body => exact count_declared body name

theorem count_declaredIn (ss : List Stmt) (name : String) :
    (declaredIn ss).count name = (hereIn ss).count name + (nestedIn ss).count name := by
  induction ss with
  | nil => rfl
  | cons s ss ih =>
    have hs := s.count_declared name
    rw [hereIn, nestedIn] at ih ⊢
    simp only [declaredIn, List.flatMap_cons, List.count_append]
    omega

theorem mem_declaredIn_of_here {ss : List Stmt} {name : String} (h : name ∈ hereIn ss) :
    name ∈ declaredIn ss := by
  have hcount := List.count_pos_iff.2 h
  rw [← List.count_pos_iff, count_declaredIn]
  omega

theorem mem_declaredIn_of_nested {ss : List Stmt} {name : String} (h : name ∈ nestedIn ss) :
    name ∈ declaredIn ss := by
  have hcount := List.count_pos_iff.2 h
  rw [← List.count_pos_iff, count_declaredIn]
  omega

/-- Where each name of a block is declared once, it is not declared in the block and inside. -/
theorem not_here_of_count {ss : List Stmt}
    (h : ∀ name ∈ nestedIn ss, (declaredIn ss).count name ≤ 1) :
    ∀ name ∈ nestedIn ss, name ∉ hereIn ss := by
  intro name hnested hhere
  have hcount := h name hnested
  rw [count_declaredIn] at hcount
  have hn := List.count_pos_iff.2 hnested
  have hh := List.count_pos_iff.2 hhere
  omega

mutual

theorem Stmt.tidy_of_count : ∀ s : Stmt,
    (∀ name ∈ s.nested, s.declared.count name ≤ 1) → s.Tidy
  | .expression _, _ | .print _, _ | .declare _ _, _ => trivial
  | .block body, h =>
    have hbody : ∀ name ∈ nestedIn body, (declaredIn body).count name ≤ 1 :=
      fun name hname => h name (mem_declaredIn_of_nested hname)
    ⟨not_here_of_count hbody, tidyIn_of_count body hbody⟩
  | .ifThen _ yes, h => yes.tidy_of_count h
  | .ifElse _ yes no, h =>
    have hle : ∀ name, (name ∈ yes.nested ∨ name ∈ no.nested) →
        yes.declared.count name + no.declared.count name ≤ 1 :=
      fun name hname => by
        rw [← List.count_append]
        exact h name (List.mem_append.2 hname)
    ⟨yes.tidy_of_count fun name hname => Nat.le_of_add_right_le (hle name (.inl hname)),
      no.tidy_of_count fun name hname => Nat.le_of_add_left_le (hle name (.inr hname))⟩
  | .while _ body, h => body.tidy_of_count h

theorem tidyIn_of_count : ∀ ss : List Stmt,
    (∀ name ∈ nestedIn ss, (declaredIn ss).count name ≤ 1) → TidyIn ss
  | [], _ => trivial
  | s :: ss, h =>
    have hle : ∀ name, (name ∈ s.nested ∨ name ∈ nestedIn ss) →
        s.declared.count name + (declaredIn ss).count name ≤ 1 :=
      fun name hname => by
        rw [← List.count_append]
        exact h name (List.mem_append.2 hname)
    ⟨s.tidy_of_count fun name hname => Nat.le_of_add_right_le (hle name (.inl hname)),
      tidyIn_of_count ss fun name hname => Nat.le_of_add_left_le (hle name (.inr hname))⟩

end

/-- No name is bound in two scopes. -/
def Apart (names : List (String → Bool)) : Prop :=
  names.Pairwise fun a b => ∀ name, a name → b name = false

/-- `outer` are the names of the open scopes around the innermost one, which binds `bound`. What
`ss` declares for itself is in none of the outer scopes, and what it declares inside its blocks is
in no open scope at all. -/
structure Fits (ss : List Stmt) (bound : String → Bool) (outer : List (String → Bool)) : Prop where
  apart : Apart (bound :: outer)
  here : ∀ name ∈ hereIn ss, ∀ b ∈ outer, b name = false
  nested : ∀ name ∈ nestedIn ss, name ∉ hereIn ss ∧ ∀ b ∈ bound :: outer, b name = false
  tidy : TidyIn ss

namespace Fits

variable {s : Stmt} {ss ts : List Stmt} {bound : String → Bool} {outer : List (String → Bool)}

theorem mono (h : Fits ss bound outer) (hhere : ∀ name ∈ hereIn ts, name ∈ hereIn ss)
    (hnested : ∀ name ∈ nestedIn ts, name ∈ nestedIn ss) (htidy : TidyIn ts) :
    Fits ts bound outer where
  apart := h.apart
  here name hname := h.here name (hhere name hname)
  nested name hname := by
    obtain ⟨hnot, hfree⟩ := h.nested name (hnested name hname)
    exact ⟨fun hts => hnot (hhere name hts), hfree⟩
  tidy := htidy

theorem tail (h : Fits (s :: ss) bound outer) : Fits ss bound outer := by
  refine h.mono (fun name hname => ?_) (fun name hname => ?_) h.tidy.2
  · exact List.mem_append_right _ hname
  · exact List.mem_append_right _ hname

/-- A statement may give way to a part of it. -/
theorem part {t : Stmt} (h : Fits (s :: ss) bound outer)
    (hhere : ∀ name ∈ t.here, name ∈ s.here) (hnested : ∀ name ∈ t.nested, name ∈ s.nested)
    (ht : t.Tidy) : Fits (t :: ss) bound outer := by
  refine h.mono (fun name hname => ?_) (fun name hname => ?_) ⟨ht, h.tidy.2⟩
  · obtain hname | hname := List.mem_append.1 hname
    · exact List.mem_append_left _ (hhere name hname)
    · exact List.mem_append_right _ hname
  · obtain hname | hname := List.mem_append.1 hname
    · exact List.mem_append_left _ (hnested name hname)
    · exact List.mem_append_right _ hname

theorem again {test : Expr} {body : Stmt} (h : Fits (.while test body :: ss) bound outer) :
    Fits (body :: .while test body :: ss) bound outer := by
  refine h.mono (fun name hname => ?_) (fun name hname => ?_) ⟨h.tidy.1, h.tidy⟩
  · obtain hname | hname := List.mem_append.1 hname
    · exact List.mem_append_left _ hname
    · exact hname
  · obtain hname | hname := List.mem_append.1 hname
    · exact List.mem_append_left _ hname
    · exact hname

theorem block {body : List Stmt} (h : Fits (.block body :: ss) bound outer) :
    Fits body (fun _ => false) (bound :: outer) where
  apart := List.pairwise_cons.2 ⟨nofun, h.apart⟩
  here name hname :=
    (h.nested name (List.mem_append_left _ (mem_declaredIn_of_here hname))).2
  nested name hname := by
    refine ⟨h.tidy.1.1 name hname, List.forall_mem_cons.2 ⟨rfl, ?_⟩⟩
    exact (h.nested name (List.mem_append_left _ (mem_declaredIn_of_nested hname))).2
  tidy := h.tidy.1.2

theorem declare {x : Ident} {e : Expr} (h : Fits (.declare x e :: ss) bound outer) :
    Fits ss (fun name => decide (name = x.name) || bound name) outer where
  apart := by
    obtain ⟨hbound, houter⟩ := List.pairwise_cons.1 h.apart
    refine List.pairwise_cons.2 ⟨fun b hb name hname => ?_, houter⟩
    by_cases hx : name = x.name
    · exact h.here name (by simp [hereIn, Stmt.here, hx]) b hb
    · exact hbound b hb name (by simpa [hx] using hname)
  here := h.tail.here
  nested name hname := by
    obtain ⟨hnot, hfree⟩ := h.nested name (List.mem_append_right _ hname)
    obtain ⟨hbound, houter⟩ := List.forall_mem_cons.1 hfree
    have hx : name ≠ x.name := by
      rintro rfl
      exact hnot (by simp [hereIn, Stmt.here])
    refine ⟨(h.tail.nested name hname).1, List.forall_mem_cons.2 ⟨?_, houter⟩⟩
    simp [hx, hbound]
  tidy := h.tidy.2

/-- What runs next fits again: only a declaration binds a name, in the innermost scope. -/
theorem goOn {m : Machine} (hnames : m.env.names = bound :: outer)
    (h : Fits (s :: ss) bound outer) (v : Value) :
    ∃ bound', (s.goOn m v).1.env.names = bound' :: outer ∧
      Fits ((s.goOn m v).2 ++ ss) bound' outer := by
  cases s with
  | expression | print | block => exact ⟨bound, hnames, h.tail⟩
  | declare x e => exact ⟨_, Environment.names_define hnames x.name v, h.declare⟩
  | ifThen test yes =>
    refine ⟨bound, hnames, ?_⟩
    rw [Stmt.goOn]
    split
    · exact h.part (fun _ => id) (fun _ => id) h.tidy.1
    · exact h.tail
  | ifElse test yes no =>
    refine ⟨bound, hnames, ?_⟩
    rw [Stmt.goOn]
    split
    · exact h.part (fun _ => List.mem_append_left _) (fun _ => List.mem_append_left _) h.tidy.1.1
    · exact h.part (fun _ => List.mem_append_right _) (fun _ => List.mem_append_right _)
        h.tidy.1.2
  | «while» test body =>
    refine ⟨bound, hnames, ?_⟩
    rw [Stmt.goOn]
    split
    · exact h.again
    · exact h.tail

end Fits

/-- With scopes and without, the same names have the same values, as far as both have them. -/
structure Covers (l f : Environment) : Prop where
  lexical : l.mode = .lexical
  flat : f.mode = .flat
  inner : f.inner = []
  lookup : ∀ name v, l.lookup name = some v → f.lookup name = some v

/-- The error is that of a name that is not bound. -/
def RuntimeError.Unbound (x : RuntimeError) : Prop :=
  x.fault.code = .undefinedVariable ∨ x.fault.code = .undeclaredAssignment

theorem not_unbound_of_ok (v : Value) (y : RuntimeError)
    (h : (.ok v : Except RuntimeError Value) = .error y) : ¬ y.Unbound := by
  cases h

theorem not_unbound_of_none (y : RuntimeError) (h : none = some y) : ¬ y.Unbound := by
  cases h

namespace Covers

variable {l l' f : Environment}

theorem define (h : Covers l f) (x : String) (v : Value) :
    Covers (l.define x v) (f.define x v) where
  lexical := (l.mode_define x v).trans h.lexical
  flat := (f.mode_define x v).trans h.flat
  inner := by rw [Environment.define, h.inner]
  lookup name w hname := by
    rw [Environment.lookup_define] at hname ⊢
    split at hname
    · next hx => rw [if_pos hx, hname]
    · next hx =>
      rw [if_neg hx]
      exact h.lookup name w hname

theorem push (h : Covers l f) : Covers l.push f.push := by
  have hf : f.push = f := by
    rw [Environment.push, h.flat]
  rw [hf]
  refine ⟨?_, h.flat, h.inner, fun name w hname => ?_⟩
  · rw [Environment.push, h.lexical]
  · rw [Environment.lookup_push] at hname
    exact h.lookup name w hname

/-- A scope may be closed if it hides no name. -/
theorem pop {bound : String → Bool} {outer : List (String → Bool)} (h : Covers l f)
    (hnames : l.names = bound :: outer) (houter : outer ≠ [])
    (hapart : Apart (bound :: outer)) : Covers l.pop f.pop := by
  have hf : f.pop.inner = [] := by
    rw [Environment.pop, h.inner]
    rfl
  refine ⟨h.lexical, h.flat, hf, fun name w hname => ?_⟩
  have hbound : bound name = false := by
    have hsome : l.pop.names.any (· name) := by
      rw [← Environment.lookup_isSome, hname]
      rfl
    rw [Environment.names_pop hnames houter, List.any_eq_true] at hsome
    obtain ⟨b, hb, hbname⟩ := hsome
    rw [Bool.eq_false_iff]
    intro hn
    have hfalse := (List.pairwise_cons.1 hapart).1 b hb name hn
    rw [hbname] at hfalse
    cases hfalse
  rw [Environment.lookup_pop hnames houter hbound] at hname
  have hlook := h.lookup name w hname
  rwa [Environment.pop, h.inner, List.tail_nil, ← h.inner]

theorem store {x : Ident} {v : Value} {r : Except RuntimeError Value} (h : Covers l f)
    (hl : l.store x v = (l', r)) (hr : ∀ y, r = .error y → ¬ y.Unbound) :
    ∃ f', f.store x v = (f', r) ∧ Covers l' f' := by
  obtain ⟨-, hassign⟩ | ⟨env, hassign, hsome, hlook, -, hmode, -⟩ := l.assign_spec x.name v
  · rw [Environment.store, hassign] at hl
    cases hl
    exact absurd (.inr rfl) (hr _ rfl)
  · rw [Environment.store, hassign] at hl
    cases hl
    obtain ⟨w, hw⟩ := Option.isSome_iff_exists.1 hsome
    have hf := h.lookup x.name w hw
    obtain ⟨hnone, -⟩ | ⟨env', hassign', -, hlook', -, hmode', hlength'⟩ :=
      f.assign_spec x.name v
    · rw [hf] at hnone
      cases hnone
    · refine ⟨env', by rw [Environment.store, hassign'], hmode.trans h.lexical,
        hmode'.trans h.flat, ?_, fun name w hname => ?_⟩
      · rw [h.inner] at hlength'
        exact List.eq_nil_of_length_eq_zero hlength'
      · rw [hlook] at hname
        rw [hlook']
        split at hname
        · next hx => rw [if_pos hx, hname]
        · next hx =>
          rw [if_neg hx]
          exact h.lookup name w hname

theorem eval {e : Expr} {r : Except RuntimeError Value} (h : Covers l f)
    (hl : e.eval l = (l', r)) (hr : ∀ y, r = .error y → ¬ y.Unbound) :
    ∃ f', e.eval f = (f', r) ∧ Covers l' f' := by
  induction e generalizing l l' f r with
  | literal v =>
    cases hl
    exact ⟨f, rfl, h⟩
  | group e ih => exact ih h hl hr
  | unary op line e ih =>
    rcases he : e.eval l with ⟨l₁, y | v⟩
    · rw [Expr.eval, he] at hl
      cases hl
      obtain ⟨f', hf, h'⟩ := ih h he hr
      exact ⟨f', by rw [Expr.eval, hf], h'⟩
    · simp only [Expr.eval, he, Evaluated.ofOperation_eq] at hl
      cases hl
      obtain ⟨f', hf, h'⟩ := ih h he (not_unbound_of_ok _)
      exact ⟨f', by simp only [Expr.eval, hf, Evaluated.ofOperation_eq], h'⟩
  | binary op line a b iha ihb =>
    rcases ha : a.eval l with ⟨l₁, y | v⟩
    · rw [Expr.eval, ha] at hl
      cases hl
      obtain ⟨f', hf, h'⟩ := iha h ha hr
      exact ⟨f', by rw [Expr.eval, hf], h'⟩
    · obtain ⟨f₁, hfa, h₁⟩ := iha h ha (not_unbound_of_ok _)
      rcases hb : b.eval l₁ with ⟨l₂, y | w⟩
      · simp only [Expr.eval, ha, hb] at hl
        cases hl
        obtain ⟨f', hfb, h'⟩ := ihb h₁ hb hr
        exact ⟨f', by simp only [Expr.eval, hfa, hfb], h'⟩
      · simp only [Expr.eval, ha, hb, Evaluated.ofOperation_eq] at hl
        cases hl
        obtain ⟨f', hfb, h'⟩ := ihb h₁ hb (not_unbound_of_ok _)
        exact ⟨f', by simp only [Expr.eval, hfa, hfb, Evaluated.ofOperation_eq], h'⟩
  | logical op a b iha ihb =>
    rcases ha : a.eval l with ⟨l₁, y | v⟩
    · rw [Expr.eval, ha] at hl
      cases hl
      obtain ⟨f', hf, h'⟩ := iha h ha hr
      exact ⟨f', by rw [Expr.eval, hf], h'⟩
    · obtain ⟨f₁, hfa, h₁⟩ := iha h ha (not_unbound_of_ok _)
      simp only [Expr.eval, ha] at hl
      simp only [Expr.eval, hfa]
      split at hl
      · next hdecides =>
        cases hl
        exact ⟨f₁, if_pos hdecides, h₁⟩
      · next hdecides =>
        rw [if_neg hdecides]
        exact ihb h₁ hl hr
  | assign x e ih =>
    rcases he : e.eval l with ⟨l₁, y | v⟩
    · rw [Expr.eval, he] at hl
      cases hl
      obtain ⟨f', hf, h'⟩ := ih h he hr
      exact ⟨f', by rw [Expr.eval, hf], h'⟩
    · rw [Expr.eval, he] at hl
      obtain ⟨f₁, hf, h₁⟩ := ih h he (not_unbound_of_ok _)
      rw [Expr.eval, hf]
      exact h₁.store hl hr
  | var x =>
    rw [Expr.eval, Environment.read] at hl
    rw [Expr.eval, Environment.read]
    split at hl
    · next v hv =>
      cases hl
      rw [h.lookup x.name v hv]
      exact ⟨f, rfl, h⟩
    · cases hl
      exact absurd (.inl rfl) (hr _ rfl)

end Covers

/-- The machine `f` without scopes is where `l` is with them. -/
structure Follows (l f : Machine) : Prop where
  env : Covers l.env f.env
  sink : f.sink = l.sink

namespace Follows

variable {l l' f : Machine}

theorem evaluate {e : Expr} {r : Except RuntimeError Value} (h : Follows l f)
    (hl : l.evaluate e = (l', r)) (hr : ∀ y, r = .error y → ¬ y.Unbound) :
    ∃ f', f.evaluate e = (f', r) ∧ Follows l' f' ∧ l'.env.names = l.env.names := by
  rw [Machine.evaluate_eq] at hl
  cases hl
  obtain ⟨env, hf, henv⟩ := h.env.eval rfl hr
  exact ⟨⟨env, f.sink⟩, by rw [Machine.evaluate_eq, hf], ⟨henv, h.sink⟩, e.names_eval l.env⟩

theorem goOn (h : Follows l f) (v : Value) (s : Stmt) :
    Follows (s.goOn l v).1 (s.goOn f v).1 ∧ (s.goOn f v).2 = (s.goOn l v).2 := by
  cases s with
  | print => exact ⟨⟨h.env, congrArg (Sink.printLine _) h.sink⟩, rfl⟩
  | declare x e => exact ⟨⟨h.env.define x.name v, h.sink⟩, rfl⟩
  | _ => exact ⟨h, rfl⟩

theorem push (h : Follows l f) : Follows l.push f.push := ⟨h.env.push, h.sink⟩

theorem pop {bound : String → Bool} {outer : List (String → Bool)} (h : Follows l f)
    (hnames : l.env.names = bound :: outer) (houter : outer ≠ [])
    (hapart : Apart (bound :: outer)) : Follows l.pop f.pop :=
  ⟨h.env.pop hnames houter hapart, h.sink⟩

end Follows

/-- A run with scopes can be followed without them. The scopes around the innermost one bind the
same names after it as before. -/
theorem Exec.without_scopes {l l' f : Machine} {ss : List Stmt} {x : Option RuntimeError}
    {bound : String → Bool} {outer : List (String → Bool)} (h : Exec l ss l' x)
    (hx : ∀ y, x = some y → ¬ y.Unbound) (hf : Follows l f)
    (hnames : l.env.names = bound :: outer) (hfits : Fits ss bound outer) :
    ∃ f' bound', Exec f ss f' x ∧ Follows l' f' ∧ l'.env.names = bound' :: outer ∧
      Apart (bound' :: outer) := by
  induction h generalizing f bound outer with
  | done => exact ⟨f, bound, .done, hf, hnames, hfits.apart⟩
  | @goes l l₁ l' s ss e v x he hv h ih =>
    obtain ⟨f₁, hfv, hf₁, hnames₁⟩ := hf.evaluate hv (not_unbound_of_ok _)
    obtain ⟨bound₁, hbound₁, hfits₁⟩ := hfits.goOn (hnames₁.trans hnames) v
    obtain ⟨hgo, hnext⟩ := hf₁.goOn v s
    obtain ⟨f', bound', hrun, hrest⟩ := ih hx hgo hbound₁ hfits₁
    rw [← hnext] at hrun
    exact ⟨f', bound', .goes he hfv hrun, hrest⟩
  | @fails l l' s ss e y he hy =>
    have hr : ∀ z, (.error y : Except RuntimeError Value) = .error z → ¬ z.Unbound := by
      rintro z ⟨⟩
      exact hx y rfl
    obtain ⟨f', hfy, hf', hnames'⟩ := hf.evaluate hy hr
    exact ⟨f', bound, .fails he hfy, hf', hnames'.trans hnames, hfits.apart⟩
  | @block l l₁ l' body ss x _ _ ihbody ih =>
    have hpush : l.push.env.names = (fun _ => false) :: bound :: outer :=
      (Environment.names_push hf.env.lexical).trans (congrArg _ hnames)
    obtain ⟨f₁, inner, hbody, hf₁, hinner, hapart⟩ :=
      ihbody not_unbound_of_none hf.push hpush hfits.block
    have hpop : l₁.pop.env.names = bound :: outer :=
      Environment.names_pop hinner (List.cons_ne_nil _ _)
    obtain ⟨f', bound', hrun, hrest⟩ :=
      ih hx (hf₁.pop hinner (List.cons_ne_nil _ _) hapart) hpop hfits.tail
    exact ⟨f', bound', .block hbody hrun, hrest⟩
  | @blockFails l l₁ body ss y _ ihbody =>
    have hpush : l.push.env.names = (fun _ => false) :: bound :: outer :=
      (Environment.names_push hf.env.lexical).trans (congrArg _ hnames)
    obtain ⟨f₁, inner, hbody, hf₁, hinner, hapart⟩ := ihbody hx hf.push hpush hfits.block
    have hpop : l₁.pop.env.names = bound :: outer :=
      Environment.names_pop hinner (List.cons_ne_nil _ _)
    exact ⟨f₁.pop, bound, .blockFails hbody, hf₁.pop hinner (List.cons_ne_nil _ _) hapart, hpop,
      hfits.apart⟩

theorem fits_of_noClash {program : List Stmt} (h : NoClash program) :
    Fits program (Scope.binds []) [] where
  apart := List.pairwise_singleton _ _
  here := nofun
  nested name hname := by
    refine ⟨not_here_of_count (fun n hn => Nat.le_of_eq (h n hn)) name hname, ?_⟩
    exact List.forall_mem_singleton.2 rfl
  tidy := tidyIn_of_count program fun n hn => Nat.le_of_eq (h n hn)

/-- A program without name clashes that runs with scopes for its blocks, and not into a name that
is not bound, runs without them to the same end: the same text, the same error if there is one,
and the same values of the global names. -/
theorem flat_run_of_lexical_run {program : List Stmt} (hclash : NoClash program)
    {rounds : Nat} {sink : Sink} {m : Machine} {x : Option RuntimeError}
    (hrun : Machine.run rounds ⟨.new .lexical, sink⟩ program = some (m, x))
    (hx : ∀ y, x = some y →
      y.fault.code ≠ .undefinedVariable ∧ y.fault.code ≠ .undeclaredAssignment) :
    ∃ rounds' m', Machine.run rounds' ⟨.new .flat, sink⟩ program = some (m', x) ∧
      m'.sink = m.sink ∧
      ∀ name v, m.env.global.find? name = some v → m'.env.global.find? name = some v := by
  have hbound : ∀ y, x = some y → ¬ y.Unbound := by
    rintro y hy (h | h)
    · exact (hx y hy).1 h
    · exact (hx y hy).2 h
  have hstart : Follows ⟨.new .lexical, sink⟩ ⟨.new .flat, sink⟩ :=
    ⟨⟨rfl, rfl, rfl, nofun⟩, rfl⟩
  have hexec := Machine.run_iff_exec.1 ⟨rounds, hrun⟩
  obtain ⟨m', bound, hflat, hfollows, hnames, -⟩ :=
    hexec.without_scopes hbound hstart rfl (fits_of_noClash hclash)
  obtain ⟨rounds', hrun'⟩ := Machine.run_iff_exec.2 hflat
  refine ⟨rounds', m', hrun', hfollows.sink, fun name v hname => ?_⟩
  -- at the end no block is open, on either side
  have hinner : m.env.inner = [] := by
    have hlength := congrArg List.length hnames
    simpa [Environment.names, Environment.scopes] using hlength
  have hlook := hfollows.env.lookup name v (by rw [Environment.lookup, hinner]; exact hname)
  rwa [Environment.lookup, hfollows.env.inner] at hlook

/-- `var s = "a"; while (s) { var t = "b"; print s + t; s = null; }` -/
def loopWithLocal : List Stmt :=
  [.declare ⟨"s", 1⟩ (.literal (.text "a")),
    .while (.var ⟨"s", 1⟩) (.block [.declare ⟨"t", 1⟩ (.literal (.text "b")),
      .print (.binary .add 1 (.var ⟨"s", 1⟩) (.var ⟨"t", 1⟩)),
      .expression (.assign ⟨"s", 1⟩ (.literal .null))])]

theorem loopWithLocal_flat_run :
    NoClash loopWithLocal ∧
      ∃ rounds m, Machine.run rounds ⟨.new .flat, .buffer ""⟩ loopWithLocal = some (m, none) ∧
        m.sink = .buffer "ab\n" ∧ m.env.global.find? "s" = some .null := by
  have hclash : NoClash loopWithLocal := by decide
  have hrun : Machine.run 1 ⟨.new .lexical, .buffer ""⟩ loopWithLocal =
      some (⟨⟨.lexical, [], [("s", .null)]⟩, .buffer "ab\n"⟩, none) := by
    simp [loopWithLocal, Machine.run, Machine.execute, Machine.evaluate_eq, Expr.eval,
      Environment.new, Environment.define, Environment.push, Environment.pop, Environment.read,
      Environment.store, Environment.assign, Environment.lookup, Scope.insert, Scope.binds,
      Scope.find?, Evaluated.ofOperation, BinaryOp.apply, BinaryOp.sum, Value.truthy,
      Value.display, Sink.printLine]
  have hnone : ∀ y : RuntimeError, none = some y →
      y.fault.code ≠ .undefinedVariable ∧ y.fault.code ≠ .undeclaredAssignment := by
    rintro y ⟨⟩
  obtain ⟨rounds, m, hflat, hsink, hglobal⟩ := flat_run_of_lexical_run hclash hrun hnone
  exact ⟨hclash, rounds, m, hflat, hsink, hglobal "s" .null rfl⟩

end TinyScript
