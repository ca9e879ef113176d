import TinyScript.Token.Kind

/-!
Sets of token kinds, one bit per kind.
-/

namespace TinyScript

structure TokenSet where
  bits : Nat
deriving DecidableEq, Repr

namespace TokenSet

def empty : TokenSet := ⟨0⟩

def contains (s : TokenSet) (k : TokenKind) : Bool := s.bits.testBit k.index

def insert (s : TokenSet) (k : TokenKind) : TokenSet := ⟨s.bits ||| 1 <<< k.index⟩

def ofList (ks : List TokenKind) : TokenSet := ks.foldl insert empty

/-- The members, in the order of the kinds. -/
def toList (s : TokenSet) : List TokenKind := TokenKind.all.filter s.contains

/-- The tokens that can only begin a statement. -/
def statementStart : TokenSet :=
  ofList [.kwVar, .kwFor, .kwIf, .kwWhile, .kwPrint, .leftBrace]

theorem index_inj {a b : TokenKind} (h : a.index = b.index) : a = b := by
  revert h
  cases a <;> cases b <;> decide

theorem contains_insert (s : TokenSet) (k l : TokenKind) :
    (s.insert k).contains l = (s.contains l || decide (k = l)) := by
  have : (k.index = l.index) ↔ k = l := ⟨index_inj, fun h => h ▸ rfl⟩
  simp [contains, insert, Nat.one_shiftLeft, Nat.testBit_or, Nat.testBit_two_pow, this]

theorem mem_toList {s : TokenSet} {k : TokenKind} : k ∈ s.toList ↔ s.contains k = true := by
  simp [toList, TokenKind.mem_all]

end TokenSet

end TinyScript
