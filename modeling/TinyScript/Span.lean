/-!
Byte ranges of the source, in UTF-8, end exclusive.
-/

namespace TinyScript

structure Span where
  start : Nat
  stop : Nat
deriving DecidableEq, Repr

namespace Span

/-- Offsets are kept in 32 bits; larger ones all become the largest. -/
def limit : Nat := 4294967295

def ofOffsets (start stop : Nat) : Span := ⟨min start limit, min stop limit⟩

def display (s : Span) : String := toString s.start ++ ".." ++ toString s.stop

end Span

end TinyScript
