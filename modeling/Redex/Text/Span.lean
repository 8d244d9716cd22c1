/-! Half-open ranges of offsets into a source text. A span read from a tree
need not be ordered. -/
namespace Redex

structure Span where
  start : Nat
  stop : Nat
  deriving DecidableEq, Repr

namespace Span

def length (s : Span) : Nat := s.stop - s.start

def isEmpty (s : Span) : Bool := decide (s.stop ≤ s.start)

/-- The smallest span over both. -/
def cover (s t : Span) : Span := ⟨min s.start t.start, max s.stop t.stop⟩

def toText (s : Span) : String := s!"[{s.start}, {s.stop})"

theorem isEmpty_iff (s : Span) : s.isEmpty = true ↔ s.length = 0 := by
  simp only [isEmpty, length, decide_eq_true_eq]
  omega

end Span
end Redex
