/-!
# Spans

A span is a range of byte offsets into the UTF-8 source text; its end is exclusive.
-/

namespace SmallCpp

/-- The bytes from `start` up to, and without, `stop`. -/
structure Span where
  /-- Offset of the first byte. -/
  start : Nat
  /-- Offset just after the last byte. -/
  stop : Nat
deriving DecidableEq, Inhabited, Repr

namespace Span

/-- The number of bytes covered; a span that ends before it starts covers none. -/
def length (s : Span) : Nat :=
  s.stop - s.start

/-- The smallest span that covers both. -/
def join (s t : Span) : Span :=
  ⟨min s.start t.start, max s.stop t.stop⟩

end Span

end SmallCpp
