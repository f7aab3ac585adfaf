/-!
# Positions and spans

Rows and columns start at zero, and a column counts bytes from the start of its row.  A span is a
stretch of one text, given by the bytes it covers and by the positions of its two ends.
-/

namespace CodeAtlas

/-- A place in a text. -/
structure Position where
  row : Nat
  column : Nat
deriving DecidableEq, Repr, Inhabited

/-- A stretch of a text; the end is the place just behind it. -/
structure Span where
  startByte : Nat
  endByte : Nat
  start : Position
  stop : Position
deriving DecidableEq, Repr, Inhabited

namespace Span

/-- The number of row ends inside the span.  Rows are counted in words of 64 bits, so that the
distance back to an earlier row goes around the end of the counter. -/
def rows (s : Span) : Nat :=
  (s.stop.row + UInt64.size - s.start.row) % UInt64.size

/-- The rows of `inner` lie among the rows of `outer`. -/
def rowsWithin (inner outer : Span) : Bool :=
  outer.start.row ≤ inner.start.row && inner.stop.row ≤ outer.stop.row

/-- The two spans cover the same rows. -/
def sameRows (a b : Span) : Bool :=
  a.start.row == b.start.row && a.stop.row == b.stop.row

/-- The bytes of `inner` lie among the bytes of `outer`. -/
def byteContains (outer inner : Span) : Bool :=
  outer.startByte ≤ inner.startByte && inner.endByte ≤ outer.endByte

end Span
end CodeAtlas
