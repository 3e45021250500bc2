/-!
# Source spans

A span says where a piece of a program was written: two byte offsets, and the
line and column at which the region starts.  Code that nobody wrote, such as a
generated constructor, carries the absent span.
-/

namespace Callsite

/-- A contiguous region of source text; lines and columns count from one. -/
structure Span where
  start : UInt64
  stop : UInt64
  line : UInt32
  column : UInt32
  deriving DecidableEq, Repr

namespace Span

/-- The span of code that nobody wrote. -/
def absent : Span := ⟨0, 0, 0, 0⟩

instance : Inhabited Span := ⟨absent⟩

/-- A span is absent when it has neither offsets nor a line; the column is not looked at. -/
def isAbsent (s : Span) : Bool :=
  s.line == 0 && s.start == 0 && s.stop == 0

def length (s : Span) : UInt64 :=
  s.stop - s.start

def isEmpty (s : Span) : Bool :=
  s.start == s.stop

/-- The least span covering both; its line and column are those of the operand that
starts first, the left one on a tie. -/
def merge (a b : Span) : Span :=
  let first := if a.start ≤ b.start then a else b
  { start := if a.start ≤ b.start then a.start else b.start
    stop := if a.stop ≤ b.stop then b.stop else a.stop
    line := first.line
    column := first.column }

/-- Line and column, as messages show them. -/
def position (s : Span) : String :=
  toString s.line.toNat ++ ":" ++ toString s.column.toNat

@[simp] theorem isAbsent_absent : absent.isAbsent = true := rfl

end Span

end Callsite
