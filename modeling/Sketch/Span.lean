/-!
# Spans

A span says which bytes of a command a tree or an error belongs to: those from `start` up to,
and not including, `stop`.  Both ends are kept in 32 bits, so positions are taken modulo `2³²`.
A span that starts at the greatest 32-bit number belongs nowhere.
-/

namespace Sketch

/-- The bytes from `start` up to `stop`. -/
structure Span where
  /-- The position of the first byte. -/
  start : UInt32
  /-- The position after the last byte. -/
  stop : UInt32
deriving DecidableEq

namespace Span

/-- The span of what comes from no command. -/
def nowhere : Span := ⟨0xffffffff, 0xffffffff⟩

/-- Whether a span belongs to some command. -/
def isPlaced (s : Span) : Bool := s.start != nowhere.start

/-- The span of the given number of bytes from a position on. -/
def ofExtent (position length : Nat) : Span :=
  ⟨.ofNat position, .ofNat (position + length)⟩

/-- The number of bytes in a span.  There are none if it belongs nowhere or ends before it
starts. -/
def length (s : Span) : Nat :=
  if s.isPlaced then s.stop.toNat - s.start.toNat else 0

/-- The span itself if it belongs to some command, and `other` if not. -/
def orElse (s other : Span) : Span := if s.isPlaced then s else other

end Span

end Sketch
