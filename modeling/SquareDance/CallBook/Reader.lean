/-
# Readers of bytes

A reader takes what it needs from the front of some bytes and leaves the rest.
When it cannot go on it reports a fault; the fault names a place by the number of
bytes that were left there, so that it does not depend on what went before.
-/

import SquareDance.Consumer

namespace SquareDance
namespace CallBook

/-- A fault of a reader.  A place is given by the number of bytes left there. -/
inductive Fault where
  | truncated
  | badMagic (found : UInt16)
  | unsupportedVersion (found : UInt16)
  | unexpectedRecord (left : Nat) (word : UInt16)
  | unknownLevel (level : UInt16)
  | unknownSchema (schema : UInt8)
  | unknownSetup (setup : UInt16)
  | unknownPredicate (predicate : UInt16)
  | badEntry (word : UInt16)
  | invalidText (left : Nat)
  deriving DecidableEq, Inhabited

/-- A reader takes what it needs from the front of the bytes. -/
abbrev Reader := Consumer Fault (List UInt8)

namespace Reader

/-- The halfword of two bytes. -/
def halfwordOf (a b : UInt8) : UInt16 := a.toUInt16 <<< 8 ||| b.toUInt16

/-- The word of four bytes. -/
def fullwordOf (a b c d : UInt8) : UInt32 :=
  a.toUInt32 <<< 24 ||| b.toUInt32 <<< 16 ||| c.toUInt32 <<< 8 ||| d.toUInt32

/-- Read a byte. -/
def byte : Reader UInt8
  | a :: rest => .ok (a, rest)
  | _ => .error .truncated

/-- Read a halfword. -/
def halfword : Reader UInt16
  | a :: b :: rest => .ok (halfwordOf a b, rest)
  | _ => .error .truncated

/-- Read a word. -/
def fullword : Reader UInt32
  | a :: b :: c :: d :: rest => .ok (fullwordOf a b c d, rest)
  | _ => .error .truncated

/-- Read some bytes. -/
def take (n : Nat) : Reader (List UInt8) := fun bytes =>
  if n ≤ bytes.length then .ok (bytes.take n, bytes.drop n) else .error .truncated

/-- A byte is taken. -/
theorem takes_byte : byte.Takes := by
  intro bytes x rest h
  unfold byte at h
  split at h <;> cases h
  exact Nat.lt_succ_self _

/-- Two bytes are taken. -/
theorem takes_halfword : halfword.Takes := by
  intro bytes x rest h
  unfold halfword at h
  split at h <;> cases h
  exact Nat.lt_add_of_pos_right (k := 2) (by decide)

/-- Four bytes are taken. -/
theorem takes_fullword : fullword.Takes := by
  intro bytes x rest h
  unfold fullword at h
  split at h <;> cases h
  exact Nat.lt_add_of_pos_right (k := 4) (by decide)

/-- Some bytes are taken, which may be none. -/
theorem keeps_take (n : Nat) : (take n).Keeps := by
  intro bytes x rest h
  unfold take at h
  split at h <;> cases h
  simp [Sized.size]

end Reader
end CallBook
end SquareDance
