/-
# Ordinal designators

"First two", "leftmost one": people are counted along each row of a 2x4, 1x8,
1x4 or 2x2.  Everyone must face along the rows (first, last) or across them
(leftmost, rightmost), and the two rows of a 2x4, 1x8 or 2x2 face opposite
ways.  To name a whole row or more is illegal.  Where the facing does not fit, an
eight-person setup cannot be judged, and in a smaller one the ordinal has no
meaning.
-/

import SquareDance.Designator
import SquareDance.Formation

namespace SquareDance
namespace Formation

/-- How a setup lies in rows for counting. -/
structure Rows where
  /-- People in a row. -/
  length : Nat
  /-- The place of a slot along its row. -/
  position : Nat → Nat
  /-- The direction word of everyone facing forward along the rows. -/
  forward : UInt32
  /-- The direction word of everyone facing backward along the rows. -/
  backward : UInt32
  /-- The direction word of everyone facing across, counted forward. -/
  acrossForward : UInt32
  /-- The direction word of everyone facing across, counted backward. -/
  acrossBackward : UInt32
  /-- The error for people who face in another way. -/
  mismatch : DesignatorError

/-- The rows of a setup, if people can be counted in it. -/
def rows? : Setup → Option Rows
  | .grid2x4 => some
    { length := 4, position := fun s => s % 4
      forward := 0x55FF, backward := 0xFF55, acrossForward := 0x00AA, acrossBackward := 0xAA00
      mismatch := .cannotDetermine }
  | .line8 => some
    { length := 4, position := fun s => (s ^^^ s % 4 / 2) % 4
      forward := 0x55FF, backward := 0xFF55, acrossForward := 0x00AA, acrossBackward := 0xAA00
      mismatch := .cannotDetermine }
  | .line4 => some
    { length := 4, position := fun s => (s ^^^ s / 2) % 4
      forward := 0x55, backward := 0xFF, acrossForward := 0x00, acrossBackward := 0xAA
      mismatch := .illegalDesignator }
  | .box => some
    { length := 2, position := fun s => s % 2
      forward := 0x5F, backward := 0xF5, acrossForward := 0x0A, acrossBackward := 0xA0
      mismatch := .illegalDesignator }
  | _ => none

/-- The place of a slot in its row, counted from the last or the leftmost, for
people who face as the ordinal asks. -/
def rank (f : Formation) (r : Rows) (along : Bool) (slot : Nat) : Except DesignatorError Nat :=
  let forward := if along then r.forward else r.acrossForward
  let backward := if along then r.backward else r.acrossBackward
  if f.directionsWord = f.liveWord &&& forward then
    .ok (r.position slot)
  else if f.directionsWord = f.liveWord &&& backward then
    .ok (r.length - 1 - r.position slot)
  else
    .error r.mismatch

/-- Whether the slot is among the first, last, leftmost or rightmost few. -/
def isAmong (f : Formation) (side : RowEnd) (count : SmallCount) (slot : Nat) :
    Except DesignatorError Bool :=
  match rows? f.setup with
  | none => .error .illegalDesignator
  | some r =>
    if r.length ≤ count.toNat then .error .illegalDesignator
    else
      (f.rank r side.isAlong slot).map fun k =>
        match side with
        | .first | .rightmost => r.length - count.toNat ≤ k
        | .last | .leftmost => k < count.toNat

end Formation
end SquareDance
