/-
# Halves of a 2x4 by their place in the hall

"Near line", "left box".  The caller stands to the south, so that near is south,
far north, left west and right east, after the rotation of the formation.  The
rows of the 2x4 are lines if everyone faces across them and columns if everyone
faces along them; its two 2x2 halves are boxes.
-/

import SquareDance.Designator
import SquareDance.Formation

namespace SquareDance

/-- The direction of a side of the hall. -/
def HallSide.direction : HallSide → Direction
  | near => .south
  | far => .north
  | left => .west
  | right => .east

namespace Formation

/-- The side of the formation, in its own frame, where the row or the box of a
2x4 slot lies. -/
def sideOfPart (part : HalfPart) (slot : Nat) : Direction :=
  match part with
  | .box => if (if slot < 4 then slot else 7 - slot) < 2 then .west else .east
  | .line | .column => if slot < 4 then .north else .south

/-- Whether the rows are lines: everyone faces north or south.  They are columns
if nobody does; otherwise, or with nobody there, they are neither. -/
def rowsAreLines? (f : Formation) : Option Bool :=
  match f.dancers.any (·.direction.isNorthSouth), f.dancers.any (!·.direction.isNorthSouth) with
  | true, false => some true
  | false, true => some false
  | _, _ => none

/-- Whether the slot of a 2x4 lies in a half of it. -/
def isInHalf (f : Formation) (part : HalfPart) (side : HallSide) (slot : Nat) :
    Except DesignatorError Bool :=
  if f.setup ≠ .grid2x4 then .error .illegalDesignator
  else if f.rotationImprecise then .error .rotationImprecise
  else
    let mine := (sideOfPart part slot).rotate f.rotation
    -- The rows, or the boxes, may lie across the other axis of the hall.
    if mine ≠ side.direction ∧ mine ≠ side.direction.opposite then .error .illegalDesignator
    else if part = .box then .ok (mine = side.direction)
    else
      match f.rowsAreLines? with
      | none => .error .cannotDetermine
      | some lines =>
        if lines == decide (part = .line) then .ok (mine = side.direction)
        else .error .illegalDesignator

/-- The same question for any designator; one that names no half has no meaning
here. -/
def isInNamedHalf (f : Formation) (d : Designator) (slot : Nat) :
    Except DesignatorError Bool :=
  match d with
  | .half part side => f.isInHalf part side slot
  | _ => .error .illegalDesignator

end Formation
end SquareDance
