/-
# Facing directions

A direction is measured in the formation's own frame: north is "up" in the
diagram, and the formation's rotation carries the frame onto the hall.  The
four directions are numbered clockwise from north, so turning is addition
modulo four; a word of any size turns by its two lowest bits.
-/

namespace SquareDance

/-- A facing direction, in the frame of the formation. -/
inductive Direction where
  | north
  | east
  | south
  | west
  deriving DecidableEq, Inhabited

namespace Direction

/-- The code of a direction: quarter turns clockwise from north. -/
def code : Direction → UInt8
  | north => 0
  | east => 1
  | south => 2
  | west => 3

/-- The direction whose code is held by the two lowest bits of `b`. -/
def ofBits (b : UInt8) : Direction :=
  if b &&& 3 = 0 then north
  else if b &&& 3 = 1 then east
  else if b &&& 3 = 2 then south
  else west

/-- **A direction is determined by its code.** -/
@[simp] theorem ofBits_code (d : Direction) : ofBits d.code = d := by
  cases d <;> rfl

/-- There are four directions. -/
theorem code_lt (d : Direction) : d.code < 4 := by
  cases d <;> decide

/-- Turn clockwise by a number of quarter turns. -/
def rotate (d : Direction) (turns : UInt8) : Direction :=
  ofBits (d.code + turns)

/-- The direction behind. -/
def opposite (d : Direction) : Direction := d.rotate 2

/-- The direction on the right hand. -/
def right (d : Direction) : Direction := d.rotate 1

/-- The direction on the left hand. -/
def left (d : Direction) : Direction := d.rotate 3

/-- North and south, the directions across an east-west row. -/
def isNorthSouth : Direction → Bool
  | north | south => true
  | east | west => false

/-- To turn round twice is not to turn. -/
@[simp] theorem opposite_opposite (d : Direction) : d.opposite.opposite = d := by
  cases d <;> rfl

/-- To turn right and then left is not to turn. -/
@[simp] theorem left_right (d : Direction) : d.right.left = d := by
  cases d <;> rfl

/-- To turn round does not change the axis. -/
@[simp] theorem isNorthSouth_opposite (d : Direction) :
    d.opposite.isNorthSouth = d.isNorthSouth := by
  cases d <;> rfl

/-- The initial of the direction's name. -/
def letter : Direction → Char
  | north => 'N'
  | east => 'E'
  | south => 'S'
  | west => 'W'

/-- The direction with a given initial, in upper case. -/
def ofLetter? : Char → Option Direction
  | 'N' => some north
  | 'E' => some east
  | 'S' => some south
  | 'W' => some west
  | _ => none

/-- **A direction is read back from its initial.** -/
@[simp] theorem ofLetter?_letter (d : Direction) : ofLetter? d.letter = some d := by
  cases d <;> rfl

/-- Two people compared by their facing. -/
inductive Relation where
  | same
  | opposite
  deriving DecidableEq, Inhabited

/-- How a second direction compares with the first: the same, the opposite, or
across it, which is no relation. -/
def relation (d e : Direction) : Option Relation :=
  if e = d then some .same
  else if e = d.opposite then some .opposite
  else none

/-- People face each other, or the same way, in either order. -/
theorem relation_comm (d e : Direction) : d.relation e = e.relation d := by
  cases d <;> cases e <;> rfl

end Direction
end SquareDance
