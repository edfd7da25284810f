/-
# Parts of a setup with a shape of their own

"The 2x3", "the diamond", "the line" and "the column" are a fixed set of slots,
chosen by the setup and, in a 4x4, by the slots that are occupied.
-/

import SquareDance.Designator.Subject

namespace SquareDance
namespace Formation

/-- The four ways in which a 4x4 holds a 2x3 and a line, told by its live slots,
each with the slots of the 2x3 and of the line. -/
def grid4x4Shapes : List (UInt32 × Nat × Nat) :=
  [(0x0F03333F, 0xE888, 0x0A84), (0x3F0F0333, 0x888E, 0xA840),
   (0x333F0F03, 0x88E8, 0x840A), (0x03333F0F, 0x8E88, 0x40A8)]

/-- The slots of a shape, as a set. -/
def shapeSlots (f : Formation) (shape : InnerShape) : Except DesignatorError Nat :=
  match f.setup, shape with
  | .spindle, .grid2x3 => .ok 0x77
  | .quarterTag, .grid2x3 => .ok 0xBB
  | .grid4x4, .grid2x3 =>
    match grid4x4Shapes.lookup f.liveWord with
    | some (slots, _) => .ok slots
    | none => .error .cannotDetermine
  | .grid4x4, .line | .grid4x4, .column =>
    match grid4x4Shapes.lookup f.liveWord with
    | some (_, slots) => .ok slots
    | none => .error .cannotDetermine
  | _, _ => .error .illegalDesignator

/-- Whether the subject on a slot belongs to a shape.  Roles that tell the center
diamond from the rest go before the table. -/
def isInShape (f : Formation) (shape : InnerShape) (slot : Nat) (s : Subject) :
    Except DesignatorError Bool :=
  match if shape = .diamond then s.pair? .ctrDmd .notCtrDmd else none with
  | some b => .ok b
  | none => (f.shapeSlots shape).map (·.testBit slot)

end Formation
end SquareDance
