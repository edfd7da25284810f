/-
# The direction of a call

Some calls are given a direction: "left spin the top".  The directions are
ordered, and each level of the dance program may use the first few of them.
-/

import SquareDance.Level

namespace SquareDance

/-- The direction that a call is given. -/
inductive CallDirection where
  | noDirection
  | left
  | right
  | inward
  | outward
  | back
  | zigzag
  | zagzig
  | zigzig
  | zagzag
  | theMusic
  deriving DecidableEq, Inhabited

namespace CallDirection

/-- Every direction, in order. -/
def all : List CallDirection :=
  [noDirection, left, right, inward, outward, back, zigzag, zagzig, zigzig, zagzag, theMusic]

/-- The written name of a direction. -/
def name : CallDirection → String
  | noDirection => "no direction"
  | left => "left"
  | right => "right"
  | inward => "in"
  | outward => "out"
  | back => "back"
  | zigzag => "zigzag"
  | zagzig => "zagzig"
  | zigzig => "zigzig"
  | zagzag => "zagzag"
  | theMusic => "the music"

/-- The direction with a given written name. -/
def ofName? (s : String) : Option CallDirection :=
  all.find? (·.name == s)

/-- **A direction is found by its name.** -/
@[simp] theorem ofName?_name (d : CallDirection) : ofName? d.name = some d := by
  cases d <;> rfl

/-- The position of a direction in the order. -/
def index (d : CallDirection) : Nat := all.idxOf d

/-- The direction at a position of the order. -/
def ofIndex? (i : Nat) : Option CallDirection := all[i]?

/-- **A direction is found at its index.** -/
@[simp] theorem ofIndex?_index (d : CallDirection) : ofIndex? d.index = some d := by
  cases d <;> rfl

/-- How many directions may be used when calling at a level: the zigzags from A2
on, and facing the music from C3A on. -/
def availableAt (l : Level) : Nat :=
  if l < .a2 then 6 else if l < .c3a then 10 else 11

/-- There is a direction at every level. -/
theorem availableAt_pos (l : Level) : 0 < availableAt l := by
  cases l <;> decide

/-- No level has more directions than there are. -/
theorem availableAt_le (l : Level) : availableAt l ≤ all.length := by
  cases l <;> decide

end CallDirection
end SquareDance
