/-
# Setups

A setup is the shape of a formation: how many slots it has and how they lie.
Slots are numbered along the diagram of the shape rather than row by row:

```text
1x4:   0 1 3 2          dmd:    1          qtag:    0 1         ptpd:   1     7
                              0   2               6 7 3 2            0   2 6   4
2x2:   0 1                      3                   5 4                 3     5
       3 2
                        short6:   1        spindle:   0 1 2     bone:  0         1
1x6:   0 1 2 5 4 3              0   2               7       3            6 7 3 2
                                5   3                 6 5 4            5         4
2x3:   0 1 2                      4
       5 4 3                                                    3x4:   0  1  2  3
                        rigger:     0 1                               10 11  5  4
2x4:   0 1 2 3                  6 7     3 2                            9  8  7  6
       7 6 5 4                      5 4
                                                                4x4:  12 13 14  0
1x8:   0 1 3 2 6 7 5 4                                                10 15  3  1
                                                                       9 11  7  5
                                                                       8  6  4  2
```

Each setup has its lateral pairs (west member first), its tandem pairs (north
member first) and, for each slot, the roles that the slot alone decides.
-/

import SquareDance.Role

namespace SquareDance

/-- The shape of a formation. -/
inductive Setup where
  | nothing
  | single
  | pair
  | line3
  | box
  | line4
  | diamond
  | line6
  | grid2x3
  | short6
  | grid2x4
  | line8
  | quarterTag
  | twinDiamonds
  | spindle
  | bone
  | rigger
  | grid3x4
  | grid4x4
  deriving DecidableEq, Inhabited

namespace Setup

/-- Every setup, in order. -/
def all : List Setup :=
  [nothing, single, pair, line3, box, line4, diamond, line6, grid2x3, short6, grid2x4, line8,
   quarterTag, twinDiamonds, spindle, bone, rigger, grid3x4, grid4x4]

/-- The written name of a setup. -/
def name : Setup → String
  | nothing => "nothing"
  | single => "1x1"
  | pair => "1x2"
  | line3 => "1x3"
  | box => "2x2"
  | line4 => "1x4"
  | diamond => "dmd"
  | line6 => "1x6"
  | grid2x3 => "2x3"
  | short6 => "short6"
  | grid2x4 => "2x4"
  | line8 => "1x8"
  | quarterTag => "qtag"
  | twinDiamonds => "ptpd"
  | spindle => "spindle"
  | bone => "bone"
  | rigger => "rigger"
  | grid3x4 => "3x4"
  | grid4x4 => "4x4"

/-- The setup with a given written name. -/
def ofName? (s : String) : Option Setup :=
  all.find? (·.name == s)

/-- **A setup is found by its name.** -/
@[simp] theorem ofName?_name (s : Setup) : ofName? s.name = some s := by
  cases s <;> rfl

/-- The number of slots. -/
def size : Setup → Nat
  | nothing => 0
  | single => 1
  | pair => 2
  | line3 => 3
  | box | line4 | diamond => 4
  | line6 | grid2x3 | short6 => 6
  | grid2x4 | line8 | quarterTag | twinDiamonds | spindle | bone | rigger => 8
  | grid3x4 => 12
  | grid4x4 => 16

/-- No setup has more than 16 slots. -/
theorem size_le (s : Setup) : s.size ≤ 16 := by
  cases s <;> decide

/-- The highest slot, if there is any. -/
def lastSlot? (s : Setup) : Option Nat :=
  if s.size = 0 then none else some (s.size - 1)

/-- One row of people. -/
def isSingleRow : Setup → Bool
  | single | pair | line3 | line4 | line6 | line8 => true
  | _ => false

/-- Slots that are lateral neighbours, the western one first. -/
def lateralPairs : Setup → List (Nat × Nat)
  | pair => [(0, 1)]
  | box | line4 => [(0, 1), (3, 2)]
  | line6 => [(0, 1), (2, 5), (4, 3)]
  | grid2x3 => [(0, 1), (4, 3)]
  | grid2x4 => [(0, 1), (2, 3), (7, 6), (5, 4)]
  | line8 => [(0, 1), (3, 2), (6, 7), (5, 4)]
  | quarterTag => [(0, 1), (5, 4), (6, 7), (3, 2)]
  | spindle => [(0, 1), (5, 4)]
  | bone => [(6, 7), (3, 2)]
  | rigger => [(0, 1), (5, 4), (6, 7), (3, 2)]
  | grid3x4 => [(0, 1), (2, 3), (10, 11), (5, 4), (9, 8), (7, 6)]
  | grid4x4 => [(12, 13), (14, 0), (10, 15), (3, 1), (9, 11), (7, 5), (8, 6), (4, 2)]
  | nothing | single | line3 | diamond | short6 | twinDiamonds => []

/-- Slots that are tandem neighbours, the northern one first. -/
def tandemPairs : Setup → List (Nat × Nat)
  | box => [(0, 3), (1, 2)]
  | diamond => [(1, 3)]
  | grid2x3 => [(0, 5), (1, 4), (2, 3)]
  | short6 => [(0, 5), (2, 3)]
  | grid2x4 => [(0, 7), (1, 6), (2, 5), (3, 4)]
  | twinDiamonds => [(1, 3), (7, 5)]
  | spindle => [(0, 6), (1, 5), (2, 4)]
  | bone | rigger => [(0, 5), (1, 4)]
  | grid4x4 => [(12, 10), (9, 8), (13, 15), (11, 6), (14, 3), (7, 4), (0, 1), (5, 2)]
  | nothing | single | pair | line3 | line4 | line6 | line8 | quarterTag | grid3x4 => []

/-- The partner of a slot in a list of pairs, and whether the slot comes first. -/
def partnerIn (pairs : List (Nat × Nat)) (slot : Nat) : Option (Nat × Bool) :=
  pairs.findSome? fun (a, b) =>
    if a = slot then some (b, true)
    else if b = slot then some (a, false)
    else none

/-- The lateral partner of a slot, and whether the slot is the western one. -/
def lateralPartner (s : Setup) (slot : Nat) : Option (Nat × Bool) :=
  partnerIn s.lateralPairs slot

/-- The tandem partner of a slot, and whether the slot is the northern one. -/
def tandemPartner (s : Setup) (slot : Nat) : Option (Nat × Bool) :=
  partnerIn s.tandemPairs slot

/-- The roles that each slot has of itself, slot by slot. -/
def slotRoles : Setup → List (List Role)
  | nothing => []
  | single => [[]]
  | pair => [[], []]
  | line3 => [[.atEnd], [.center], [.atEnd]]
  | box => [[], [], [], []]
  | line4 | diamond =>
    let tip := [.atEnd, .outer2, .outer6]
    let inside := [.center, .center2, .center6]
    [tip, inside, tip, inside]
  | line6 =>
    let tip := [.atEnd, .outer2, .outer6, .notCtr1x4, .outerPairs]
    let near := [.center, .center6, .outer6, .ctr1x4, .outerPairs]
    let inside := [.center, .center2, .center6, .ctr1x4, .center4]
    [tip, near, inside, tip, near, inside]
  | grid2x3 | short6 =>
    let corner := [.atEnd, .outer6]
    let inside := [.center, .center2]
    [corner, inside, corner, corner, inside, corner]
  | grid2x4 =>
    let outside := [.atEnd, .outerPairs]
    let inside := [.center, .center4]
    [outside, inside, inside, outside, outside, inside, inside, outside]
  | line8 =>
    let tip := [.atEnd, .outer2, .outer6, .notCtr1x4, .notCtr1x6, .outerPairs]
    let nearTip := [.atEnd, .center6, .outer6, .notCtr1x4, .ctr1x6, .outerPairs]
    let inside := [.center, .center2, .center6, .ctr1x4, .ctr1x6, .center4]
    let nearInside := [.center, .center6, .outer6, .ctr1x4, .ctr1x6, .center4]
    [tip, nearTip, inside, nearInside, tip, nearTip, inside, nearInside]
  | quarterTag =>
    let outside := [.atEnd, .outerPairs, .notCtr1x4, .center6, .outer6]
    let lineEnd := [.center, .ctr1x4, .center4, .outer2, .outer6]
    let lineCenter := [.center, .ctr1x4, .center4, .center2, .center6]
    [outside, outside, lineEnd, lineCenter, outside, outside, lineEnd, lineCenter]
  | twinDiamonds =>
    let point := [.atEnd, .outer2, .outer6]
    let side := [.center6, .outer6]
    let inner := [.center, .center2, .center6]
    [point, side, inner, side, point, side, inner, side]
  | spindle =>
    let side := [.center6, .outer6]
    let inside := [.center, .center2, .center6]
    let point := [.atEnd, .outer2, .outer6]
    [side, inside, side, point, side, inside, side, point]
  | bone =>
    let outside := [.atEnd, .outerPairs, .notCtr1x4, .outer6]
    let lineEnd := [.center, .ctr1x4, .center4, .outer6]
    let lineCenter := [.center, .ctr1x4, .center4, .center2]
    [outside, outside, lineEnd, lineCenter, outside, outside, lineEnd, lineCenter]
  | rigger =>
    let outside := [.atEnd, .outerPairs]
    let inside := [.center, .center4]
    [inside, inside, outside, outside, inside, inside, outside, outside]
  | grid3x4 =>
    let corner := [.outer2, .outer6, .notCtr1x4]
    let column := [.center6, .outer6, .notCtr1x4]
    let lineEnd := [.outer2, .outer6, .ctr1x4]
    let inside := [.center2, .center6, .ctr1x4]
    [corner, column, column, corner, lineEnd, inside,
     corner, column, column, corner, lineEnd, inside]
  | grid4x4 =>
    let outside := [.atEnd, .outerPairs]
    let inside := [.center, .center4]
    [outside, outside, outside, inside, outside, outside, outside, inside,
     outside, outside, outside, inside, outside, outside, outside, inside]

/-- There are roles for each slot. -/
theorem length_slotRoles (s : Setup) : s.slotRoles.length = s.size := by
  cases s <;> rfl

/-- The roles that a slot has of itself; none outside the setup. -/
def positionalRoles (s : Setup) (slot : Nat) : RoleSet :=
  .ofList (s.slotRoles[slot]?.getD [])

/-- **The tables name slots of the setup only.** -/
theorem pairs_lt (s : Setup) :
    ∀ p ∈ s.lateralPairs ++ s.tandemPairs, p.1 < s.size ∧ p.2 < s.size := by
  cases s <;> decide

end Setup
end SquareDance
