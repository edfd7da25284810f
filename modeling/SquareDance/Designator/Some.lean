/-
# "Some"

"Some" splits a setup into two unlabelled groups by facing directions alone,
pairs or triples.  Only the groupings of the tables below are recognised.

A table compares the slots of one half with each other, both halves at once: the
word of the directions is shifted so that the slot in question comes lowest in
each half, and masked to that one slot.  Two slots face alike in both halves if
the masked words agree, and opposite ways if they differ by 2 in both places.

A group of six or twelve people is told by the places in a half, and has the same places
in both (`bothHalves`); a triangle is the three slots of one half (`triangle`).
-/

import SquareDance.Designator
import SquareDance.Formation

namespace SquareDance

/-- How the designator "some" may group people. -/
inductive Grouping where
  | disallowed
  | pairs
  | triples
  deriving DecidableEq, Inhabited

namespace Formation

/-- Three facings, two bits each, that agree. -/
def threeAlike (w : UInt32) : Bool :=
  let facing (shift : UInt32) : UInt32 := w >>> shift &&& 3
  facing 0 == facing 2 && facing 0 == facing 4

/-- The slots of both halves that are at some places of their half. -/
def bothHalves (half places : Nat) : Nat := places <<< half ||| places

/-- **A slot is told by its place in the half**, where the places are those of a half. -/
theorem testBit_bothHalves {half places slot : Nat} (hplaces : places >>> half = 0)
    (hslot : slot < 2 * half) :
    (bothHalves half places).testBit slot = places.testBit (slot % half) := by
  rw [bothHalves, Nat.testBit_or, Nat.testBit_shiftLeft]
  by_cases hlow : slot < half
  · rw [Nat.mod_eq_of_lt hlow]
    simp [Nat.not_le_of_lt hlow]
  · have hle : half ≤ slot := Nat.le_of_not_lt hlow
    have hhigh : places.testBit slot = false := by
      rw [← Nat.add_sub_of_le hle, ← Nat.testBit_shiftRight, hplaces, Nat.zero_testBit]
    rw [Nat.mod_eq_sub_mod hle, Nat.mod_eq_of_lt (by omega : slot - half < half), hhigh]
    simp [hle]

/-- Three slots in a row. -/
def triangle (first : Nat) : Nat := 0b111 <<< first

/-- **A slot is one of the three** if it is among the last three of a setup of six when the
triangle is moved there. -/
theorem testBit_triangle {first slot : Nat} (hfirst : first ≤ 3) :
    (triangle first).testBit slot
      = decide (3 ≤ slot + (3 - first) ∧ slot + (3 - first) < 6) := by
  have hthree : (0b111 : Nat).testBit (slot - first) = decide (slot - first < 3) :=
    Nat.testBit_two_pow_sub_one 3 (slot - first)
  rw [triangle, Nat.testBit_shiftLeft, hthree, ← Bool.decide_and, decide_eq_decide]
  omega

/-- The group of a six-person setup, as a set of slots. -/
def sixGroup? (f : Formation) (mode : Grouping) : Option Nat :=
  let dirs := f.directionsWord
  let a := dirs >>> 4 &&& 0xC3
  let b := dirs >>> 2 &&& 0xC3
  let c := dirs &&& 0xC3
  let isRow := f.setup = .line6 ∨ f.setup = .grid2x3
  match mode with
  | .pairs =>
    if f.setup = .short6 ∧ a = c then some (bothHalves 3 0b101)
    else if isRow ∧ a = b ∧ b ≠ c then some (bothHalves 3 0b011)
    else if isRow ∧ b = c ∧ a ≠ b then some (bothHalves 3 0b110)
    else none
  | .triples =>
    -- A triangle of three live people who face the same way.
    if isRow ∧ f.liveWord = 0xFCC ∧ threeAlike (dirs >>> 6) then some (triangle 0)
    else if isRow ∧ f.liveWord = 0x33F ∧ threeAlike dirs then some (triangle 3)
    else none
  | .disallowed => none

/-- The group of an eight-person setup, as a set of slots. -/
def eightGroup? (f : Formation) (mode : Grouping) : Option Nat :=
  let dirs := f.directionsWord
  let a := dirs >>> 6 &&& 0x0303
  let b := dirs >>> 4 &&& 0x0303
  let c := dirs >>> 2 &&& 0x0303
  let d := dirs &&& 0x0303
  match mode, f.setup with
  | .pairs, .line8 =>
    if a = b ∧ b ≠ d ∧ c ≠ d then some 0x33
    else if b = d ∧ c ≠ d ∧ a ≠ b then some 0xAA
    else if c = d ∧ b ≠ d ∧ a ≠ b then some 0xCC
    else none
  | .pairs, .grid2x4 =>
    if a = b ∧ b ≠ c ∧ c ≠ d then some 0x33
    else if b = c ∧ c ≠ d ∧ a ≠ b then some 0x66
    else if c = d ∧ b ≠ c ∧ a ≠ b then some 0xCC
    else none
  | .pairs, .twinDiamonds => if b = d then some 0xAA else none
  | .pairs, .bone | .pairs, .rigger =>
    if c ^^^ d = 0x202 ∧ a ^^^ b = 0x202 then some 0x33 else none
  | .pairs, .quarterTag => if c = d ∧ a ^^^ b = 0x202 then some 0xCC else none
  | .triples, .quarterTag => if a ^^^ 0x202 = b ∧ b = d then some 0xBB else none
  | .triples, .line8 =>
    if a = b ∧ b = d ∧ c ≠ d then some 0xBB
    else if b = c ∧ c = d ∧ a ≠ b then some 0xEE
    else if [(0x200, 0x000, 0x002, 0x000), (0x002, 0x202, 0x200, 0x202)].contains (a, b, c, d) then
      some 0xBE
    else if [(0x002, 0x000, 0x200, 0x000), (0x200, 0x202, 0x002, 0x202)].contains (a, b, c, d) then
      some 0xEB
    else none
  | .triples, .grid2x4 =>
    if a = b ∧ b = c ∧ c ≠ d then some 0x77
    else if b = c ∧ c = d ∧ a ≠ b then some 0xEE
    else if [(0x200, 0x000, 0x000, 0x002), (0x002, 0x202, 0x202, 0x200)].contains (a, b, c, d) then
      some 0x7E
    else if [(0x002, 0x000, 0x000, 0x200), (0x200, 0x202, 0x202, 0x002)].contains (a, b, c, d) then
      some 0xE7
    else none
  | _, _ => none

/-- The group of a twelve-person setup, as a set of slots. -/
def twelveGroup? (f : Formation) (mode : Grouping) : Option Nat :=
  let field (shift : UInt32) := f.directionsWord >>> shift &&& 0x003003
  if mode ≠ .triples ∨ f.setup ≠ .grid3x4 then none
  else if f.liveWord = 0xC3FC3F ∧ field 10 ^^^ 0x002002 = field 4 ∧ field 4 = field 2 then
    some (bothHalves 6 0b011001)
  else if f.liveWord = 0x3CF3CF ∧ field 8 ^^^ 0x002002 = field 6 ∧ field 6 = field 0 then
    some (bothHalves 6 0b100110)
  else none

/-- The slots of the "some" group, if the formation divides. -/
def someGroup? (f : Formation) (mode : Grouping) : Option Nat :=
  match f.size with
  | 6 => f.sixGroup? mode
  | 8 => f.eightGroup? mode
  | 12 => f.twelveGroup? mode
  | _ => none

/-- Whether the slot belongs to the "some" group. -/
def isInSomeGroup (f : Formation) (mode : Grouping) (slot : Nat) : Except DesignatorError Bool :=
  if mode = .disallowed then .error .illegalDesignator
  else
    match f.someGroup? mode with
    | none => .error .cannotDetermine
    | some slots => .ok (slots.testBit slot)

/-- The group does not depend on the slot that is asked about. -/
theorem isInSomeGroup_eq (f : Formation) (mode : Grouping) (slot : Nat) :
    f.isInSomeGroup mode slot = if mode = .disallowed then .error .illegalDesignator
      else ((f.someGroup? mode).map (·.testBit slot)).elim (.error .cannotDetermine) .ok := by
  unfold isInSomeGroup
  cases f.someGroup? mode <;> rfl

end Formation
end SquareDance
