/-
# Formations

A formation is a setup with people on some of its slots; an empty slot is a
phantom spot.  A caller may state an assumption about it, it may stand turned in
the hall by a number of quarter turns, and that turn may be imprecise.

Tables about facing read two words, each with two bits for every slot and slot 0
in the highest place: the word of the directions and the word of the live slots.
-/

import SquareDance.Dancer
import SquareDance.Setup

namespace SquareDance

/-- What the caller states about a formation, such as "assume waves". -/
inductive Assumption where
  | nothing
  | waveOnly
  | miniwaves
  | twoFacedOnly
  | oneFacedOnly
  | couplesOnly
  | linesInOut
  | magicOnly
  | allFacingSame
  deriving DecidableEq, Inhabited

/-- A setup and the people on its slots. -/
structure Formation where
  setup : Setup
  slots : Vector (Option Dancer) setup.size
  assumption : Assumption := .nothing
  /-- Quarter turns clockwise from the frame of the formation to the hall. -/
  rotation : UInt8 := 0
  rotationImprecise : Bool := false

namespace Formation

/-- Why a person cannot be placed. -/
inductive Error where
  | slotOutOfRange (setup : Setup) (slot : Nat)
  deriving DecidableEq

/-- What is wrong, as text. -/
def Error.message : Error → String
  | slotOutOfRange setup slot =>
    "slot " ++ toString slot ++ " is outside a " ++ setup.name ++ " setup"

/-- A setup with nobody in it. -/
def vacant (s : Setup) : Formation := { setup := s, slots := .replicate s.size none }

instance : Inhabited Formation := ⟨vacant .nothing⟩

/-- The number of slots. -/
def size (f : Formation) : Nat := f.setup.size

/-- The person on a slot; nobody stands outside the setup. -/
def dancer? (f : Formation) (slot : Nat) : Option Dancer := f.slots[slot]?.join

/-- Nobody stands off the setup. -/
theorem dancer?_eq_none_of_le {f : Formation} {slot : Nat} (h : f.size ≤ slot) :
    f.dancer? slot = none := by
  have : f.slots[slot]? = none := Vector.getElem?_eq_none h
  simp [dancer?, this]

/-- Put a person on a slot, with the roles they bring. -/
def place (f : Formation) (slot : Nat) (p : Dancer) : Except Error Formation :=
  if h : slot < f.setup.size then
    .ok { f with slots := f.slots.set slot (some p) h }
  else
    .error (.slotOutOfRange f.setup slot)

/-- Empty a slot. -/
def clear (f : Formation) (slot : Nat) : Formation :=
  { f with slots := f.slots.setIfInBounds slot none }

/-- Somebody stands on the slot. -/
def isLive (f : Formation) (slot : Nat) : Bool := (f.dancer? slot).isSome

/-- Whoever is there stands on a slot of the setup. -/
theorem lt_size_of_isLive {f : Formation} {slot : Nat} (h : f.isLive slot = true) :
    slot < f.size := by
  refine Nat.lt_of_not_le fun hle => ?_
  rw [isLive, dancer?_eq_none_of_le hle] at h
  cases h

/-- The number of live slots. -/
def liveCount (f : Formation) : Nat := (List.range f.size).countP f.isLive

/-- The people of the formation, in slot order. -/
def dancers (f : Formation) : List Dancer := (List.range f.size).filterMap f.dancer?

/-- Two bits for each slot, zero for an empty one, slot 0 in the highest place. -/
def word (f : Formation) (bits : Dancer → UInt32) : UInt32 :=
  (List.range f.size).foldl (fun w slot => w <<< 2 ||| (f.dancer? slot).elim 0 bits) 0

/-- The directions of all people, as a word. -/
def directionsWord (f : Formation) : UInt32 := f.word fun p => p.direction.code.toUInt32

/-- Two set bits for each live slot. -/
def liveWord (f : Formation) : UInt32 := f.word fun _ => 3

/-- The slot that this person would hold if the setup were turned so that they
face north.  A single row turns by half turns only. -/
def northSlot? (f : Formation) (slot : Nat) : Option Nat :=
  (f.dancer? slot).map fun p =>
    let d := p.direction.code.toNat
    let offset :=
      if f.setup.isSingleRow then d / 2 * (f.size / 2) else (4 - d) * f.size / 4
    (slot + offset) % f.size

end Formation
end SquareDance
