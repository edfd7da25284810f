/-
# The roles of the people in a formation

Roles are derived and never chosen.  A person has the roles of the slot, and on
top of them:

* with a lateral partner, beau if the partner is on the right hand and belle if
  on the left;
* with a tandem partner, lead if the partner is behind and trailer if in front,
  and facing exactly if the partner in front faces back;
* in a formation that stands precisely in the hall, the wall that is faced.

Partners are slots, occupied or not: beside is east and west for a person who
faces north or south, and north and south for the others.
-/

import SquareDance.Formation

namespace SquareDance
namespace Formation

/-- The partner slot at a person's side, and whether the person's slot is the
first of the pair. -/
def sidePartner (s : Setup) (slot : Nat) (d : Direction) : Option (Nat × Bool) :=
  if d.isNorthSouth then s.lateralPartner slot else s.tandemPartner slot

/-- The partner slot in front of a person or behind, and whether the person's
slot is the first of the pair. -/
def filePartner (s : Setup) (slot : Nat) (d : Direction) : Option (Nat × Bool) :=
  if d.isNorthSouth then s.tandemPartner slot else s.lateralPartner slot

/-- Whether the side partner is on the right hand.  The first slot of a pair is
west or north of the second. -/
def partnerOnRight (d : Direction) (first : Bool) : Bool :=
  match d with
  | .north | .east => first
  | .south | .west => !first

/-- Whether the file partner is behind. -/
def partnerBehind (d : Direction) (first : Bool) : Bool :=
  match d with
  | .north | .west => first
  | .south | .east => !first

/-- Beau or belle, for a person with a slot at the side. -/
def handRoles (s : Setup) (slot : Nat) (d : Direction) : List Role :=
  match sidePartner s slot d with
  | none => []
  | some (_, first) => [if partnerOnRight d first then .beau else .belle]

/-- The person on a slot faces the other way. -/
def facesBack (f : Formation) (slot : Nat) (d : Direction) : Bool :=
  (f.dancer? slot).any fun q => q.direction == d.opposite

/-- Lead or trailer, facing or not, for a person with a slot in front or behind. -/
def fileRoles (f : Formation) (slot : Nat) (d : Direction) : List Role :=
  match filePartner f.setup slot d with
  | none => []
  | some (partner, first) =>
    let behind := partnerBehind d first
    [if behind then .lead else .trailer,
     if !behind && f.facesBack partner d then .facing else .notFacing]

/-- The wall that is faced, in a formation that stands precisely in the hall. -/
def wallRoles (f : Formation) (d : Direction) : List Role :=
  if f.rotationImprecise then []
  else
    match d.rotate f.rotation with
    | .north => [.faceBack]
    | .east => [.faceRight]
    | .south => [.faceFront]
    | .west => [.faceLeft]

/-- All roles of a person who stands on a slot with a given facing. -/
def rolesAt (f : Formation) (slot : Nat) (d : Direction) : List Role :=
  f.setup.slotRoles[slot]?.getD [] ++ handRoles f.setup slot d ++ f.fileRoles slot d
    ++ f.wallRoles d

/-- Give every person the roles of their place. -/
def updateRoles (f : Formation) : Formation :=
  { f with
    slots := f.slots.mapIdx fun slot p =>
      p.map fun q => { q with roles := .ofList (f.rolesAt slot q.direction) } }

/-- The people stay where they are, and only their roles are new. -/
@[simp] theorem dancer?_updateRoles (f : Formation) (slot : Nat) :
    f.updateRoles.dancer? slot =
      (f.dancer? slot).map fun q => { q with roles := .ofList (f.rolesAt slot q.direction) } := by
  change (f.slots.mapIdx _)[slot]?.join = f.slots[slot]?.join.map _
  rw [Vector.getElem?_mapIdx]
  cases f.slots[slot]? <;> simp

/-- The formation of the listed people, slot 0 first, with their roles. -/
def ofDancers (s : Setup) (people : List (Option Dancer)) : Except Error Formation := do
  let f ← people.zipIdx.foldlM (fun f (p, slot) =>
    match p with
    | none => .ok f
    | some q => f.place slot q) (vacant s)
  return f.updateRoles

end Formation
end SquareDance
