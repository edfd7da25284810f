/-
# Whom a designator picks

`Formation.picks` says whether a designator picks the person on a slot.
Everyone and nobody need no person; all others look at the subject on the slot.
-/

import SquareDance.Designator.Half
import SquareDance.Designator.Ordinal
import SquareDance.Designator.Shape
import SquareDance.Designator.Some

namespace SquareDance
namespace Formation

/-- "The center 2" and "the outer 6".  A 3x4 goes by the role alone and a 4x4 by
the occupied centers; the near centers of a 1x6 are outer pairs. -/
def isCenter2 (f : Formation) (slot : Nat) (s : Subject) : Except DesignatorError Bool :=
  match f.setup with
  | .grid3x4 => .ok (s.roles.contains .center2)
  | .grid4x4 =>
    let centers := f.liveWord &&& 0x01010101
    if centers = 0x00010001 ∨ centers = 0x01000100 then .ok (slot % 4 == 3)
    else .error .cannotDetermine
  | .line6 => s.decide .center2 .outerPairs
  | _ => s.decide .center2 .outer6

/-- The complement of the center 2, except that in a 1x6 nobody is an outer 6. -/
def isOuter6 (f : Formation) (s : Subject) : Except DesignatorError Bool :=
  match f.setup with
  | .line6 => (s.decide .center2 .outerPairs).map fun _ => false
  | _ => (s.decide .center2 .outer6).map (!·)

/-- "The outer pairs" of any setup but a 1x6: with the role and not all three
signs of a center, or without it and some sign of a center. -/
def isOuterPairs (s : Subject) : Except DesignatorError Bool :=
  let inner := [Role.center4, .center, .ctr1x4]
  let outer := s.roles.contains .outerPairs
  if outer && !inner.all s.roles.contains then .ok true
  else if !outer && inner.any s.roles.contains then .ok false
  else .error s.undecided

/-- Beau, with the centers of a box taken the other way round. -/
def isMysticBeau (s : Subject) : Except DesignatorError Bool := do
  let beau ← s.decide .beau .belle
  let isEnd := s.roles.contains .atEnd
  let isCenter := s.roles.contains .center4
  if isEnd && !isCenter then return beau
  else if isCenter && !isEnd then return !beau
  else if s.roles.contains .outerPairs then return beau
  else throw s.undecided

/-- Who a real person is; stand-ins and phantoms have no couple number. -/
def realIdentity (s : Subject) : Except DesignatorError Identity :=
  match s.dancer? with
  | none => .error .cannotDetermine
  | some p => if p.isReal then s.identity else .error .cannotDetermine

/-- The wall that the subject faces, in a formation that stands precisely. -/
def wallFaced (f : Formation) (s : Subject) : Except DesignatorError Wall :=
  if f.rotationImprecise then .error .rotationImprecise else s.wall

/-- The couple after a couple, counted around the square. -/
def nextCouple (c : Fin 4) : Fin 4 := ⟨(c.val + 1) % 4, Nat.mod_lt _ (by decide)⟩

/-- Whether a designator picks a subject. -/
def judges (f : Formation) (d : Designator) (mode : Grouping) (slot : Nat) (s : Subject) :
    Except DesignatorError Bool :=
  match d with
  | .everyone | .all => .ok true
  | .nobody => .ok false
  | .boys => s.identity.map (·.isBoy)
  | .girls => s.identity.map (·.isGirl)
  | .heads => s.identity.map (·.isHead)
  | .sides => s.identity.map (·.isSide)
  | .headCorners => s.identity.map (·.isHeadCorner)
  | .sideCorners => s.identity.map (·.isSideCorner)
  | .headBoys => s.identity.map fun i => i.isHead && i.isBoy
  | .headGirls => s.identity.map fun i => i.isHead && i.isGirl
  | .sideBoys => s.identity.map fun i => i.isSide && i.isBoy
  | .sideGirls => s.identity.map fun i => i.isSide && i.isGirl
  | .centers => s.decide .center .atEnd
  | .ends => s.decide .atEnd .center
  | .leads => s.decide .lead .trailer
  | .trailers => s.decide .trailer .lead
  | .beaus => s.decide .beau .belle
  | .belles => s.decide .belle .beau
  | .leadEnds => do
    let lead ← s.decide .lead .trailer
    let center ← s.decide .center .atEnd
    return lead && !center
  | .leadCenters => do
    let lead ← s.decide .lead .trailer
    let center ← s.decide .center .atEnd
    return lead && center
  | .trailEnds => do
    let lead ← s.decide .lead .trailer
    let center ← s.decide .center .atEnd
    return !lead && !center
  | .trailCenters => do
    let lead ← s.decide .lead .trailer
    let center ← s.decide .center .atEnd
    return !lead && center
  | .leadBeaus => do
    let lead ← s.decide .lead .trailer
    let beau ← s.decide .beau .belle
    return lead && beau
  | .leadBelles => do
    let lead ← s.decide .lead .trailer
    let beau ← s.decide .beau .belle
    return lead && !beau
  | .trailBeaus => do
    let lead ← s.decide .lead .trailer
    let beau ← s.decide .beau .belle
    return !lead && beau
  | .trailBelles => do
    let lead ← s.decide .lead .trailer
    let beau ← s.decide .beau .belle
    return !lead && !beau
  | .endBoys => do
    let center ← s.decide .center .atEnd
    let i ← s.identity
    return !center && i.isBoy
  | .endGirls => do
    let center ← s.decide .center .atEnd
    let i ← s.identity
    return !center && i.isGirl
  | .centerBoys => do
    let center ← s.decide .center .atEnd
    let i ← s.identity
    return center && i.isBoy
  | .centerGirls => do
    let center ← s.decide .center .atEnd
    let i ← s.identity
    return center && i.isGirl
  | .mysticBeaus => isMysticBeau s
  | .mysticBelles => (isMysticBeau s).map (!·)
  | .center2 | .veryCenters => f.isCenter2 slot s
  | .outer6 => f.isOuter6 s
  | .center6 => s.decide .center6 .outer2
  | .outer2 | .veryEnds => s.decide .outer2 .center6
  | .ctrDmd => s.decide .ctrDmd .notCtrDmd
  | .notCtrDmd => s.decide .notCtrDmd .ctrDmd
  | .centerColOf6 =>
    match f.setup with
    | .grid3x4 | .quarterTag | .spindle => s.decide .center6 .outer2
    | _ => s.decide .ctr1x6 .notCtr1x6
  | .ctr1x6 | .centerWaveOf6 | .centerLineOf6 => s.decide .ctr1x6 .notCtr1x6
  | .outer1x3s => s.decide .outer1x3 .notOuter1x3
  | .ctr1x4 | .centerWave | .centerLine | .centerCol => s.decide .ctr1x4 .notCtr1x4
  | .center4 =>
    s.decideFirst [(.center4, .outerPairs), (.center4, .atEnd), (.center4, .notCtr1x4)]
  | .centerBox => s.decideFirst [(.center4, .outerPairs), (.center4, .atEnd)]
  | .outerPairs =>
    match f.setup with
    | .line6 => s.decide .outerPairs .center2
    | _ => isOuterPairs s
  | .thoseFacing => s.decide .facing .notFacing
  | .the shape => f.isInShape shape slot s
  | .headliners => (f.wallFaced s).map fun w => w == .front || w == .back
  | .sideliners => (f.wallFaced s).map fun w => w == .left || w == .right
  | .facing wall => (f.wallFaced s).map (· == wall)
  | .boy c => (realIdentity s).map fun i => i.couple == c && i.isBoy
  | .girl c => (realIdentity s).map fun i => i.couple == c && i.isGirl
  | .couple c => (realIdentity s).map (·.couple == c)
  | .couples c => (realIdentity s).map fun i => i.couple == c || i.couple == nextCouple c
  | .ordinal side count => f.isAmong side count slot
  | .half part side => f.isInHalf part side slot
  | .triangles _ => .error .illegalDesignator
  | .someGroup => f.isInSomeGroup mode slot

/-- Whether a designator picks the person on a slot. -/
def picks (f : Formation) (d : Designator) (mode : Grouping) (slot : Nat) :
    Except DesignatorError Bool :=
  match d with
  | .everyone | .all => .ok true
  | .nobody => .ok false
  | _ => do
    let s ← f.subject d slot
    f.judges d mode slot s

end Formation
end SquareDance
