/-
# Answers about the formation alone

Slots are compared by their numbers.  In most setups the lateral neighbour of a
slot differs from it in the lowest bit, and other partners in other bits, so the
arithmetic is that of exclusive or; the setups that are numbered differently have
rules of their own.  An empty slot counts as facing north in this arithmetic.
-/

import SquareDance.Formation
import SquareDance.Predicate
import SquareDance.Predicate.Verdict

namespace SquareDance
namespace Formation

/-- The facing that partner arithmetic uses. -/
def facingOrNorth (f : Formation) (slot : Nat) : Direction :=
  ((f.dancer? slot).map (·.direction)).getD .north

/-- The person on a slot, who is needed for an answer. -/
def dancer (f : Formation) (slot : Nat) : Except DesignatorError Dancer :=
  match f.dancer? slot with
  | some p => .ok p
  | none => .error .cannotDetermine

/-- How the person on another slot faces in relation to a person. -/
def relationTo (f : Formation) (p : Dancer) (other : Nat) : Option Direction.Relation :=
  p.relation (f.dancer? other)

/-- The slot beside a person in a box: along the row for those who face across
it, across the box for the others. -/
def sideSlot (slot : Nat) (d : Direction) : Nat :=
  if d.isNorthSouth then slot ^^^ 1 else slot ^^^ 3

/-- The slot in front of a person in a box, or behind. -/
def frontSlot (slot : Nat) (d : Direction) : Nat :=
  if d.isNorthSouth then slot ^^^ 3 else slot ^^^ 1

/-- The slot `n` on, around the setup.  A 1x3 counts backward for people who face
south or west. -/
def slotPlus (s : Setup) (slot : Nat) (d : Direction) (n : Nat) : Nat :=
  let n := n % s.size
  if s = .line3 ∧ (d = .south ∨ d = .west) then (slot + s.size - n) % s.size
  else (slot + n) % s.size

/-- The slot that adds up to `n` with this one, around the setup. -/
def slotSum (s : Setup) (slot : Nat) (n : Nat) : Nat :=
  (n + (s.size - slot % s.size)) % s.size

/-- A lateral pair.  Some assumptions settle it. -/
def lateralPair (f : Formation) (slot : Nat) (facing : PairFacing) :
    Except DesignatorError Bool :=
  match f.assumption with
  | .waveOnly | .miniwaves => .ok (facing == .miniwave)
  | .twoFacedOnly | .couplesOnly | .linesInOut => .ok (facing == .couple)
  | _ => do
    let me ← f.dancer slot
    return f.relationTo me (sideSlot slot me.direction) == some facing.relation

/-- Whether a person who is to face the partner of a box has their back to it.
Two bits for each slot, added to the direction, tell it. -/
def backToBox (span : BoxSpan) (slot : Nat) (d : Direction) : Bool :=
  let table := match span with
    | .box2x2 => 0x1B
    | .box2x4 => 0x1B1B
  ((table >>> (2 * slot)) + d.code.toNat).testBit 1

/-- A neighbour in front or behind, within a box. -/
def neighborIs (f : Formation) (slot : Nat) (span : BoxSpan) (relation : NeighborRelation) :
    Except DesignatorError Bool := do
  let me ← f.dancer slot
  let d := me.direction
  if relation = .facing ∧ backToBox span slot d then return false
  let across := match span with
    | .box2x2 => 3
    | .box2x4 => 7
  let other := if d.isNorthSouth then slot ^^^ across else slot ^^^ 1
  let wanted := match relation with
    | .tandem => Direction.Relation.same
    | .antitandem | .facing => .opposite
  return f.relationTo me other == some wanted

/-- The answer to a comparison in ranks that needs nobody's facing: some
assumptions settle it, and the wings of a quarter tag and the points of a spindle
have nobody in their column. -/
def rankPairSettled? (f : Formation) (slot : Nat) (ranks : Ranks) (partner : RankPartner)
    (same : Bool) : Option Bool :=
  match ranks, partner with
  | .lines, .beside =>
    if f.setup = .diamond then none
    else
      match f.assumption with
      | .waveOnly | .magicOnly => some !same
      | .twoFacedOnly => some same
      | _ => none
  | .columns, .beside =>
    if f.setup = .quarterTag then
      if slot = 2 ∨ slot = 6 then some false else none
    else if f.setup = .spindle then
      if slot = 3 ∨ slot = 7 then some false else none
    else
      match f.assumption with
      | .waveOnly | .twoFacedOnly => some same
      | .magicOnly | .linesInOut => some !same
      | _ => none
  | _, _ => none

/-- The slot beside in a line. -/
def besideInLine (s : Setup) (slot : Nat) : Nat :=
  if s = .diamond then slot ^^^ 2
  else if s = .line6 ∧ 2 ≤ slot then 7 - slot
  else slot ^^^ 1

/-- The slot in front or behind in a column, if there is one.  `backward` holds
for people who face south or west. -/
def besideInColumn? (s : Setup) (slot : Nat) (backward : Bool) : Option Nat :=
  match s with
  | .line6 => some (if 2 ≤ slot then 7 - slot else slot ^^^ 1)
  | .line3 =>
    -- The leader of a 1x3 has nobody ahead.
    if slot = 2 ∨ !backward then (if slot = 0 then none else some (3 - slot))
    else some (slot ^^^ 1)
  | .grid2x3 =>
    match slot with
    | 2 => some 1
    | 3 => some 4
    | 1 => some (if backward then 0 else 2)
    | 4 => some (if backward then 5 else 3)
    | _ => some (slot ^^^ 1)
  | .quarterTag =>
    if slot % 4 = 0 ∨ (slot = 3 ∧ backward) ∨ (slot = 7 ∧ !backward) then some (slot ^^^ 7)
    else some (slot ^^^ 2)
  | .spindle =>
    match slot with
    | 1 => some (if backward then 0 else 2)
    | 5 => some (if backward then 6 else 4)
    | 0 | 2 => some 1
    | _ => some 5
  | _ => some (slot ^^^ 1)

/-- One place over in the other line; the centers of a 2x3 choose by facing. -/
def magicSlot (s : Setup) (slot : Nat) (backward : Bool) : Nat :=
  if s ≠ .grid2x3 then slot ^^^ 6
  else
    match slot with
    | 1 => if backward then 5 else 3
    | 4 => if backward then 0 else 2
    | 0 | 2 => 4
    | _ => 1

/-- The slot of the partner in a comparison in ranks, if there is one. -/
def rankPartnerSlot? (s : Setup) (slot : Nat) (d : Direction) (ranks : Ranks)
    (partner : RankPartner) : Option Nat :=
  let backward := d == .south || d == .west
  match partner, ranks with
  | .beside, .lines => some (besideInLine s slot)
  | .beside, .columns => besideInColumn? s slot backward
  | .magic, _ => some (magicSlot s slot backward)
  | .onceRemoved, _ => some (slot ^^^ 2)
  | .across, _ => some (if s = .bone then slot ^^^ 5 else slot ^^^ 7)

/-- A comparison with a partner in a line or column. -/
def rankPair (f : Formation) (slot : Nat) (ranks : Ranks) (partner : RankPartner) (same : Bool) :
    Except DesignatorError Bool :=
  match f.rankPairSettled? slot ranks partner same with
  | some b => .ok b
  | none =>
    match rankPartnerSlot? f.setup slot (f.facingOrNorth slot) ranks partner with
    | none => .ok false
    | some other => do
      if f.size ≤ other then throw .illegalDesignator
      let me ← f.dancer slot
      return f.relationTo me other == some (if same then .same else .opposite)

/-- The answer of an assumption to a comparison once removed in a row of four. -/
def onceRemovedSettled? (a : Assumption) (miniwave : Bool) : Option Bool :=
  match a with
  | .waveOnly | .linesInOut | .oneFacedOnly => some !miniwave
  | .twoFacedOnly | .magicOnly => some miniwave
  | _ => none

/-- How the person once removed in a row of four faces in relation to this one. -/
def onceRemovedRelation (f : Formation) (slot : Nat) :
    Except DesignatorError (Option Direction.Relation) := do
  if f.size ≤ slot ^^^ 3 then throw .illegalDesignator
  let me ← f.dancer slot
  return f.relationTo me (slot ^^^ 3)

/-- A comparison with the person once removed in a row of four. -/
def lineOnceRemoved (f : Formation) (slot : Nat) (facing : PairFacing) :
    Except DesignatorError Bool :=
  match onceRemovedSettled? f.assumption (facing == .miniwave) with
  | some b => .ok b
  | none => (f.onceRemovedRelation slot).map (· == some facing.relation)

/-- A cast with the person once removed.  With nobody to compare, it is normal;
ends have to be told so, centers know. -/
def interlockedCast (f : Formation) (slot : Nat) : Verdict :=
  match onceRemovedSettled? f.assumption true with
  | some b => .ok b
  | none =>
    match f.onceRemovedRelation slot with
    | .error e => .error e
    | .ok (some r) => .ok (r == .opposite)
    | .ok none =>
      { answer := .ok true
        warning := if slot % 2 = 0 then some .optForNormalCast else none }

/-- The centers of a line know how to cast without being told. -/
def castsUntold (s : Setup) (slot : Nat) : Bool :=
  s != .pair && (slot == 1 || slot == if s = .line6 then 4 else 3)

/-- A cast with the person beside: normal from a miniwave, pushy from a couple. -/
def castIs (f : Formation) (slot : Nat) (mode : CastMode) : Verdict :=
  let normal := mode != .pushy
  match f.assumption with
  | .waveOnly | .miniwaves => .ok normal
  | .couplesOnly | .twoFacedOnly => .ok !normal
  | _ =>
    match f.dancer slot with
    | .error e => .error e
    | .ok me =>
      let other := if f.setup = .line6 ∧ 2 ≤ slot then 7 - slot else slot ^^^ 1
      match f.relationTo me other, mode with
      | some r, _ => .ok ((r == .opposite) == normal)
      | none, .normalOrNoWarn => .ok true
      | none, .normalOrWarn =>
        { answer := .ok true
          warning := if castsUntold f.setup slot then none else some .optForNormalCast }
      | none, _ => .ok false

/-- How the judge, or the socker, of a hand faces in relation to the others. -/
def judgeRelation (part : JudgePart) (hand : Hand) : Direction.Relation :=
  if (part == .judge) == (hand == .right) then .same else .opposite

/-- The answer of an assumption to who is the judge. -/
def judgeSettled? (f : Formation) (slot : Nat) (wanted : Direction.Relation) : Option Bool :=
  match f.assumption with
  | .waveOnly => some false
  | .allFacingSame | .oneFacedOnly => some (wanted == .same)
  | .twoFacedOnly => if f.setup = .line4 then some false else none
  | .linesInOut => if f.setup = .line4 then some (wanted == .same) else none
  | .magicOnly =>
    if f.setup = .line4 then some ((slot % 2 == 1) != (wanted == .same)) else none
  | _ => none

/-- Who is the judge or the socker of a row: the person at one end of it faces as
the part asks, or is a phantom, and the person at the other end is no impostor
for the opposite part. -/
def judgeIs (f : Formation) (slot : Nat) (part : JudgePart) (hand : Hand) : Verdict :=
  let wanted := judgeRelation part hand
  let unwanted := match wanted with
    | .same => Direction.Relation.opposite
    | .opposite => .same
  if f.setup ≠ .line3 ∧ f.setup ≠ .line4 ∧ f.setup ≠ .line6 ∧ f.setup ≠ .line8 then
    .error .illegalDesignator
  else
    match f.dancer slot with
    | .error e => .error e
    | .ok me =>
      let backward := me.direction == .south || me.direction == .west
      -- The ends of the row: the one on the side of the hand, and the other one.
      let last := if f.setup = .line3 then 2 else f.size / 2
      let handEnd := if backward == (hand == .right) then 0 else last
      let farEnd := last - handEnd
      if f.setup = .line3 then
        .ok (f.relationTo me handEnd == some wanted && f.relationTo me farEnd != some unwanted)
      else
        match f.judgeSettled? slot wanted with
        | some b => .ok b
        | none =>
          let genuine := f.relationTo me farEnd != some unwanted
          if f.relationTo me handEnd == some wanted && genuine then .ok true
          else if !f.isLive handEnd && genuine then
            { answer := .ok true, warning := some .phantomJudge }
          else .ok false

/-- A person of one gender and somebody of the other on a given slot. -/
def withOtherSex (f : Formation) (slot other : Nat) (g : Gender) : Except DesignatorError Bool := do
  let me ← f.dancer slot
  return me.gender? == some g && (f.dancer? other).bind (·.gender?) == some g.opposite

/-- The person at the side is of the same gender, or of the other. -/
def lateralToSex (f : Formation) (slot : Nat) (same : Bool) : Except DesignatorError Bool := do
  let me ← f.dancer slot
  let other := if f.setup = .pair then slot ^^^ 1 else sideSlot slot me.direction
  match me.gender?, (f.dancer? other).bind (·.gender?) with
  | some a, some b => return (a == b) == same
  | _, _ => return false

/-- Exactly `n` live people follow in the same half of the setup. -/
def countClockwise (f : Formation) (slot : Nat) (n : Nat) : Bool :=
  let half := f.size / 2
  let limit := if half ≤ slot then f.size else half
  (List.range' (slot + 1) (limit - (slot + 1))).countP f.isLive == n

/-- The centers of each diamond, the northern one first. -/
def diamondCenterPairs? : Setup → Option (List (Nat × Nat))
  | .diamond => some [(1, 3)]
  | .twinDiamonds => some [(1, 3), (7, 5)]
  | _ => none

/-- The hand of the miniwaves in the centers of all diamonds. -/
def diamondCentersAre (f : Formation) (hand : Hand) : Except DesignatorError Bool :=
  match diamondCenterPairs? f.setup with
  | none => .error .illegalDesignator
  | some pairs =>
    let all (top bottom : Direction) := pairs.all fun (n, s) =>
      (f.dancer? n).map (·.direction) == some top &&
        (f.dancer? s).map (·.direction) == some bottom
    if all .east .west then .ok (hand == .right)
    else if all .west .east then .ok (hand == .left)
    else .error .cannotDetermine

/-- A question of gender.  From a right hand a slide thru is tasteless. -/
def genderIs (f : Formation) (slot : Nat) (g : Gender) (slideThru : Bool) : Verdict :=
  match f.dancer slot with
  | .error e => .error e
  | .ok me =>
    { answer := .ok (me.gender? == some g)
      warning :=
        if slideThru && (f.northSlot? slot).any (· != 0) then some .tastelessSlideThru else none }

/-- A slide, or without one a roll, to one side. -/
def slideOrRollIs (p : Dancer) (spin : Spin) : Bool :=
  match p.slide with
  | some slide => slide == spin.slide
  | none => p.roll == some spin.roll

/-- The verdict on a place test. -/
def judge (f : Formation) (slot : Nat) : PlaceTest → Verdict
  | .always => .ok true
  | .realPlus n => .ok (f.isLive (slotPlus f.setup slot (f.facingOrNorth slot) n))
  | .realSum n => .ok (f.isLive (slotSum f.setup slot n))
  | .lateralPair facing suspect =>
    { answer := f.lateralPair slot facing
      warning := if suspect then some .suspectDestroyLine else none }
  | .neighbor span relation => { answer := f.neighborIs slot span relation }
  | .rankPair ranks partner same => { answer := f.rankPair slot ranks partner same }
  | .lineOnceRemoved facing => { answer := f.lineOnceRemoved slot facing }
  | .interlockedCast => f.interlockedCast slot
  | .cast mode => f.castIs slot mode
  | .judge part hand => f.judgeIs slot part hand
  | .gender g slideThru => f.genderIs slot g slideThru
  | .rollIs spin => { answer := (f.dancer slot).map (·.roll == some spin.roll) }
  | .slideOrRollIs spin => { answer := (f.dancer slot).map (slideOrRollIs · spin) }
  | .withOtherSex g => { answer := f.withOtherSex slot (slot ^^^ 1) g }
  | .facingOtherSex g =>
    { answer := f.withOtherSex slot (frontSlot slot (f.facingOrNorth slot)) g }
  | .lateralToSex same => { answer := f.lateralToSex slot same }
  | .countClockwise n => .ok (f.countClockwise slot n)
  | .diamondCenters hand => { answer := f.diamondCentersAre hand }

end Formation
end SquareDance
