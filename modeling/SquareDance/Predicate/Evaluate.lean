/-
# Evaluating predicates

`Predicate.judge` gives the verdict on a predicate from the parameters of the
call and the formation, and `Predicate.evaluate` records it in a context.  The
verdict never depends on what the context has recorded so far.
-/

import SquareDance.Designator.Picks
import SquareDance.Predicate.Place

namespace SquareDance

namespace DesignatorTest

variable (f : Formation) (who : Option Designator)

/-- The person on a slot is selected; nobody is without a designator. -/
def isSelected (slot : Nat) : Except DesignatorError Bool :=
  match who with
  | none => .error .illegalDesignator
  | some d => f.picks d .disallowed slot

/-- Somebody stands there and is selected. -/
def isLiveAndSelected (slot : Nat) : Except DesignatorError Bool :=
  if f.isLive slot then isSelected f who slot else .ok false

/-- Somebody stands on one of the slots and is selected. -/
def anyLiveAndSelected : List Nat → Except DesignatorError Bool
  | [] => .ok false
  | slot :: rest => do
    if ← isLiveAndSelected f who slot then return true
    else anyLiveAndSelected rest

/-- Everybody on the slots is selected. -/
def allLiveSelected : List Nat → Except DesignatorError Bool
  | [] => .ok true
  | slot :: rest => do
    if f.isLive slot then
      if ← isSelected f who slot then allLiveSelected rest else return false
    else allLiveSelected rest

/-- The group of four slots that a slot of a 4x4 belongs to. -/
def groupOfFour (slot : Nat) : List Nat := List.range' (slot / 4 * 4) 4

/-- The neighbour for "near": lateral, but across in a 2x2 of people who face
sideways. -/
def nearSlot (slot : Nat) : Nat :=
  if f.setup = .box then Formation.sideSlot slot (f.facingOrNorth slot) else slot ^^^ 1

/-- The slot once removed. -/
def onceRemovedSlot (slot : Nat) : Nat :=
  if f.setup = .grid2x4 then slot ^^^ 2 else slot ^^^ 3

/-- Everyone is selected, so that neighbours need no look. -/
def picksEveryone : Bool := who.any (·.isEveryone)

/-- Nobody is selected, so that neighbours need no look. -/
def picksNobody : Bool := who == some .nobody

/-- The answer to a test about the designator. -/
def answer (slot : Nat) : DesignatorTest → Except DesignatorError Bool
  | select => isSelected f who slot
  | unselect => (isSelected f who slot).map (!·)
  | selectNearSelect => do
    if !(← isSelected f who slot) then return false
    if picksEveryone who then return true
    isLiveAndSelected f who (nearSlot f slot)
  | selectNearUnselect => do
    if !(← isSelected f who slot) then return false
    if picksEveryone who then return false
    return !(← isLiveAndSelected f who (slot ^^^ 1))
  | unselectNearSelect => do
    if ← isSelected f who slot then return false
    if picksNobody who then return false
    isLiveAndSelected f who (slot ^^^ 1)
  | unselectNearUnselect => do
    if ← isSelected f who slot then return false
    if picksNobody who then return true
    if f.setup = .grid4x4 then return !(← anyLiveAndSelected f who (groupOfFour slot))
    return !(← isLiveAndSelected f who (slot ^^^ 1))
  | selectOnceRemovedFromSelect => do
    if !(← isSelected f who slot) then return false
    if picksEveryone who then return true
    isLiveAndSelected f who (onceRemovedSlot f slot)
  | selectOnceRemovedFromUnselect => do
    if !(← isSelected f who slot) then return false
    if picksEveryone who then return false
    return !(← isLiveAndSelected f who (onceRemovedSlot f slot))
  | unselectOnceRemovedFromSelect => do
    if ← isSelected f who slot then return false
    if picksNobody who then return false
    isLiveAndSelected f who (onceRemovedSlot f slot)
  | selectNearSelectOrPhantom => do
    if !(← isSelected f who slot) then return false
    if picksEveryone who then return true
    if f.setup = .grid4x4 then allLiveSelected f who ((groupOfFour slot).filter (· != slot))
    else allLiveSelected f who [slot ^^^ 1]
  | sum n => isSelected f who (Formation.slotSum f.setup slot n)
  | plus n => isSelected f who (Formation.slotPlus f.setup slot (f.facingOrNorth slot) n)
  | realPlus n =>
    isLiveAndSelected f who (Formation.slotPlus f.setup slot (f.facingOrNorth slot) n)
  | selectAndRoll spin => do
    let selected ← isSelected f who slot
    return selected && (f.dancer? slot).any (·.roll == some spin.roll)

/-- Whether the test comes to ask about selection at all: the one about a live
person further on does so only if there is one. -/
def asks (slot : Nat) : DesignatorTest → Bool
  | realPlus n => f.isLive (Formation.slotPlus f.setup slot (f.facingOrNorth slot) n)
  | _ => true

end DesignatorTest

namespace Formation

/-- The role of facing the wall to which the music directs a call. -/
def musicRole? : CallDirection → Option Role
  | .noDirection => some .faceFront
  | .left => some .faceLeft
  | .right => some .faceRight
  | .back => some .faceBack
  | _ => none

/-- The call has a given direction.  Facing the music, it depends on the wall
that the person faces. -/
def directionIs (f : Formation) (slot : Nat) (given wanted : CallDirection) : Bool :=
  if given = .theMusic then
    match musicRole? wanted with
    | none => false
    | some r => (f.dancer? slot).any (·.roles.contains r)
  else given = wanted

end Formation

namespace Predicate

/-- A place is on base by the call's first number, which is from 1 to 4. -/
def baseVerdict (f : Formation) (slot : Nat) (o : CallOptions) (spot : BaseSpot) : Verdict :=
  if f.rotationImprecise then .error .rotationImprecise
  else
    { answer :=
        if 1 ≤ o.firstNumber ∧ o.firstNumber ≤ 4 then
          .ok ((slot / 4 + spot.quarters + o.firstNumber.toNat) % 4 == 0)
        else .error (.numberOutOfRange o.firstNumber)
      consulted := { number := true } }

/-- The verdict on a predicate about the person on a slot. -/
def judge (p : Predicate) (o : CallOptions) (f : Formation) (slot : Nat) : Verdict :=
  if f.size ≤ slot then .error .illegalDesignator
  else
    match p with
    | designated test =>
      { answer := test.answer f o.who slot
        consulted := { designator := o.who.isSome && test.asks f slot } }
    | place test => f.judge slot test
    | direction wanted =>
      { answer := .ok (f.directionIs slot o.direction wanted)
        consulted := { direction := true } }
    | onBase spot => baseVerdict f slot o spot

/-- Answer a predicate and record what goes with the answer. -/
def evaluate (p : Predicate) (c : EvalContext) (f : Formation) (slot : Nat) :
    Except DesignatorError Bool × EvalContext :=
  let v := p.judge c.options f slot
  (v.answer, c.record v)

end Predicate

namespace EvalContext

/-- Ask a designator of one's own choice, which marks that one was used. -/
def select (c : EvalContext) (f : Formation) (d : Designator) (mode : Grouping) (slot : Nat) :
    Except DesignatorError Bool × EvalContext :=
  (f.picks d mode slot, { c with consulted := { c.consulted with designator := true } })

end EvalContext
end SquareDance
