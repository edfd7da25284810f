/-
# Filling in blanks

The blanks of a call are filled in one after another: people, direction, numbers,
tagging call, circulating call.  During a scan each choice is read off a wheel of the
odometer, which then moves on if the wheels inside it are at zero; otherwise it is
drawn at random.  Either way it is folded into the hash.
-/

import SquareDance.CallDirection
import SquareDance.Designator
import SquareDance.Search.Calls

namespace SquareDance
namespace Search

/-- The designators that the scans try. -/
def scannedDesignators : List Designator :=
  [.boys, .girls, .centers, .ends, .leads, .trailers, .beaus, .belles]

/-- The directions that the scans try. -/
def scannedDirections : List CallDirection := [.left, .right, .inward, .outward]

/-- How many designators the scan tries. -/
def designatorCount (s : Search) : Nat :=
  if s.stage = .plainNice then 4
  else if s.options.callingLevel < s.options.beauBelleLevel then 6
  else 8

/-- How many directions the scan tries. -/
def directionCount (s : Search) : Nat := if s.stage = .plainNice then 2 else 4

/-- Read a designator off its wheel.  Without iteration it is the centers. -/
def scanDesignator (s : Search) (iterate : Bool) : Designator × Search :=
  if iterate then
    let position := s.odometer.designator
    (scannedDesignators[position % 8]?.getD .centers,
      { s with odometer := { s.odometer with
          designator := Odometer.turn position s.designatorCount } })
  else (.centers, s)

/-- Draw a designator that is fit for resolving. -/
def drawDesignator (s : Search) : Designator × Search :=
  let (i, s) := s.draw Designator.resolveEligible.length
  ((Designator.ofIndex? i).getD .centers, s)

/-- Choose people. -/
def pickDesignator (s : Search) (iterate : Bool) : Designator × Search :=
  let (d, s) := if s.stage.isScan then s.scanDesignator iterate else s.drawDesignator
  (d, s.fold d.index)

/-- Read a direction off its wheel. -/
def scanDirection (s : Search) : CallDirection × Search :=
  let position := s.odometer.direction
  (scannedDirections[position % 4]?.getD .noDirection,
    if s.odometer.restsInsideDirection then
      { s with odometer := { s.odometer with
          direction := Odometer.turn position s.directionCount } }
    else s)

/-- Draw a direction that may be used at the level being called. -/
def drawDirection (s : Search) : CallDirection × Search :=
  let (i, s) := s.draw (CallDirection.availableAt s.options.callingLevel)
  ((CallDirection.ofIndex? i).getD .noDirection, s)

/-- Choose a direction. -/
def pickDirection (s : Search) : CallDirection × Search :=
  let (d, s) := if s.stage.isScan then s.scanDirection else s.drawDirection
  (d, s.fold d.index)

/-- The number that a wheel shows at a place, from 1 to 4. -/
def numberOn (wheel : UInt32) (place : Nat) : Nat :=
  ((wheel >>> UInt32.ofNat (2 * place)) &&& 3).toNat + 1

/-- Draw a number from 1 to 4. -/
def drawNumber (s : Search) (odd : Bool) : Nat × Search :=
  if odd then
    let (n, s) := s.draw 2
    (2 * n + 1, s)
  else
    let (n, s) := s.draw 4
    (n + 1, s)

/-- Choose a number for a place. -/
def pickNumber (s : Search) (scanning odd : Bool) (place : Nat) : Nat × Search :=
  let (n, s) := if scanning then (numberOn s.odometer.number place, s) else s.drawNumber odd
  (n, s.fold (n - 1))

/-- Choose numbers for some places from a given one on, packed with six bits each. -/
def pickNumbersFrom (s : Search) (scanning odd : Bool) (place : Nat) : Nat → UInt32 × Search
  | 0 => (0, s)
  | count + 1 =>
    let (n, s) := s.pickNumber scanning odd place
    let (rest, s) := s.pickNumbersFrom scanning odd (place + 1) count
    (UInt32.ofNat n <<< UInt32.ofNat (6 * place) ||| rest, s)

/-- The position after a given one of the wheel of some numbers.  Of three or more
numbers only ones are tried. -/
def turnNumbers (wheel : UInt32) (count : Nat) (odd : Bool) : UInt32 :=
  let next := if odd then OddNumbers.upward (wheel + 1) else wheel + 1
  if 3 ≤ count ∨ next >>> UInt32.ofNat (2 * count) ≠ 0 then 0 else next

/-- Choose some numbers. -/
def pickNumbers (s : Search) (count : Nat) (odd iterate : Bool) :
    Except PickError UInt32 × Search :=
  if maxNumbers < count then (.error (.tooManyNumbers count), s)
  else
    let scanning := s.stage.isScan
    let (numbers, s) := s.pickNumbersFrom (iterate && scanning) odd 0 count
    (.ok numbers,
      if scanning && s.odometer.restsInsideNumber then
        { s with odometer := { s.odometer with
            number := turnNumbers s.odometer.number count odd } }
      else s)

/-- The first tagging call at or after a position that a scan may use. -/
def nextScannable? (taggers : Array CatalogCall) (position : Nat) : Option Nat :=
  ((taggers.toList.drop position).findIdx? (·.isScannableTagger)).map (position + ·)

/-- Read a tagging call off its wheel. -/
def scanTagger (s : Search) (cls : Nat) : Except PickError Nat × Search :=
  let taggers := s.catalog.taggersOf cls
  match nextScannable? taggers s.odometer.tagger with
  | none => (.error (.noAcceptableTaggers cls), s)
  | some tagger =>
    (.ok tagger,
      if s.odometer.restsInsideTagger then
        { s with odometer := { s.odometer with
            tagger := (nextScannable? taggers (tagger + 1)).getD 0 } }
      else s)

/-- Draw a tagging call. -/
def drawTagger (s : Search) (cls : Nat) : Except PickError Nat × Search :=
  let taggers := s.catalog.taggersOf cls
  if taggers.isEmpty then (.error (.noAcceptableTaggers cls), s)
  else
    let (tagger, s) := s.draw taggers.size
    (.ok tagger, s)

/-- Choose a tagging call of a class: five bits for its position, counted from 1, and
the class above them.  A random choice may hit one that is barred. -/
def pickTagger (s : Search) (cls : Nat) : Except PickError UInt32 × Search :=
  match if s.stage.isScan then s.scanTagger cls else s.drawTagger cls with
  | (.error e, s) => (.error e, s)
  | (.ok tagger, s) =>
    let s := s.fold tagger
    if (s.catalog.taggersOf cls)[tagger]?.any (·.flags1 &&& CallFlags.notInResolve != 0) then
      (.error .flagReject, s.countFlagReject)
    else (.ok (UInt32.ofNat cls <<< 5 ||| UInt32.ofNat (tagger + 1)), s)

/-- Choose a circulating call, counted from 1. -/
def pickCirculator (s : Search) : Except PickError Nat × Search :=
  let count := s.catalog.circulators.size
  if count = 0 then (.error .noCirculators, s)
  else if s.stage.isScan then
    let position := s.odometer.circulator
    let s :=
      if s.odometer.restsInsideCirculator then
        { s with odometer := { s.odometer with circulator := Odometer.turn position count } }
      else s
    (.ok (position + 1), s.fold position)
  else
    let (position, s) := s.draw count
    (.ok (position + 1), s.fold position)

end Search
end SquareDance
