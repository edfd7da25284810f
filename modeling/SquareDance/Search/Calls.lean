/-
# Choosing a concept and a call

A candidate begins with `pickConcept`: it goes on to the next call when all choices
for the last one have been tried, and to the next stage when a scan is complete, and
it says which concept stands before the call, if one does.  `pickCall` chooses the
call.  A call that is rejected is not replaced; the candidate is given up.
-/

import SquareDance.Search

namespace SquareDance
namespace Search

/-- Begin a search.  Goals that look for a resolve or a formation begin with the
scans; without calls there is nothing to search. -/
def start (s : Search) (goal : Goal) : Search :=
  let stage : Stage :=
    if s.catalog.calls.isEmpty then .idle else if goal.scansFirst then .starting else .random
  { s with goal, odometer := {}, conceptScan := {}, cursor := {} }.enter stage

/-- End a search. -/
def finish (s : Search) : Search := s.enter .idle

/-- The scans try calls under concepts, too. -/
def scansConcepts (s : Search) : Bool :=
  s.options.conceptScans && s.goal == .resolve && !s.catalog.scanConcepts.isEmpty

/-- Go on when the cursor is back at its start: to the next concept, or to the next
stage. -/
def finishPass (s : Search) : Search :=
  let index := s.conceptScan.index + 1
  if s.stage.hasConcept ∧ index < s.conceptScan.limit then
    { s with conceptScan := { s.conceptScan with index } }
  else
    { s with conceptScan := { index := 0, limit := s.catalog.scanConcepts.length } }.enter
      (if s.scansConcepts then s.stage.next else s.stage.nextPlain)

/-- Begin the first scan at a random call.  This draw is not folded into the hash. -/
def beginScans (s : Search) : Search :=
  let (start, s) :=
    if s.options.diagnostic || s.catalog.calls.isEmpty then (0, s)
    else s.draw s.catalog.calls.size
  { s with cursor := { start, current := (start : Int) - 1 }, odometer := {} }.enter .plainNice

/-- Go on to the next call if all wheels are at zero.  The cursor may go below zero,
from where `pickCall` takes it to the last call. -/
def advanceScan (s : Search) : Search :=
  if s.odometer.rests then
    let s := if s.cursor.current = s.cursor.start then s.finishPass else s
    { s with cursor := { s.cursor with current := s.cursor.current - 1 } }
  else s

/-- The concept that the scan is at, if it is at one. -/
def scannedConcept (s : Search) : Option ConceptId × Search :=
  if s.stage.hasConcept then
    match s.catalog.scanConcepts[s.conceptScan.index]? with
    | some concept => (some concept, s.countConcept)
    | none => (none, s)
  else (none, s)

/-- Decide by chance whether a concept is inserted.  What is folded into the hash is
the decision, not the draw. -/
def decideConcept (s : Search) (haveConcept : Bool) : Bool × Search :=
  if s.goal = .conceptCall ∧ !haveConcept then (true, s)
  else
    match s.goal.conceptOdds? with
    | none => (false, s)
    | some odds =>
      let (n, s) := s.draw 8
      (n < odds, s.fold (if n < odds then 1 else 0))

/-- A concept drawn at random, if there is any. -/
def randomConcept (s : Search) : Option ConceptId × Search :=
  if s.catalog.concepts.isEmpty then (none, s)
  else
    let (i, s) := s.draw s.catalog.concepts.length
    (s.catalog.concepts[i]?, s.countConcept)

/-- Begin a candidate: move on if the last call is done with, and say which concept
stands before the call. -/
def pickConcept (s : Search) (haveConcept : Bool) : Option ConceptId × Search :=
  match s.stage with
  | .idle => (none, s)
  | .starting => (none, s.beginScans)
  | .random =>
    let (wanted, s) := s.decideConcept haveConcept
    if wanted then s.randomConcept else (none, s)
  | .plainNice | .conceptNice | .plainAny | .conceptAny =>
    if haveConcept then (none, s) else s.advanceScan.scannedConcept

/-- The position of the next call: where the cursor is, or a random one. -/
def nextIndex (s : Search) : Nat × Search :=
  if s.stage.isScan then
    let current :=
      if s.cursor.current < 0 then (s.catalog.calls.size : Int) - 1 else s.cursor.current
    (current.toNat, { s with cursor := { s.cursor with current } })
  else s.draw s.catalog.calls.size

/-- The flags that bar a call from the stage. -/
def barringFlags (s : Search) : UInt32 :=
  if s.stage.isNiceOnly then CallFlags.notInResolve ||| CallFlags.notInNiceResolve
  else CallFlags.notInResolve

/-- Choose the call of a candidate. -/
def pickCall (s : Search) : Except PickError Nat × Search :=
  if s.catalog.calls.isEmpty then (.error .emptyCallList, s)
  else
    let (index, s) := s.nextIndex
    let s := s.fold index
    match s.catalog.calls[index]? with
    | none => (.error .emptyCallList, s)
    | some call =>
      if s.goal.isLevelCall ∧ call.level < s.options.callingLevel.floor then
        (.error .levelReject, s.countLevelReject)
      else if call.flags1 &&& s.barringFlags ≠ 0 then (.error .flagReject, s.countFlagReject)
      else (.ok index, s.countPick)

end Search
end SquareDance
