/-
# Searches

A search holds the catalog that it chooses from, the draws that random choices are
made with, and where it is: its stage, the cursor in the list of calls, the odometer
of the blanks.  Every choice is folded into a hash, so that a candidate is known
by what was chosen; the search remembers the hashes of candidates that were tried.

A draw below a modulus is the next number of a list, reduced; when the list has run
out, it is zero.
-/

import SquareDance.Search.Catalog
import SquareDance.Search.Goal
import SquareDance.Search.Odometer
import SquareDance.Search.Stage

namespace SquareDance

/-- Where a scan is in the list of calls.  It goes backward from just before the
start, and is complete when it has been at the start itself. -/
structure ScanCursor where
  start : Int := 0
  current : Int := 0
  deriving DecidableEq, Inhabited

/-- Where a scan is in the list of concepts. -/
structure ConceptScan where
  index : Nat := 0
  limit : Nat := 0
  deriving DecidableEq, Inhabited

/-- What happened during a search. -/
structure SearchStatistics where
  callsPicked : Nat := 0
  levelRejects : Nat := 0
  flagRejects : Nat := 0
  conceptsInserted : Nat := 0
  stageChanges : Nat := 0
  deriving DecidableEq, Inhabited

/-- The counts as text. -/
def SearchStatistics.render (s : SearchStatistics) : String :=
  "calls_picked=" ++ toString s.callsPicked ++ " level_rejects=" ++ toString s.levelRejects
    ++ " flag_rejects=" ++ toString s.flagRejects ++ " concepts_inserted="
    ++ toString s.conceptsInserted ++ " stage_changes=" ++ toString s.stageChanges

/-- Why a choice cannot be made.  The candidate is given up. -/
inductive PickError where
  | noAcceptableTaggers (cls : Nat)
  | levelReject
  | flagReject
  | noCirculators
  | emptyCallList
  | tooManyNumbers (requested : Nat)
  deriving DecidableEq, Inhabited

/-- How many numbers can be chosen for one call. -/
def maxNumbers : Nat := 5

/-- What is wrong, as text.  A class is given by its last eight bits. -/
def PickError.message : PickError → String
  | noAcceptableTaggers cls => "no acceptable taggers in class " ++ toString (cls % 256)
  | levelReject => "level reject"
  | flagReject => "call not usable in this resolve"
  | noCirculators => "no circulating calls"
  | emptyCallList => "the call list is empty"
  | tooManyNumbers requested =>
    "at most " ++ toString maxNumbers ++ " numbers may be requested, not " ++ toString requested

/-- A search. -/
structure Search where
  catalog : Catalog
  options : SearchOptions := {}
  draws : List UInt32 := []
  stage : Stage := .idle
  goal : Goal := .resolve
  odometer : Odometer := {}
  cursor : ScanCursor := {}
  conceptScan : ConceptScan := {}
  hash : UInt32 := 0
  /-- The hashes of the candidates that were tried. -/
  seen : List UInt32 := []
  statistics : SearchStatistics := {}
  deriving DecidableEq

namespace Search

instance : Inhabited Search := ⟨{ catalog := {} }⟩

/-- What the hash is multiplied by for each choice. -/
def hashMultiplier : UInt32 := 1049633

/-- A draw below a modulus. -/
def draw (s : Search) (modulus : Nat) : Nat × Search :=
  match s.draws with
  | [] => (0, s)
  | d :: rest => (d.toNat % modulus, { s with draws := rest })

/-- A draw is less than what it is drawn for. -/
theorem draw_lt (s : Search) {modulus : Nat} (h : 0 < modulus) : (s.draw modulus).1 < modulus := by
  unfold draw
  split
  · exact h
  · exact Nat.mod_lt _ h

/-- Fold a choice into the hash. -/
def fold (s : Search) (n : Nat) : Search :=
  { s with hash := s.hash * hashMultiplier + UInt32.ofNat n }

/-- Count something that happened. -/
def count (s : Search) (f : SearchStatistics → SearchStatistics) : Search :=
  { s with statistics := f s.statistics }

/-- One concept more was put before a call. -/
def countConcept (s : Search) : Search :=
  s.count fun t => { t with conceptsInserted := t.conceptsInserted + 1 }

/-- One call more was rejected for its flags. -/
def countFlagReject (s : Search) : Search :=
  s.count fun t => { t with flagRejects := t.flagRejects + 1 }

/-- One call more was rejected for its level. -/
def countLevelReject (s : Search) : Search :=
  s.count fun t => { t with levelRejects := t.levelRejects + 1 }

/-- One call more was picked. -/
def countPick (s : Search) : Search :=
  s.count fun t => { t with callsPicked := t.callsPicked + 1 }

/-- Go to a stage. -/
def enter (s : Search) (stage : Stage) : Search :=
  { s with
    stage
    statistics := { s.statistics with stageChanges := s.statistics.stageChanges + 1 } }

/-- Set all wheels to zero. -/
def resetOdometer (s : Search) : Search := { s with odometer := {} }

/-- Remember the candidate with the current hash; it is new if it was not tried
before. -/
def remember (s : Search) : Bool × Search :=
  if s.seen.contains s.hash then (false, s) else (true, { s with seen := s.hash :: s.seen })

/-- A candidate with the current hash was tried before. -/
def alreadySeen (s : Search) : Bool := s.seen.contains s.hash

/-- Forget all candidates. -/
def forget (s : Search) : Search := { s with seen := [] }

/-! ### What the stage means -/

/-- How a resolve that was found is to be judged. -/
def goodness (s : Search) : ResolveGoodness :=
  match s.stage with
  | .idle | .random => .maybe
  | .plainNice | .conceptNice => .onlyNice
  | _ => .always

/-- A candidate may be more than one call long. -/
def allowsSeveralCalls (s : Search) : Bool := !s.stage.isScan

/-- Calls with a part that has to be chosen cannot be used. -/
def forbidsMandatoryParts (s : Search) : Bool := s.stage.isScan

/-- Parts of calls may be chosen at random. -/
def allowsRandomParts (s : Search) : Bool := s.stage == .random

end Search
end SquareDance
