/-
# What a scan should try

A combination is a call with a choice for each of its blanks.  Which combinations there
are depends on the catalog, on the options and on the stage, not on where the search
happens to be.  The scans are made in passes, one for a plain stage and one for each
concept for a stage with concepts: `Pass.all`.

| Blank | Choices |
|---|---|
| designator | the first four for plain nice resolves, else six, or eight from a level on |
| direction | left and right for plain nice resolves, else inward and outward, too |
| one or two numbers | 1 to 4 each, or 1 and 3 if they have to be odd |
| three to five numbers | ones |
| tagging call | those of the class that a scan may use |
| circulating call | all |

What the tagging call is filled with does not tell calls far down a class apart; a
combination does.
-/

import Mathlib.Data.List.Forall2
import SquareDance.Search.Candidate

namespace SquareDance

/-- A choice for a blank. -/
inductive Choice where
  | designator (d : Designator)
  | direction (d : CallDirection)
  | numbers (ns : List Nat)
  /-- The class of a tagging call, and its position there. -/
  | tagger (cls position : Nat)
  /-- A circulating call, counted from 1. -/
  | circulator (n : Nat)
  deriving DecidableEq, Inhabited

/-- Numbers for the places from a given one on, packed with six bits each. -/
def packNumbers (place : Nat) : List Nat → UInt32
  | [] => 0
  | n :: more => UInt32.ofNat n <<< UInt32.ofNat (6 * place) ||| packNumbers (place + 1) more

/-- What a blank is filled with. -/
def Choice.filling : Choice → Filling
  | designator d => .designator d
  | direction d => .direction d
  | numbers ns => .numbers (packNumbers 0 ns)
  | tagger cls position => .tagger (UInt32.ofNat cls <<< 5 ||| UInt32.ofNat (position + 1))
  | circulator n => .circulator n

/-- A call with choices for its blanks. -/
structure Combination where
  /-- The position of the call in the catalog. -/
  call : Nat
  choices : List Choice
  deriving DecidableEq, Inhabited

/-- The candidate that is made of a combination, with a concept before it or without. -/
def Combination.candidate (concept : Option ConceptId) (c : Combination) : Candidate :=
  { concept, call := some c.call, fillings := c.choices.map Choice.filling }

/-! ### Choices -/

/-- What the choices of a scan depend on. -/
structure Scan where
  catalog : Catalog
  options : SearchOptions
  stage : Stage

/-- The scan that a search is at. -/
def Search.scan (s : Search) : Scan := ⟨s.catalog, s.options, s.stage⟩

/-- The numbers to choose from for each of some places. -/
def offeredNumbers (count : Nat) (odd : Bool) : List Nat :=
  if 2 < count then [1] else if odd then [1, 3] else [1, 2, 3, 4]

namespace Scan

/-- The people to choose from. -/
def designators (k : Scan) : List Designator :=
  if k.stage = .plainNice then [.boys, .girls, .centers, .ends]
  else if k.options.callingLevel < k.options.beauBelleLevel then
    [.boys, .girls, .centers, .ends, .leads, .trailers]
  else [.boys, .girls, .centers, .ends, .leads, .trailers, .beaus, .belles]

/-- The directions to choose from. -/
def directions (k : Scan) : List CallDirection :=
  if k.stage = .plainNice then [.left, .right] else [.left, .right, .inward, .outward]

/-- A choice may be made for a blank. -/
def Offers (k : Scan) : Blank → Choice → Prop
  | .designator, .designator d => d ∈ k.designators
  | .direction, .direction d => d ∈ k.directions
  | .numbers count odd, .numbers ns =>
    count ≤ maxNumbers ∧ ns.length = count ∧ ∀ n ∈ ns, n ∈ offeredNumbers count odd
  | .tagger cls, .tagger cls' position =>
    cls' = cls ∧ ∃ call, (k.catalog.taggersOf cls)[position]? = some call ∧
      call.isScannableTagger = true
  | .circulator, .circulator n => 1 ≤ n ∧ n ≤ k.catalog.circulators.size
  | _, _ => False

/-- A call is not barred by its flags. -/
def Allows (k : Scan) (call : CatalogCall) : Prop :=
  call.flags1 &&& CallFlags.notInResolve = 0 ∧
    (k.stage.isNiceOnly = true → call.flags1 &&& CallFlags.notInNiceResolve = 0)

/-- A combination of a call that is not barred with choices for all blanks that it has. -/
def Includes (k : Scan) (c : Combination) : Prop :=
  ∃ call, k.catalog.calls[c.call]? = some call ∧ k.Allows call ∧
    List.Forall₂ k.Offers call.blanks c.choices

end Scan

/-! ### Passes -/

/-- A pass through all calls, at a stage and at the position of a concept. -/
structure Pass where
  stage : Stage
  index : Nat := 0
  deriving DecidableEq, Inhabited

namespace Pass

/-- The concept before the calls of a pass. -/
def concept? (p : Pass) (catalog : Catalog) : Option ConceptId :=
  if p.stage.hasConcept then catalog.scanConcepts[p.index]? else none

/-- The passes with concepts, one for each concept. -/
def underConcepts (stage : Stage) (catalog : Catalog) : List Pass :=
  (List.range catalog.scanConcepts.length).map fun index => { stage, index }

/-- All passes in order.  Only resolves are looked for under concepts, and only if that is
wanted. -/
def all (goal : Goal) (catalog : Catalog) (options : SearchOptions) : List Pass :=
  if options.conceptScans = true ∧ goal = .resolve then
    [{ stage := .plainNice }] ++ underConcepts .conceptNice catalog
      ++ [{ stage := .plainAny }] ++ underConcepts .conceptAny catalog
  else [{ stage := .plainNice }, { stage := .plainAny }]

end Pass

/-! ### Runs -/

namespace Search

/-- The next candidates, each with the search after it, and the search after all. -/
def run (s : Search) : Nat → List (Candidate × Search) × Search
  | 0 => ([], s)
  | n + 1 =>
    let (c, s) := s.nextCandidate
    let (log, t) := s.run n
    ((c, s) :: log, t)

/-- A search makes the candidates of a log, one after another. -/
def Makes (s : Search) (log : List (Candidate × Search)) (t : Search) : Prop :=
  s.run log.length = (log, t)

end Search

/-- What a pass made is complete: all candidates were made at its stage, at its concept
and with this concept before them; those that were not given up are the
combinations of the scan, each of them once. -/
structure Pass.IsComplete (catalog : Catalog) (options : SearchOptions) (p : Pass)
    (log : List (Candidate × Search)) : Prop where
  ne_nil : log ≠ []
  stage : ∀ a ∈ log, a.2.stage = p.stage
  index : ∀ a ∈ log, a.2.conceptScan.index = p.index
  concept : ∀ a ∈ log, a.1.concept = p.concept? catalog
  once : ∃ combinations : List Combination, combinations.Nodup ∧
    (∀ c, c ∈ combinations ↔ Scan.Includes ⟨catalog, options, p.stage⟩ c) ∧
      (log.map (·.1)).filter (·.failure.isNone)
        = combinations.map (·.candidate (p.concept? catalog))

end SquareDance
