/-
# Candidates

A candidate is a call, perhaps with a concept before it, and what fills its blanks.
The search makes one choice after another and gives the candidate up at the first
that cannot be made.
-/

import SquareDance.Search.Blanks

namespace SquareDance

/-- Something to fill in. -/
inductive Blank where
  | designator
  | direction
  | numbers (count : Nat) (odd : Bool)
  | tagger (cls : Nat)
  | circulator
  deriving DecidableEq, Inhabited

/-- What a blank is filled with. -/
inductive Filling where
  | designator (d : Designator)
  | direction (d : CallDirection)
  | numbers (packed : UInt32)
  | tagger (packed : UInt32)
  | circulator (n : Nat)
  deriving DecidableEq, Inhabited

/-- The blanks of a call, in the order in which they are filled in. -/
def CatalogCall.blanks (c : CatalogCall) : List Blank :=
  (if c.needs.designator then [.designator] else [])
    ++ (if c.needs.direction then [.direction] else [])
    ++ (if c.numberCount ≠ 0 then [.numbers c.numberCount c.needs.oddNumbers] else [])
    ++ (c.needs.tagger.toList.map .tagger)
    ++ (if c.needs.circulator then [.circulator] else [])

/-- A candidate, or what there is of one that was given up. -/
structure Candidate where
  concept : Option ConceptId := none
  /-- The position of the call in the catalog. -/
  call : Option Nat := none
  fillings : List Filling := []
  /-- Why the candidate was given up. -/
  failure : Option PickError := none
  deriving DecidableEq, Inhabited

namespace Search

/-- Fill in a blank. -/
def fill (s : Search) : Blank → Except PickError Filling × Search
  | .designator =>
    let (d, s) := s.pickDesignator true
    (.ok (.designator d), s)
  | .direction =>
    let (d, s) := s.pickDirection
    (.ok (.direction d), s)
  | .numbers count odd =>
    let (r, s) := s.pickNumbers count odd true
    (r.map .numbers, s)
  | .tagger cls =>
    let (r, s) := s.pickTagger cls
    (r.map .tagger, s)
  | .circulator =>
    let (r, s) := s.pickCirculator
    (r.map .circulator, s)

/-- Fill in blanks up to the first that cannot be filled in. -/
def fillAll (s : Search) : List Blank → (List Filling × Option PickError) × Search
  | [] => (([], none), s)
  | b :: rest =>
    match s.fill b with
    | (.error e, s) => (([], some e), s)
    | (.ok filling, s) =>
      let ((fillings, failure), s) := s.fillAll rest
      ((filling :: fillings, failure), s)

/-- Make the next candidate. -/
def nextCandidate (s : Search) : Candidate × Search :=
  let (concept, s) := s.pickConcept false
  match s.pickCall with
  | (.error e, s) => ({ concept, failure := some e }, s)
  | (.ok index, s) =>
    let blanks := (s.catalog.calls[index]?.map (·.blanks)).getD []
    let ((fillings, failure), s) := s.fillAll blanks
    ({ concept, call := some index, fillings, failure }, s)

end Search
end SquareDance
