/-
# Stages of a search

A search for a call goes through stages.  The four scans try every call with every
choice of its blanks, at first only those that make for nice resolves, with and
without a concept in front; then the search is random.  A search goes through the
stages in order and never back.
-/

namespace SquareDance

/-- A stage of a search. -/
inductive Stage where
  /-- The scans are about to begin. -/
  | starting
  /-- Plain calls for nice resolves. -/
  | plainNice
  /-- Calls under a concept for nice resolves. -/
  | conceptNice
  | plainAny
  | conceptAny
  | random
  /-- No search is going on. -/
  | idle
  deriving DecidableEq, Inhabited

namespace Stage

/-- The stages in order. -/
def all : List Stage := [starting, plainNice, conceptNice, plainAny, conceptAny, random, idle]

/-- The position of a stage in the order. -/
def index : Stage → Nat
  | starting => 0
  | plainNice => 1
  | conceptNice => 2
  | plainAny => 3
  | conceptAny => 4
  | random => 5
  | idle => 6

/-- The stage at a position of the order. -/
def ofIndex? (i : Nat) : Option Stage := all[i]?

/-- **A stage is found at its index.** -/
@[simp] theorem ofIndex?_index (s : Stage) : ofIndex? s.index = some s := by
  cases s <;> rfl

/-- The stage is a scan. -/
def isScan : Stage → Bool
  | plainNice | conceptNice | plainAny | conceptAny => true
  | _ => false

/-- Only calls for nice resolves are wanted. -/
def isNiceOnly : Stage → Bool
  | plainNice | conceptNice => true
  | _ => false

/-- Calls are tried under a concept. -/
def hasConcept : Stage → Bool
  | conceptNice | conceptAny => true
  | _ => false

/-- The name of a stage in a list of what was picked. -/
def label : Stage → String
  | starting => "StartingFirstScan"
  | plainNice => "PlainNiceOnly"
  | conceptNice => "ConceptNiceOnly"
  | plainAny => "PlainAcceptAll"
  | conceptAny => "ConceptAcceptAll"
  | random => "RandomSearch"
  | idle => "NotPicking"

/-- What is shown while the search is at the stage. -/
def caption? : Stage → Option String
  | starting => some "pick start first scan"
  | plainNice => some "pick plain nice scan"
  | conceptNice => some "pick concept nice scan"
  | plainAny => some "pick plain any scan"
  | conceptAny => some "pick concept any scan"
  | random => some "pick random search"
  | idle => none

/-- The following stage; the last one follows itself. -/
def next : Stage → Stage
  | starting => plainNice
  | plainNice => conceptNice
  | conceptNice => plainAny
  | plainAny => conceptAny
  | conceptAny => random
  | random => idle
  | idle => idle

/-- The following stage that does without concepts. -/
def nextPlain (s : Stage) : Stage := if s.next.hasConcept then s.next.next else s.next

/-- The next plain stage is one without concepts. -/
theorem hasConcept_nextPlain (s : Stage) : s.nextPlain.hasConcept = false := by
  cases s <;> rfl

/-- The next stage is no earlier. -/
theorem index_le_next (s : Stage) : s.index ≤ s.next.index := by
  cases s <;> decide

/-- The next plain stage is no earlier. -/
theorem index_le_nextPlain (s : Stage) : s.index ≤ s.nextPlain.index := by
  cases s <;> decide

end Stage
end SquareDance
