/-
# Goals of a search

What a search is for decides whether it begins with the scans, and how often a
random choice puts a concept in front of the call.
-/

import SquareDance.Level

namespace SquareDance

/-- What a search is for. -/
inductive Goal where
  | resolve
  | reconcile
  | normalize
  | standardize
  | createAnyLines
  | createWaves
  | create2fl
  | createLiLo
  | createColumns
  | randomCall
  | conceptCall
  | levelCall
  | eightPersonLevelCall
  deriving DecidableEq, Inhabited

namespace Goal

/-- Every goal. -/
def all : List Goal :=
  [resolve, reconcile, normalize, standardize, createAnyLines, createWaves, create2fl, createLiLo,
   createColumns, randomCall, conceptCall, levelCall, eightPersonLevelCall]

/-- The written name of a goal. -/
def name : Goal → String
  | resolve => "resolve"
  | reconcile => "reconcile"
  | normalize => "normalize"
  | standardize => "standardize"
  | createAnyLines => "create_any_lines"
  | createWaves => "create_waves"
  | create2fl => "create_2fl"
  | createLiLo => "create_li_lo"
  | createColumns => "create_columns"
  | randomCall => "random_call"
  | conceptCall => "concept_call"
  | levelCall => "level_call"
  | eightPersonLevelCall => "8person_level_call"

/-- The goal with a given written name. -/
def ofName? (s : String) : Option Goal := all.find? (·.name == s)

/-- **A goal is found by its name.** -/
@[simp] theorem ofName?_name (g : Goal) : ofName? g.name = some g := by
  cases g <;> rfl

/-- The search begins with the scans. -/
def scansFirst : Goal → Bool
  | randomCall | conceptCall | levelCall | eightPersonLevelCall => false
  | _ => true

/-- Only calls of the level that is being called will do. -/
def isLevelCall : Goal → Bool
  | levelCall | eightPersonLevelCall => true
  | _ => false

/-- How often, out of eight times, a random choice begins with a concept. -/
def conceptOdds? : Goal → Option Nat
  | standardize => some 6
  | resolve | randomCall | conceptCall => some 2
  | _ => none

end Goal

/-- What shapes a search. -/
structure SearchOptions where
  callingLevel : Level := .mainstream
  /-- The level from which on beaus and belles are tried. -/
  beauBelleLevel : Level := .a2
  /-- Scan for resolves under a concept, too. -/
  conceptScans : Bool := false
  /-- Begin the scans at the first call, not at a random one. -/
  diagnostic : Bool := false
  deriving DecidableEq, Inhabited

/-- How a resolve that was found is to be judged. -/
inductive ResolveGoodness where
  | onlyNice
  | always
  /-- By chance. -/
  | maybe
  deriving DecidableEq, Inhabited

end SquareDance
