/-
# The scans come to an end

The odometer comes back to zero after the attempts on a call, also if the call cannot be
filled in, so every pass has as many attempts as its calls take together: `Pass.TriesAll.length`.
Main statement: `scans_end`.  After the attempts of all passes, and not before, the search is
random.
-/

import SquareDance.Proofs.Search.Coverage

namespace SquareDance

/-- A goal that begins with the scans takes calls of every level. -/
theorem Goal.isLevelCall_of_scansFirst {goal : Goal} (h : goal.scansFirst = true) :
    goal.isLevelCall = false := by
  cases goal <;> first | rfl | cases h

namespace Pass

variable {catalog : Catalog} {options : SearchOptions} {p : Pass}

/-- The number of attempts on the call at a position, if there is one. -/
def attemptsAt (catalog : Catalog) (options : SearchOptions) (p : Pass) (i : Nat) : Nat :=
  (catalog.calls[i]?.map (Scan.attempts ⟨catalog, options, p.stage⟩)).getD 0

/-- The attempts on all positions are those on all calls. -/
theorem map_attemptsAt (catalog : Catalog) (options : SearchOptions) (p : Pass) :
    (List.range catalog.calls.size).map (p.attemptsAt catalog options)
      = catalog.calls.toList.map (Scan.attempts ⟨catalog, options, p.stage⟩) := by
  refine List.ext_getElem (by simp) fun i h h' => ?_
  have hi : i < catalog.calls.size := by simpa using h
  simp only [List.getElem_map, List.getElem_range, attemptsAt, Array.getElem?_eq_getElem hi,
    Option.map_some, Option.getD_some, Array.getElem_toList]

/-- The parts of a pass are as long as the attempts on their calls are many. -/
theorem length_of_triesCalls {order : List Nat} {parts : List (List (Candidate × Search))}
    (h : List.Forall₂ (p.TriesCall catalog options) order parts) :
    parts.flatten.length = (order.map (p.attemptsAt catalog options)).sum := by
  induction h with
  | nil => rfl
  | cons hpart _ ih =>
    obtain ⟨call, hcall, hlength, -⟩ := hpart
    rw [List.flatten_cons, List.length_append, List.map_cons, List.sum_cons, ih, attemptsAt, hcall,
      Option.map_some, Option.getD_some, hlength]

/-- **A pass has as many attempts as its calls take together.** -/
theorem TriesAll.length {log : List (Candidate × Search)} (h : p.TriesAll catalog options log) :
    log.length = p.attempts catalog options := by
  obtain ⟨order, parts, horder, rfl, htries⟩ := h
  rw [length_of_triesCalls htries, (horder.map _).sum_nat, map_attemptsAt, attempts]

/-- So do passes one after another. -/
theorem length_flatten_of_triesAll {passes : List Pass} {parts : List (List (Candidate × Search))}
    (h : List.Forall₂ (Pass.TriesAll catalog options) passes parts) :
    parts.flatten.length = (passes.map (Pass.attempts catalog options)).sum := by
  induction h with
  | nil => rfl
  | cons hpart _ ih =>
    rw [List.flatten_cons, List.length_append, List.map_cons, List.sum_cons, ih, hpart.length]

end Pass

/-- **The scans end.**  Whatever the catalog, the options and the draws are, each pass of a
search that begins with the scans makes for each call the attempts that it takes, once if it is
barred, for all rows of choices if it can be filled in, and for all rows inside of the first
blank that cannot be filled in otherwise.  The next candidate after all of them is random. -/
theorem scans_end {s : Search} {goal : Goal} (hcalls : s.catalog.calls.isEmpty = false)
    (hgoal : goal.scansFirst = true) : ∃ parts t,
      (s.start goal).Makes parts.flatten t ∧
        List.Forall₂ (Pass.TriesAll s.catalog s.options) (Pass.all goal s.catalog s.options) parts ∧
          parts.flatten.length
              = ((Pass.all goal s.catalog s.options).map (Pass.attempts s.catalog s.options)).sum ∧
            (t.pickConcept false).2.stage = .random := by
  have hsize : 0 < s.catalog.calls.size :=
    Array.size_pos_iff.2 (Array.isEmpty_eq_false_iff.1 hcalls)
  obtain ⟨t, ⟨parts, hparts, hpasses⟩, hscan, hrandom⟩ := Search.makesPasses_all
    (Goal.isLevelCall_of_scansFirst hgoal) (Search.beginsPass_beginScans goal hsize)
  have htries := hpasses.imp fun _ _ hpass => hpass.2
  refine ⟨parts, t, Search.makes_start hcalls hgoal hparts, htries,
    Pass.length_flatten_of_triesAll htries, ?_⟩
  rw [Search.stage_pickConcept hscan, hrandom]

/-- The sample has a call that is barred, and calls that ask for too many numbers and, without
a tagging call that a scan may use, for one. -/
def unfillableSearch : Search where
  catalog :=
    { Catalog.ofCalls [
        .make "@6 walk @h" .mainstream CallFlags.numberUnit,
        .make "never" .mainstream CallFlags.notInResolve,
        .make "@6 relay @h" .mainstream (6 * CallFlags.numberUnit),
        .make "@h @w @N" .plus (2 * CallFlags.numberUnit)] with
      scanConcepts := [3, 5] }
  options := { conceptScans := true }
  draws := [2]

/-- It makes 73 attempts in the first pass and 185 in each of the others. -/
theorem scans_end_unfillableSearch :
    unfillableSearch.catalog.calls.isEmpty = false ∧ Goal.resolve.scansFirst = true ∧
      ∃ parts t, (unfillableSearch.start .resolve).Makes parts.flatten t ∧
        List.Forall₂ (Pass.TriesAll unfillableSearch.catalog unfillableSearch.options)
          (Pass.all .resolve unfillableSearch.catalog unfillableSearch.options) parts ∧
          parts.flatten.length = 73 + 5 * 185 ∧ (t.pickConcept false).2.stage = .random := by
  have hgoal : Goal.resolve.scansFirst = true := by decide
  obtain ⟨parts, t, hmakes, htries, hlength, hrandom⟩ :=
    scans_end (s := unfillableSearch) (by decide +kernel) hgoal
  refine ⟨by decide +kernel, hgoal, parts, t, hmakes, htries, hlength.trans ?_, hrandom⟩
  decide +kernel

end SquareDance
