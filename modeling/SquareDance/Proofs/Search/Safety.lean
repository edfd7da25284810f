/-
# Operations in any order

The operations on a search need not follow one another as the candidates do: the cursor may
have gone below zero by any number of calls, and the odometer may have been left by a call with
other blanks.  What keeps every choice within the catalog is little: the cursor is below the
number of calls, a stage with concepts is at one of them, and the wheel of circulating calls is
below their number or at zero (`Search.IsSound`).  The other wheels may be anywhere, because
what is read off them is reduced first.

Main statement: `safe_of_operations`.  Each choice of a search that was reached by operations
in any order is one that the catalog has (`Search.IsSafe`).
-/

import SquareDance.Proofs.Search.Choices
import SquareDance.Proofs.Search.Coverage

namespace SquareDance

/-! ### Operations -/

/-- Something that can be done with a search. -/
inductive Operation where
  | start (goal : Goal)
  | finish
  | pickConcept (haveConcept : Bool)
  | pickCall
  | pickDesignator (iterate : Bool)
  | pickDirection
  | pickNumbers (count : Nat) (odd iterate : Bool)
  | pickTagger (cls : Nat)
  | pickCirculator
  | resetOdometer
  | setOptions (options : SearchOptions)
  | setHash (hash : UInt32)
  | remember
  | forget
  deriving DecidableEq

namespace Operation

/-- The search after an operation. -/
def apply : Operation → Search → Search
  | start goal, s => s.start goal
  | finish, s => s.finish
  | pickConcept haveConcept, s => (s.pickConcept haveConcept).2
  | pickCall, s => s.pickCall.2
  | pickDesignator iterate, s => (s.pickDesignator iterate).2
  | pickDirection, s => s.pickDirection.2
  | pickNumbers count odd iterate, s => (s.pickNumbers count odd iterate).2
  | pickTagger cls, s => (s.pickTagger cls).2
  | pickCirculator, s => s.pickCirculator.2
  | resetOdometer, s => s.resetOdometer
  | setOptions options, s => { s with options }
  | setHash hash, s => { s with hash }
  | remember, s => s.remember.2
  | forget, s => s.forget

/-- The operation begins a search anew. -/
def isStart : Operation → Bool
  | start _ => true
  | _ => false

end Operation

/-- The search after some operations, one after another. -/
def Search.after (s : Search) (operations : List Operation) : Search :=
  operations.foldl (fun s operation => operation.apply s) s

/-! ### What is safe -/

/-- Whatever is chosen next is within the catalog, and the stages go on in order. -/
structure Search.IsSafe (catalog : Catalog) (s : Search) : Prop where
  call_ne : s.pickCall.1 ≠ .error .emptyCallList
  call_lt : ∀ i, s.pickCall.1 = .ok i → i < catalog.calls.size
  designator : ∀ iterate, (s.pickDesignator iterate).1 ∈ Designator.resolveEligible
  direction : s.pickDirection.1 ∈
    CallDirection.all.take (CallDirection.availableAt s.options.callingLevel)
  numbers : ∀ count odd iterate packed, (s.pickNumbers count odd iterate).1 = .ok packed →
    PacksNumbers count packed
  tagger : ∀ cls packed, (s.pickTagger cls).1 = .ok packed → catalog.NamesTagger cls packed
  circulator : ∀ n, s.pickCirculator.1 = .ok n → 1 ≤ n ∧ n ≤ catalog.circulators.size
  /-- A concept stands before the call in a stage with concepts. -/
  concept : (s.pickConcept false).2.stage.hasConcept = true →
    ∃ concept ∈ catalog.scanConcepts, (s.pickConcept false).1 = some concept
  stage : ∀ operation : Operation, operation.isStart = false →
    s.stage.index ≤ (operation.apply s).stage.index

/-! ### What is kept -/

/-- What is true of a search whatever was done with it. -/
structure Search.IsSound (catalog : Catalog) (s : Search) : Prop where
  /-- The cursor may be below zero, and then stands for the last call. -/
  current : s.cursor.current < catalog.calls.size
  concept : s.stage.hasConcept = true →
    s.conceptScan.index < s.conceptScan.limit ∧ s.conceptScan.limit = catalog.scanConcepts.length
  circulator : s.odometer.circulator ≠ 0 → s.odometer.circulator < catalog.circulators.size
  catalog : s.catalog = catalog

namespace Search

variable {catalog : Catalog} {s t : Search}

/-- A step that keeps the search keeps it sound. -/
theorem IsSound.of_keeps (h : s.IsSound catalog) (hkeeps : s.Keeps t) : t.IsSound catalog := by
  obtain ⟨hcatalog, hstage, hcursor, hscan, hcirculator⟩ := hkeeps
  refine ⟨?_, ?_, ?_, hcatalog.trans h.catalog⟩
  · rw [hcursor]
    exact h.current
  · rw [hstage, hscan]
    exact h.concept
  · rw [hcirculator]
    exact h.circulator

/-! ### Circulating calls -/

/-- **Choosing a circulating call** gives one of the list, wherever the wheel is. -/
theorem pickCirculator_spec (h : s.IsSound catalog) : s.pickCirculator.2.IsSound catalog ∧
    s.pickCirculator.2.stage = s.stage ∧
      ∀ n, s.pickCirculator.1 = .ok n → 1 ≤ n ∧ n ≤ catalog.circulators.size := by
  obtain ⟨hcurrent, hconcept, hcirculator, rfl⟩ := h
  unfold pickCirculator
  by_cases hzero : s.catalog.circulators.size = 0
  · rw [if_pos hzero]
    exact ⟨⟨hcurrent, hconcept, hcirculator, rfl⟩, rfl, fun n hn => by cases hn⟩
  · rw [if_neg hzero]
    have hpos := Nat.pos_of_ne_zero hzero
    by_cases hscan : s.stage.isScan = true
    · rw [if_pos hscan]
      have hlt : s.odometer.circulator < s.catalog.circulators.size := by
        by_cases hwheel : s.odometer.circulator = 0
        · omega
        · exact hcirculator hwheel
      have hturned : ∀ p, (p ≠ 0 → p < s.catalog.circulators.size) →
          ({ s with odometer := { s.odometer with circulator := p } }).IsSound s.catalog :=
        fun p hp => ⟨hcurrent, hconcept, hp, rfl⟩
      dsimp only
      split
      · exact ⟨(hturned _ fun _ => Odometer.turn_lt hpos).of_keeps (keeps_fold _ _),
          (keeps_fold _ _).stage, fun n hn => by cases hn; omega⟩
      · exact ⟨(hturned _ hcirculator).of_keeps (keeps_fold _ _), (keeps_fold _ _).stage,
          fun n hn => by cases hn; omega⟩
    · rw [if_neg hscan]
      have hlt := s.draw_lt hpos
      have hkeeps := (s.keeps_draw s.catalog.circulators.size).trans
        (keeps_fold _ (s.draw s.catalog.circulators.size).1)
      exact ⟨.of_keeps ⟨hcurrent, hconcept, hcirculator, rfl⟩ hkeeps, hkeeps.stage,
        fun n hn => by cases hn; exact ⟨by omega, hlt⟩⟩

/-! ### Calls -/

/-- The position of the next call is one of the catalog. -/
theorem nextIndex_spec (h : s.IsSound catalog) (hsize : 0 < catalog.calls.size) :
    s.nextIndex.1 < catalog.calls.size ∧ s.nextIndex.2.IsSound catalog ∧
      s.nextIndex.2.stage = s.stage := by
  obtain ⟨hcurrent, hconcept, hcirculator, rfl⟩ := h
  unfold nextIndex
  by_cases hscan : s.stage.isScan = true
  · rw [if_pos hscan]
    refine ⟨?_, ⟨?_, hconcept, hcirculator, rfl⟩, rfl⟩
    · dsimp only
      split <;> omega
    · dsimp only
      split <;> omega
  · rw [if_neg hscan]
    have hkeeps := s.keeps_draw s.catalog.calls.size
    exact ⟨s.draw_lt hsize, .of_keeps ⟨hcurrent, hconcept, hcirculator, rfl⟩ hkeeps,
      hkeeps.stage⟩

/-- **Choosing a call** gives one of the catalog or rejects it. -/
theorem pickCall_spec (h : s.IsSound catalog) (hsize : 0 < catalog.calls.size) :
    s.pickCall.2.IsSound catalog ∧ s.pickCall.2.stage = s.stage ∧
      s.pickCall.1 ≠ .error .emptyCallList ∧
        ∀ i, s.pickCall.1 = .ok i → i < catalog.calls.size := by
  have hne : ¬ s.catalog.calls.isEmpty = true := by
    rw [h.catalog, Array.isEmpty_iff_size_eq_zero]
    omega
  obtain ⟨hlt, hsound, hstage⟩ := nextIndex_spec h hsize
  have hcall : (s.nextIndex.2.fold s.nextIndex.1).catalog.calls[s.nextIndex.1]?
      = some catalog.calls[s.nextIndex.1] := by
    rw [(keeps_fold _ _).catalog, hsound.catalog]
    exact Array.getElem?_eq_getElem hlt
  unfold pickCall
  rw [if_neg hne]
  simp only [hcall]
  have hkeeps := fun f => (keeps_fold s.nextIndex.2 s.nextIndex.1).trans (keeps_count _ f)
  split
  · dsimp only [countLevelReject]
    exact ⟨hsound.of_keeps (hkeeps _), (hkeeps _).stage.trans hstage, by simp,
      fun j hj => by cases hj⟩
  · split
    · dsimp only [countFlagReject]
      exact ⟨hsound.of_keeps (hkeeps _), (hkeeps _).stage.trans hstage, by simp,
        fun j hj => by cases hj⟩
    · dsimp only [countPick]
      refine ⟨hsound.of_keeps (hkeeps _), (hkeeps _).stage.trans hstage, by simp, fun j hj => ?_⟩
      cases hj
      exact hlt

/-! ### Concepts -/

/-- The start of a search is sound: the cursor is on the first call, and no stage with concepts
comes first. -/
theorem IsSound.start (h : s.IsSound catalog) (hsize : 0 < catalog.calls.size) (goal : Goal) :
    (s.start goal).IsSound catalog := by
  refine ⟨Int.natCast_pos.2 hsize, fun hstage => ?_, fun hwheel => absurd rfl hwheel, h.catalog⟩
  unfold Search.start enter at hstage
  dsimp only at hstage
  split at hstage
  · cases hstage
  · split at hstage <;> cases hstage

/-- The first pass begins before a call of the catalog, without a concept. -/
theorem IsSound.beginScans (h : s.IsSound catalog) (hsize : 0 < catalog.calls.size) :
    s.beginScans.IsSound catalog := by
  obtain ⟨-, -, -, rfl⟩ := h
  have hat : ∀ (start : Nat) (u : Search), start < s.catalog.calls.size → u.catalog = s.catalog →
      ({ u with cursor := { start, current := (start : Int) - 1 }, odometer := {} }.enter
        .plainNice).IsSound s.catalog := by
    intro start u hlt hu
    refine ⟨?_, fun hstage => (by cases hstage), fun hwheel => absurd rfl hwheel, hu⟩
    change (start : Int) - 1 < s.catalog.calls.size
    omega
  unfold Search.beginScans
  by_cases hfirst : (s.options.diagnostic || s.catalog.calls.isEmpty) = true
  · rw [if_pos hfirst]
    exact hat 0 s hsize rfl
  · rw [if_neg hfirst]
    exact hat _ _ (s.draw_lt hsize) (s.keeps_draw _).catalog

/-- **Going on when a pass is complete** leads to a concept that there is, or to a later
stage. -/
theorem finishPass_spec (h : s.IsSound catalog) : s.finishPass.IsSound catalog ∧
    s.finishPass.cursor = s.cursor ∧ s.stage.index ≤ s.finishPass.stage.index := by
  obtain ⟨hcurrent, hconcept, hcirculator, rfl⟩ := h
  unfold finishPass
  dsimp only
  by_cases hmore : s.stage.hasConcept = true ∧ s.conceptScan.index + 1 < s.conceptScan.limit
  · rw [if_pos hmore]
    exact ⟨⟨hcurrent, fun hstage => ⟨hmore.2, (hconcept hstage).2⟩, hcirculator, rfl⟩, rfl,
      Nat.le_refl _⟩
  · rw [if_neg hmore]
    by_cases hscans : s.scansConcepts = true
    · have hpos : 0 < s.catalog.scanConcepts.length := by
        unfold scansConcepts at hscans
        rw [Bool.and_eq_true, Bool.not_eq_true'] at hscans
        exact List.length_pos_of_ne_nil fun hnil => by simp [hnil] at hscans
      rw [if_pos hscans]
      exact ⟨⟨hcurrent, fun _ => ⟨hpos, rfl⟩, hcirculator, rfl⟩, rfl, s.stage.index_le_next⟩
    · rw [if_neg hscans]
      refine ⟨⟨hcurrent, fun hstage => ?_, hcirculator, rfl⟩, rfl, s.stage.index_le_nextPlain⟩
      change s.stage.nextPlain.hasConcept = true at hstage
      rw [Stage.hasConcept_nextPlain] at hstage
      cases hstage

/-- To move on in a scan keeps the search sound and never goes back to an earlier stage. -/
theorem advanceScan_spec (h : s.IsSound catalog) :
    s.advanceScan.IsSound catalog ∧ s.stage.index ≤ s.advanceScan.stage.index := by
  unfold advanceScan
  split
  · split
    · obtain ⟨hsound, hcursor, hstage⟩ := finishPass_spec h
      have hcurrent := hsound.current
      exact ⟨⟨by dsimp only; omega, hsound.concept, hsound.circulator, hsound.catalog⟩, hstage⟩
    · have hcurrent := h.current
      exact ⟨⟨by dsimp only; omega, h.concept, h.circulator, h.catalog⟩, Nat.le_refl _⟩
  · exact ⟨h, Nat.le_refl _⟩

/-- The concept of a stage with concepts is one of those that are scanned. -/
theorem scannedConcept_spec (h : s.IsSound catalog) : s.Keeps s.scannedConcept.2 ∧
    (s.stage.hasConcept = true →
      ∃ concept ∈ catalog.scanConcepts, s.scannedConcept.1 = some concept) := by
  unfold scannedConcept
  by_cases hstage : s.stage.hasConcept = true
  · obtain ⟨hlt, hlimit⟩ := h.concept hstage
    rw [hlimit] at hlt
    have hget : s.catalog.scanConcepts[s.conceptScan.index]?
        = some catalog.scanConcepts[s.conceptScan.index] := by
      rw [h.catalog]
      exact List.getElem?_eq_getElem hlt
    rw [if_pos hstage, hget]
    exact ⟨⟨rfl, rfl, rfl, rfl, rfl⟩, fun _ => ⟨_, List.getElem_mem hlt, rfl⟩⟩
  · rw [if_neg hstage]
    exact ⟨⟨rfl, rfl, rfl, rfl, rfl⟩, fun h => absurd h hstage⟩

/-- The decision on a concept keeps the search. -/
theorem keeps_decideConcept (s : Search) (haveConcept : Bool) :
    s.Keeps (s.decideConcept haveConcept).2 := by
  unfold decideConcept
  split
  · exact ⟨rfl, rfl, rfl, rfl, rfl⟩
  · split
    · exact ⟨rfl, rfl, rfl, rfl, rfl⟩
    · exact (s.keeps_draw 8).trans (keeps_fold _ _)

/-- To draw a concept keeps the search. -/
theorem keeps_randomConcept (s : Search) : s.Keeps s.randomConcept.2 := by
  unfold randomConcept
  split
  · exact ⟨rfl, rfl, rfl, rfl, rfl⟩
  · exact (s.keeps_draw _).trans ⟨rfl, rfl, rfl, rfl, rfl⟩

/-- A concept that is chosen at random changes the draws and the hash only. -/
theorem keeps_pickConcept (hrandom : s.stage = .random) (haveConcept : Bool) :
    s.Keeps (s.pickConcept haveConcept).2 := by
  unfold pickConcept
  rw [hrandom]
  dsimp only
  split
  · exact (s.keeps_decideConcept _).trans (keeps_randomConcept _)
  · exact s.keeps_decideConcept _

/-- **Choosing a concept** goes on to a later stage at most, and in a stage with concepts gives
one of those that are scanned. -/
theorem pickConcept_spec (h : s.IsSound catalog) (hsize : 0 < catalog.calls.size)
    (haveConcept : Bool) : (s.pickConcept haveConcept).2.IsSound catalog ∧
      s.stage.index ≤ (s.pickConcept haveConcept).2.stage.index ∧
        (haveConcept = false → (s.pickConcept haveConcept).2.stage.hasConcept = true →
          ∃ concept ∈ catalog.scanConcepts, (s.pickConcept haveConcept).1 = some concept) := by
  by_cases hrandom : s.stage = .random
  · have hkeeps := keeps_pickConcept hrandom haveConcept
    refine ⟨h.of_keeps hkeeps, Nat.le_of_eq (congrArg Stage.index hkeeps.stage.symm),
      fun _ hconcept => ?_⟩
    rw [hkeeps.stage, hrandom] at hconcept
    cases hconcept
  unfold pickConcept
  split
  · rename_i hstage
    exact ⟨h, Nat.le_refl _, fun _ hconcept => by rw [hstage] at hconcept; cases hconcept⟩
  · rename_i hstage
    rw [hstage]
    exact ⟨h.beginScans hsize, Nat.zero_le _, fun _ hconcept => by cases hconcept⟩
  · rename_i hstage
    exact absurd hstage hrandom
  all_goals
    cases haveConcept with
    | true => exact ⟨h, Nat.le_refl _, fun hfalse => by cases hfalse⟩
    | false =>
      obtain ⟨hsound, hle⟩ := advanceScan_spec h
      obtain ⟨hkeeps, hmem⟩ := scannedConcept_spec hsound
      refine ⟨hsound.of_keeps hkeeps, ?_, fun _ hconcept => hmem ?_⟩
      · rw [if_neg Bool.false_ne_true, hkeeps.stage]
        exact hle
      · rw [if_neg Bool.false_ne_true, hkeeps.stage] at hconcept
        exact hconcept

end Search

/-! ### Any operations -/

/-- No stage comes after the end of a search. -/
theorem Stage.index_le_idle (stage : Stage) : stage.index ≤ idle.index := by
  cases stage <;> decide

variable {catalog : Catalog} {s : Search}

/-- **An operation** keeps a search sound, and only the start of another search goes back to
an earlier stage. -/
theorem Operation.apply_spec (operation : Operation) (h : s.IsSound catalog)
    (hsize : 0 < catalog.calls.size) : (operation.apply s).IsSound catalog ∧
      (operation.isStart = false → s.stage.index ≤ (operation.apply s).stage.index) := by
  have hkept : ∀ {t}, s.Keeps t → t.IsSound catalog ∧ s.stage.index ≤ t.stage.index :=
    fun hkeeps => ⟨h.of_keeps hkeeps, Nat.le_of_eq (congrArg Stage.index hkeeps.stage.symm)⟩
  cases operation with
  | start goal => exact ⟨h.start hsize goal, fun hstart => by cases hstart⟩
  | finish =>
    exact ⟨⟨h.current, fun hstage => (by cases hstage), h.circulator, h.catalog⟩,
      fun _ => s.stage.index_le_idle⟩
  | pickConcept haveConcept =>
    obtain ⟨hsound, hle, -⟩ := Search.pickConcept_spec h hsize haveConcept
    exact ⟨hsound, fun _ => hle⟩
  | pickCall =>
    obtain ⟨hsound, hstage, -⟩ := Search.pickCall_spec h hsize
    exact ⟨hsound, fun _ => Nat.le_of_eq (congrArg Stage.index hstage.symm)⟩
  | pickDesignator iterate =>
    exact (hkept (s.keeps_pickDesignator iterate)).imp_right fun hle _ => hle
  | pickDirection => exact (hkept s.keeps_pickDirection).imp_right fun hle _ => hle
  | pickNumbers count odd iterate =>
    exact (hkept (s.keeps_pickNumbers count odd iterate)).imp_right fun hle _ => hle
  | pickTagger cls => exact (hkept (s.pickTagger_spec cls).1).imp_right fun hle _ => hle
  | pickCirculator =>
    obtain ⟨hsound, hstage, -⟩ := Search.pickCirculator_spec h
    exact ⟨hsound, fun _ => Nat.le_of_eq (congrArg Stage.index hstage.symm)⟩
  | resetOdometer =>
    exact ⟨⟨h.current, h.concept, fun hwheel => absurd rfl hwheel, h.catalog⟩,
      fun _ => Nat.le_refl _⟩
  | setOptions options =>
    exact ⟨⟨h.current, h.concept, h.circulator, h.catalog⟩, fun _ => Nat.le_refl _⟩
  | setHash hash =>
    exact (hkept (t := { s with hash }) ⟨rfl, rfl, rfl, rfl, rfl⟩).imp_right fun hle _ => hle
  | remember =>
    refine (hkept ?_).imp_right fun hle _ => hle
    unfold apply Search.remember
    dsimp only
    split <;> exact ⟨rfl, rfl, rfl, rfl, rfl⟩
  | forget =>
    exact (hkept (t := s.forget) ⟨rfl, rfl, rfl, rfl, rfl⟩).imp_right fun hle _ => hle

/-- Whatever is done with a sound search, it stays sound. -/
theorem Search.IsSound.after (h : s.IsSound catalog) (hsize : 0 < catalog.calls.size)
    (operations : List Operation) : (s.after operations).IsSound catalog := by
  induction operations generalizing s with
  | nil => exact h
  | cons operation operations ih => exact ih (operation.apply_spec h hsize).1

/-- A search that nothing was done with is sound. -/
theorem isSound_new (hsize : 0 < catalog.calls.size) (options : SearchOptions)
    (draws : List UInt32) : ({ catalog, options, draws } : Search).IsSound catalog :=
  ⟨Int.natCast_pos.2 hsize, fun hstage => (by cases hstage), fun hwheel => absurd rfl hwheel, rfl⟩

/-- **What a sound search chooses is within the catalog.** -/
theorem Search.IsSound.isSafe (h : s.IsSound catalog) (hsize : 0 < catalog.calls.size) :
    s.IsSafe catalog where
  call_ne := (pickCall_spec h hsize).2.2.1
  call_lt := (pickCall_spec h hsize).2.2.2
  designator := s.pickDesignator_mem
  direction := s.pickDirection_mem
  numbers _ _ _ _ := pickNumbers_packs
  tagger cls packed hpacked := h.catalog ▸ (s.pickTagger_spec cls).2 packed hpacked
  circulator := (pickCirculator_spec h).2.2
  concept := (pickConcept_spec h hsize false).2.2 rfl
  stage operation := (operation.apply_spec h hsize).2

/-- **Operations in any order are safe.**  After any operations on a search with calls, with
any options and draws, every choice is within the catalog, and only the start of another search
leads back to an earlier stage. -/
theorem safe_of_operations (hcalls : catalog.calls.isEmpty = false) (options : SearchOptions)
    (draws : List UInt32) (operations : List Operation) :
    (({ catalog, options, draws } : Search).after operations).IsSafe catalog := by
  have hsize : 0 < catalog.calls.size :=
    Array.size_pos_iff.2 (Array.isEmpty_eq_false_iff.1 hcalls)
  exact ((isSound_new hsize options draws).after hsize operations).isSafe hsize

/-- A search with operations out of order: the cursor goes on without a call being chosen, a
blank is filled in that the call does not have, and the level changes between them. -/
def looseSearch : Search :=
  ({ catalog := sampleSearch.catalog, draws := [0, 1] } : Search).after
    [.pickCirculator, .start .resolve, .pickConcept false, .pickConcept false, .pickConcept false,
      .pickDesignator true, .resetOdometer, .pickDirection, .pickConcept false,
      .setOptions { callingLevel := .c1 }, .pickTagger 2]

/-- The cursor was left below zero and a wheel turned. -/
theorem safe_of_operations_looseSearch :
    sampleSearch.catalog.calls.isEmpty = false ∧ looseSearch.cursor.current = -2 ∧
      looseSearch.odometer.direction = 1 ∧ looseSearch.IsSafe sampleSearch.catalog :=
  ⟨by decide +kernel, by decide +kernel, by decide +kernel,
    safe_of_operations (by decide +kernel) _ _ _⟩

end SquareDance
