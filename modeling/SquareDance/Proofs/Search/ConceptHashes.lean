/-
# What the hash tells of the concept

A concept comes before a call in several ways: a scan is at one, a random search for a call under a
concept always has one, and a random search for something else goes by odds, if there are any.  The
decision by odds is folded into the hash; which concept it is never is.  So the hash of a candidate
is that of the decision, if there was one, and of the values of its call and blanks
(`Search.Proposes.hash`).

Candidates of one call with the same choices therefore have different hashes if one was decided to
have a concept by odds and the other was not, and the same hash if they have different concepts
after the same decision: a search that remembers the one takes the other for tried
(`Search.hash_tells_insertion`).
-/

import SquareDance.Proofs.Search.Hashing
import SquareDance.Proofs.Search.Safety

namespace SquareDance

/-! ### Candidates that were tried -/

/-- The operation does not change which candidates were tried. -/
def Operation.keepsSeen : Operation → Bool
  | remember | forget => false
  | _ => true

namespace Search

variable {s s' t t' : Search}

/-- To count something folds nothing. -/
theorem keepsHash_count (s : Search) (f : SearchStatistics → SearchStatistics) :
    s.KeepsHash (s.count f) := by
  unfold count
  exact ⟨rfl, rfl⟩

/-- To count a concept folds nothing. -/
theorem keepsHash_countConcept (s : Search) : s.KeepsHash s.countConcept := s.keepsHash_count _

/-- The start of the scans is drawn but not folded. -/
theorem keepsHash_beginScans (s : Search) : s.KeepsHash s.beginScans := by
  have hstart : s.KeepsHash (if (s.options.diagnostic || s.catalog.calls.isEmpty) = true then (0, s)
      else s.draw s.catalog.calls.size).2 := by
    split
    · exact ⟨rfl, rfl⟩
    · exact s.keepsHash_draw _
  exact ⟨hstart.hash, hstart.seen⟩

/-- To move on in a scan folds nothing. -/
theorem keepsHash_advanceScan (s : Search) : s.KeepsHash s.advanceScan := by
  unfold advanceScan finishPass
  split
  · split
    · dsimp only
      split <;> exact ⟨rfl, rfl⟩
    · exact ⟨rfl, rfl⟩
  · exact ⟨rfl, rfl⟩

/-- The concept that a scan is at is not folded. -/
theorem keepsHash_scannedConcept (s : Search) : s.KeepsHash s.scannedConcept.2 := by
  unfold scannedConcept
  split
  · split
    · exact s.keepsHash_countConcept
    · exact ⟨rfl, rfl⟩
  · exact ⟨rfl, rfl⟩

/-- The concept that is drawn is not folded. -/
theorem keepsHash_randomConcept (s : Search) : s.KeepsHash s.randomConcept.2 := by
  unfold randomConcept
  split
  · exact ⟨rfl, rfl⟩
  · exact (s.keepsHash_draw _).trans (keepsHash_countConcept _)

-- Below, this is used before a fold is opened: otherwise it is the hashes that are compared.

/-- To fold something in tries nothing. -/
theorem seen_fold (s : Search) (n : Nat) : (s.fold n).seen = s.seen := by
  unfold fold
  rfl

/-- To decide on a concept tries nothing. -/
theorem seen_decideConcept (s : Search) (haveConcept : Bool) :
    (s.decideConcept haveConcept).2.seen = s.seen := by
  unfold decideConcept
  split
  · rfl
  · split
    · rfl
    · exact (seen_fold _ _).trans (s.keepsHash_draw 8).seen

/-- To choose a concept tries nothing. -/
theorem seen_pickConcept (s : Search) (haveConcept : Bool) :
    (s.pickConcept haveConcept).2.seen = s.seen := by
  unfold pickConcept
  split
  · rfl
  · exact s.keepsHash_beginScans.seen
  · dsimp only
    split
    · exact (keepsHash_randomConcept _).seen.trans (s.seen_decideConcept _)
    · exact s.seen_decideConcept _
  all_goals
    split
    · rfl
    · exact (s.keepsHash_advanceScan.trans (keepsHash_scannedConcept _)).seen

/-- To choose a call tries nothing. -/
theorem seen_pickCall (s : Search) : s.pickCall.2.seen = s.seen := by
  have hfold : ∀ n, (s.nextIndex.2.fold n).seen = s.seen := fun n =>
    (seen_fold _ n).trans s.keepsHash_nextIndex.seen
  unfold pickCall
  split
  · rfl
  · dsimp only
    split
    · exact hfold _
    · split
      · exact (keepsHash_count _ _).seen.trans (hfold _)
      · split <;> exact (keepsHash_count _ _).seen.trans (hfold _)

/-- To choose people tries nothing. -/
theorem seen_pickDesignator (s : Search) (iterate : Bool) :
    (s.pickDesignator iterate).2.seen = s.seen := by
  unfold pickDesignator
  exact (seen_fold _ _).trans (s.keepsHash_designator iterate).seen

/-- To choose a direction tries nothing. -/
theorem seen_pickDirection (s : Search) : s.pickDirection.2.seen = s.seen := by
  unfold pickDirection
  exact (seen_fold _ _).trans s.keepsHash_direction.seen

/-- To choose numbers from a place on tries nothing. -/
theorem seen_pickNumbersFrom (s : Search) (scanning odd : Bool) (place count : Nat) :
    (s.pickNumbersFrom scanning odd place count).2.seen = s.seen := by
  induction count generalizing s place with
  | zero => rfl
  | succ count ih =>
    rw [pickNumbersFrom_step]
    refine (ih _ _).trans ?_
    unfold pickNumber
    refine (seen_fold _ _).trans ?_
    split
    · rfl
    · exact (s.keepsHash_drawNumber odd).seen

/-- To choose numbers tries nothing. -/
theorem seen_pickNumbers (s : Search) (count : Nat) (odd iterate : Bool) :
    (s.pickNumbers count odd iterate).2.seen = s.seen := by
  unfold pickNumbers
  split
  · rfl
  · dsimp only
    split <;> exact s.seen_pickNumbersFrom _ _ _ _

/-- To choose a tagging call tries nothing. -/
theorem seen_pickTagger (s : Search) (cls : Nat) : (s.pickTagger cls).2.seen = s.seen := by
  have hcomes := (s.keepsHash_comesTo cls).seen
  unfold comesTo at hcomes
  unfold pickTagger
  split
  next heq =>
    rw [heq] at hcomes
    exact hcomes
  next t heq =>
    rw [heq] at hcomes
    have hfold : ∀ n, (t.fold n).seen = s.seen := fun n => (seen_fold _ n).trans hcomes
    dsimp only
    split
    · exact (keepsHash_count _ _).seen.trans (hfold _)
    · exact hfold _

/-- To choose a circulating call tries nothing. -/
theorem seen_pickCirculator (s : Search) : s.pickCirculator.2.seen = s.seen := by
  unfold pickCirculator
  dsimp only
  split
  · rfl
  · split
    · refine (seen_fold _ _).trans ?_
      split <;> rfl
    · exact (seen_fold _ _).trans (s.keepsHash_draw _).seen

/-- **What was tried is changed by remembering and forgetting only**, not by any choice. -/
theorem seen_apply {operation : Operation} (hkeeps : operation.keepsSeen = true) (s : Search) :
    (operation.apply s).seen = s.seen := by
  cases operation with
  | start | finish | resetOdometer | setOptions | setHash => rfl
  | pickConcept haveConcept => exact s.seen_pickConcept haveConcept
  | pickCall => exact s.seen_pickCall
  | pickDesignator iterate => exact s.seen_pickDesignator iterate
  | pickDirection => exact s.seen_pickDirection
  | pickNumbers count odd iterate => exact s.seen_pickNumbers count odd iterate
  | pickTagger cls => exact s.seen_pickTagger cls
  | pickCirculator => exact s.seen_pickCirculator
  | remember | forget => cases hkeeps

/-- Operations that neither remember nor forget leave what was tried as it is. -/
theorem seen_after {operations : List Operation}
    (hkeeps : ∀ operation ∈ operations, operation.keepsSeen = true) (s : Search) :
    (s.after operations).seen = s.seen := by
  induction operations generalizing s with
  | nil => rfl
  | cons operation operations ih =>
    obtain ⟨hfirst, hrest⟩ := List.forall_mem_cons.1 hkeeps
    exact (ih hrest _).trans (seen_apply hfirst s)

/-- No choice for a blank tries anything. -/
theorem seen_choose (s : Search) (iterate : Bool) (b : Blank) :
    (s.choose iterate b).2.seen = s.seen := by
  cases b with
  | designator => exact s.seen_pickDesignator iterate
  | direction => exact s.seen_pickDirection
  | numbers count odd => exact s.seen_pickNumbers count odd iterate
  | tagger cls => exact s.seen_pickTagger cls
  | circulator => exact s.seen_pickCirculator

/-- To fill in blanks tries nothing. -/
theorem Fills.seen {bs : List Blank} {cs : List Choice} (hfills : s.Fills bs cs t) :
    t.seen = s.seen := by
  induction hfills with
  | nil => rfl
  | @cons s _ _ b _ _ _ iterate first _ ih =>
    have hseen := s.seen_choose iterate b
    rw [first] at hseen
    exact ih.trans hseen

/-- To choose a call and fill in its blanks tries nothing. -/
theorem Composes.seen {bs : List Blank} {c : Combination} (hmade : s.Composes bs c t) :
    t.seen = s.seen := by
  obtain ⟨picked, hcall, hfills⟩ := hmade
  have hseen := s.seen_pickCall
  rw [hcall] at hseen
  exact hfills.seen.trans hseen

/-- The candidate that is remembered was tried, and those before it. -/
theorem contains_seen_remember (s : Search) (h : UInt32) :
    s.remember.2.seen.contains h = true ↔ h = s.hash ∨ h ∈ s.seen := by
  unfold remember
  split
  next hseen =>
    rw [List.contains_iff_mem] at hseen ⊢
    exact ⟨.inr, fun hor => hor.elim (· ▸ hseen) id⟩
  next => rw [List.contains_iff_mem, List.mem_cons]

/-! ### Decisions by odds -/

/-- What is decided on a concept by odds, if the search goes by odds. -/
def conceptDecision? (s : Search) : Option Bool :=
  if s.stage = .random ∧ s.goal ≠ .conceptCall then
    s.goal.conceptOdds?.map fun odds => decide ((s.draw 8).1 < odds)
  else none

end Search

/-- The hash after a decision, from a hash before. -/
def hashDecision (h : UInt32) : Option Bool → UInt32
  | none => h
  | some false => h * Search.hashMultiplier
  | some true => h * Search.hashMultiplier + 1

/-- Two decisions make the same of a hash: they are the same, or a decision against a concept makes
as little of it as none at all. -/
def DecidedAlike (h : UInt32) (d d' : Option Bool) : Prop :=
  d' = d ∨ 2 ^ 27 ∣ h.toNat ∧ d ≠ some true ∧ d' ≠ some true

/-- Two decisions that were made make the same of a hash only if they are the same. -/
theorem decidedAlike_some (h : UInt32) (decision decision' : Bool) :
    DecidedAlike h (some decision) (some decision') ↔ decision' = decision := by
  cases decision <;> cases decision' <;> simp [DecidedAlike]

/-- The product of a hash and the multiplier, as a number. -/
theorem toNat_mul_hashMultiplier (h : UInt32) :
    (h * Search.hashMultiplier).toNat = h.toNat * 1049633 % 2 ^ 32 := by
  rw [UInt32.toNat_mul, show Search.hashMultiplier.toNat = 1049633 from rfl]

/-- Nothing is folded without a trace, unless the hash has lost its low bits. -/
theorem mul_hashMultiplier_eq_self_iff (h : UInt32) :
    h * Search.hashMultiplier = h ↔ 2 ^ 27 ∣ h.toNat := by
  have hsplit : h.toNat * 1049633 = h.toNat + 32 * (h.toNat * 32801) := by omega
  have hshift : 2 ^ 32 = 32 * 2 ^ 27 := by decide
  have hodd : Nat.Coprime 2 32801 := by decide
  rw [← UInt32.toNat_inj, toNat_mul_hashMultiplier, hsplit, ← (hodd.pow_left 27).dvd_mul_right]
  constructor
  · intro hfixed
    have hdiv := Nat.div_add_mod (h.toNat + 32 * (h.toNat * 32801)) (2 ^ 32)
    rw [hfixed] at hdiv
    generalize (h.toNat + 32 * (h.toNat * 32801)) / 2 ^ 32 = q at hdiv
    rw [Nat.add_comm, hshift, Nat.mul_assoc] at hdiv
    exact ⟨q, Nat.eq_of_mul_eq_mul_left (by decide) (Nat.add_left_cancel hdiv).symm⟩
  · rintro ⟨q, hq⟩
    rw [hq, ← Nat.mul_assoc, ← hshift, Nat.add_mul_mod_self_left, Nat.mod_eq_of_lt h.toNat_lt]

/-- A decision for a concept changes the lowest bit. -/
theorem mul_hashMultiplier_add_one_ne (h : UInt32) : h * Search.hashMultiplier + 1 ≠ h := by
  intro heq
  have hbit := congrArg (·.toNat % 2) heq
  simp only [UInt32.toNat_add, toNat_mul_hashMultiplier, UInt32.toNat_one, Nat.mod_add_mod] at hbit
  rw [Nat.mod_mod_of_dvd _ (Nat.pow_dvd_pow 2 (show 1 ≤ 32 by decide))] at hbit
  omega

/-- **The hash tells decisions apart**, but for a decision against a concept from no decision at
all, where the hash before has lost its low bits. -/
theorem hashDecision_eq_iff (h : UInt32) (d d' : Option Bool) :
    hashDecision h d' = hashDecision h d ↔ DecidedAlike h d d' := by
  have hfixed := mul_hashMultiplier_eq_self_iff h
  have hyes := mul_hashMultiplier_add_one_ne h
  have hdecided : h * Search.hashMultiplier + 1 ≠ h * Search.hashMultiplier := fun heq => by
    have hone := (UInt32.add_right_inj (h * Search.hashMultiplier)).1
      (heq.trans (UInt32.add_zero _).symm)
    cases hone
  rcases d with _ | _ | _ <;> rcases d' with _ | _ | _ <;>
    simp [hashDecision, DecidedAlike, hfixed, hyes, hyes.symm, hdecided, hdecided.symm,
      eq_comm (a := h)]

namespace Search

variable {s s' t t' : Search} {concept concept' : Option ConceptId} {bs : List Blank}
variable {c : Combination}

/-! ### The hash of a candidate -/

/-- A search for a call under a concept decides for one without a draw. -/
theorem decideConcept_forced (hgoal : s.goal = .conceptCall) :
    s.decideConcept false = (true, s) := by
  rw [decideConcept, if_pos ⟨hgoal, rfl⟩]

/-- A goal without odds decides against a concept without a draw. -/
theorem decideConcept_noOdds (hgoal : s.goal ≠ .conceptCall)
    (hodds : s.goal.conceptOdds? = none) : s.decideConcept false = (false, s) := by
  rw [decideConcept, if_neg fun h => hgoal h.1, hodds]

/-- **A decision by odds is folded.** -/
theorem decideConcept_byOdds (hgoal : s.goal ≠ .conceptCall) {odds : Nat}
    (hodds : s.goal.conceptOdds? = some odds) : s.decideConcept false =
      (decide ((s.draw 8).1 < odds),
        (s.draw 8).2.fold (if (s.draw 8).1 < odds then 1 else 0)) := by
  rw [decideConcept, if_neg fun h => hgoal h.1, hodds]

/-- A decision that was made is folded as 1 or 0. -/
theorem hashDecision_some (s : Search) (decision : Prop) [Decidable decision] :
    (s.fold (if decision then 1 else 0)).hash = hashDecision s.hash (some (decide decision)) := by
  unfold fold
  by_cases hdecision : decision
  · rw [if_pos hdecision, decide_eq_true hdecision]
    rfl
  · rw [if_neg hdecision, decide_eq_false hdecision]
    exact UInt32.add_zero _

/-- The hash after the decision on a concept, whether there was one to make or not. -/
theorem hash_decideConcept (hrandom : s.stage = .random) :
    (s.decideConcept false).2.hash = hashDecision s.hash s.conceptDecision? := by
  unfold conceptDecision?
  by_cases hgoal : s.goal = .conceptCall
  · rw [decideConcept_forced hgoal, if_neg fun h => h.2 hgoal]
    rfl
  · rw [if_pos ⟨hrandom, hgoal⟩]
    cases hodds : s.goal.conceptOdds? with
    | none =>
      rw [decideConcept_noOdds hgoal hodds]
      rfl
    | some odds =>
      rw [decideConcept_byOdds hgoal hodds, Option.map_some, hashDecision_some,
        (s.keepsHash_draw 8).hash]

/-- **Of the choice of a concept the hash tells the decision by odds.** -/
theorem hash_pickConcept (s : Search) :
    (s.pickConcept false).2.hash = hashDecision s.hash s.conceptDecision? := by
  by_cases hrandom : s.stage = .random
  · rw [← hash_decideConcept hrandom]
    unfold pickConcept
    rw [hrandom]
    dsimp only
    split
    · exact (keepsHash_randomConcept _).hash
    · rfl
  · have hnone : s.conceptDecision? = none := if_neg fun h => hrandom h.1
    rw [hnone]
    unfold pickConcept
    split
    · rfl
    · exact s.keepsHash_beginScans.hash
    next hstage => exact absurd hstage hrandom
    all_goals exact (s.keepsHash_advanceScan.trans (keepsHash_scannedConcept _)).hash

/-- A concept is drawn if there is any. -/
theorem isSome_randomConcept (hconcepts : s.catalog.concepts ≠ []) :
    s.randomConcept.1.isSome = true := by
  have hlt : (s.draw s.catalog.concepts.length).1
      < (s.draw s.catalog.concepts.length).2.catalog.concepts.length := by
    rw [(s.keeps_draw _).catalog]
    exact s.draw_lt (List.length_pos_of_ne_nil hconcepts)
  unfold randomConcept
  rw [if_neg fun hempty => hconcepts (List.isEmpty_iff.1 hempty)]
  exact congrArg Option.isSome (List.getElem?_eq_getElem hlt)

/-- **A decision by odds for a concept inserts one**, if there is any. -/
theorem isSome_pickConcept {decision : Bool} (hdecision : s.conceptDecision? = some decision)
    (hconcepts : s.catalog.concepts ≠ []) : (s.pickConcept false).1.isSome = decision := by
  unfold conceptDecision? at hdecision
  split at hdecision
  next hodds =>
    obtain ⟨odds, hsome, rfl⟩ := Option.map_eq_some_iff.1 hdecision
    unfold pickConcept
    rw [hodds.1]
    dsimp only
    rw [decideConcept_byOdds hodds.2 hsome]
    by_cases hlt : (s.draw 8).1 < odds
    · rw [decide_eq_true hlt]
      refine isSome_randomConcept ?_
      rw [(keeps_fold _ _).catalog, (s.keeps_draw 8).catalog]
      exact hconcepts
    · rw [decide_eq_false hlt]
      rfl
  next => cases hdecision

/-- A candidate is made: the concept before it, and a call with choices for blanks. -/
def Proposes (s : Search) (concept : Option ConceptId) (bs : List Blank) (c : Combination)
    (t : Search) : Prop :=
  (s.pickConcept false).1 = concept ∧ (s.pickConcept false).2.Composes bs c t

/-- A candidate that is not given up is made, with its concept and its call. -/
theorem proposes_nextCandidate (hfailure : s.nextCandidate.1.failure = none) :
    ∃ bs c, s.Proposes s.nextCandidate.1.concept bs c s.nextCandidate.2 ∧
      s.nextCandidate.1.call = some c.call ∧
        s.nextCandidate.1.fillings = c.choices.map Choice.filling := by
  obtain ⟨bs, c, hmade, hcandidate⟩ := composes_nextCandidate hfailure
  rw [hcandidate]
  exact ⟨bs, c, ⟨rfl, hmade⟩, rfl, rfl⟩

/-- **The hash of a candidate is that of the decision and the values**, and of nothing else. -/
theorem Proposes.hash (hmade : s.Proposes concept bs c t) :
    t.hash = hashOf (hashDecision s.hash s.conceptDecision?) c.values := by
  rw [hmade.2.hash.1, hash_pickConcept]

/-- To make a candidate tries nothing. -/
theorem Proposes.seen (hmade : s.Proposes concept bs c t) : t.seen = s.seen :=
  hmade.2.seen.trans (s.seen_pickConcept false)

/-- Candidates with the same call and the same choices, from the same hash, have the same hash if
and only if they were decided alike. -/
theorem Proposes.hash_eq_iff (hmade : s.Proposes concept bs c t)
    (hmade' : s'.Proposes concept' bs c t') (hhash : s'.hash = s.hash) :
    t'.hash = t.hash ↔ DecidedAlike s.hash s.conceptDecision? s'.conceptDecision? := by
  rw [hmade.hash, hmade'.hash, hhash, ← hashDecision_eq_iff]
  exact ⟨hashOf_inj, fun heq => by rw [heq]⟩

/-- **The hash tells the decision on a concept, not the concept.**  Two candidates with the same
call and the same choices, from the same hash, have the same hash if and only if they were decided
alike, whatever their concepts are.  Where both were decided by odds and there are concepts, one
with a concept and one without have different hashes.  A search that remembers the first takes the
other for tried if and only if their hashes are the same, unless it had that hash before. -/
theorem hash_tells_insertion (hmade : s.Proposes concept bs c t)
    (hmade' : s'.Proposes concept' bs c t') (hhash : s'.hash = s.hash) :
    (t'.hash = t.hash ↔ DecidedAlike s.hash s.conceptDecision? s'.conceptDecision?) ∧
      (s.conceptDecision?.isSome → s.catalog.concepts ≠ [] → s'.conceptDecision?.isSome →
        s'.catalog.concepts ≠ [] → concept.isSome ≠ concept'.isSome → t'.hash ≠ t.hash) ∧
      ∀ operations : List Operation, (∀ operation ∈ operations, operation.keepsSeen = true) →
        s' = t.remember.2.after operations →
          (t'.alreadySeen = true ↔ t'.hash = t.hash ∨ t'.hash ∈ s.seen) := by
  have heq_iff := hmade.hash_eq_iff hmade' hhash
  refine ⟨heq_iff, fun hsome hconcepts hsome' hconcepts' hne heq => ?_, ?_⟩
  · obtain ⟨decision, hdecision⟩ := Option.isSome_iff_exists.1 hsome
    obtain ⟨decision', hdecision'⟩ := Option.isSome_iff_exists.1 hsome'
    have hinserted := isSome_pickConcept hdecision hconcepts
    have hinserted' := isSome_pickConcept hdecision' hconcepts'
    rw [hmade.1] at hinserted
    rw [hmade'.1] at hinserted'
    rw [heq_iff, hdecision, hdecision', decidedAlike_some, ← hinserted, ← hinserted'] at heq
    exact hne heq.symm
  · rintro operations hkeeps rfl
    rw [alreadySeen, hmade'.seen, seen_after hkeeps, contains_seen_remember, hmade.seen]

/-- The search after a concept and a call without blanks. -/
def afterCall (s : Search) : Search := (s.pickConcept false).2.pickCall.2

/-- A call without blanks is a candidate when it is chosen. -/
theorem proposes_afterCall {i : Nat} (hconcept : (s.pickConcept false).1 = concept)
    (hcall : (s.pickConcept false).2.pickCall.1 = .ok i) :
    s.Proposes concept [] ⟨i, []⟩ s.afterCall :=
  ⟨hconcept, _, Prod.ext hcall rfl, .nil _⟩

/-- A random search with draws for two candidates: one with a concept, and one without. -/
def drawnTwice : Search :=
  { catalog := { Catalog.ofCalls [.make "swing thru" .mainstream 0] with concepts := [7, 8, 9] }
    stage := .random, draws := [1, 2, 0, 5, 0] }

/-- The search when the first candidate was remembered, at the hash before it. -/
def drawnOnce : Search := drawnTwice.afterCall.remember.2.after [.setHash 0]

/-- A call under a concept and then the same call without one, both drawn from one hash. -/
theorem hash_tells_insertion_drawnTwice :
    drawnTwice.Proposes (some 9) [] ⟨0, []⟩ drawnTwice.afterCall ∧
      drawnOnce.Proposes none [] ⟨0, []⟩ drawnOnce.afterCall ∧
      drawnOnce.afterCall.hash ≠ drawnTwice.afterCall.hash ∧
      drawnOnce.afterCall.alreadySeen = false := by
  have hfirst : drawnTwice.Proposes (some 9) [] ⟨0, []⟩ drawnTwice.afterCall :=
    proposes_afterCall (by decide +kernel) (by decide +kernel)
  have hagain : drawnOnce.Proposes none [] ⟨0, []⟩ drawnOnce.afterCall :=
    proposes_afterCall (by decide +kernel) (by decide +kernel)
  obtain ⟨-, hdiffers, hseen⟩ := hash_tells_insertion hfirst hagain (by decide +kernel)
  have hne := hdiffers (by decide +kernel) (by decide +kernel) (by decide +kernel)
    (by decide +kernel) (by decide)
  have htried := hseen [.setHash 0] (by decide) rfl
  refine ⟨hfirst, hagain, hne, Bool.eq_false_of_not_eq_true fun h => ?_⟩
  exact (htried.1 h).elim hne (by decide +kernel)

/-- A scan for a resolve that has two concepts to try, when it has tried the call without one. -/
def underConcepts : Search :=
  ({ catalog :=
       { Catalog.ofCalls [.make "swing thru" .mainstream 0] with scanConcepts := [40, 41] },
     options := { conceptScans := true, diagnostic := true } } : Search).after
    [.start .resolve, .pickConcept false, .pickCall, .setHash 0]

/-- The search when the first candidate was remembered, at the hash before it. -/
def underNextConcept : Search :=
  underConcepts.nextCandidate.2.after [.remember, .setHash 0]

/-- **Another concept is taken for tried.**  The scan comes to the call under one concept, which is
remembered, and then to the call under the other from the same hash. -/
theorem concept_takenForTried :
    underConcepts.nextCandidate.1 = { concept := some 40, call := some 0 } ∧
      underNextConcept.nextCandidate.1 = { concept := some 41, call := some 0 } ∧
      underNextConcept.hash = underConcepts.hash ∧
      underNextConcept.nextCandidate.2.hash = underConcepts.nextCandidate.2.hash ∧
      underNextConcept.nextCandidate.2.alreadySeen = true := by
  decide +kernel

end Search
end SquareDance
