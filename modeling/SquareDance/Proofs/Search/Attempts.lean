/-
# All attempts on one call

During a scan a search makes one candidate after another of the call at the cursor,
until the odometer is back at zero.  What is common to these attempts, the pass that they
belong to, does not change; so they show all rows of choices for the blanks of the
call, each of them once: `Search.tries_call`.

A call that is barred is tried once.  One with a blank that cannot be filled in is
tried for all choices for the blanks before that one, and given up each time.
-/

import SquareDance.Proofs.Search.Effort

namespace SquareDance
namespace Search

variable {s t u : Search}

/-! ### One attempt -/

/-- Make a candidate of the call at the cursor, without moving on. -/
def attempt (s : Search) : Candidate × Search :=
  let (concept, s) := s.scannedConcept
  match s.pickCall with
  | (.error e, s) => ({ concept, failure := some e }, s)
  | (.ok index, s) =>
    let blanks := (s.catalog.calls[index]?.map (·.blanks)).getD []
    let ((fillings, failure), s) := s.fillAll blanks
    ({ concept, call := some index, fillings, failure }, s)

/-- During a scan the search moves on before it says which concept it is at. -/
theorem pickConcept_eq (hscan : s.stage.isScan = true) :
    s.pickConcept false = s.advanceScan.scannedConcept := by
  unfold pickConcept
  cases hstage : s.stage with
  | plainNice | conceptNice | plainAny | conceptAny => rfl
  | starting | random | idle =>
    rw [hstage] at hscan
    cases hscan

/-- A candidate is made by an attempt after the concept is known. -/
theorem nextCandidate_eq (h : s.pickConcept false = t.scannedConcept) :
    s.nextCandidate = t.attempt := by
  rw [nextCandidate, h]
  rfl

/-- Two searches are at the same pass. -/
structure SamePass (s t : Search) : Prop where
  scan : t.scan = s.scan
  goal : t.goal = s.goal
  conceptScan : t.conceptScan = s.conceptScan
  start : t.cursor.start = s.cursor.start

namespace SamePass

/-- A search is at the pass that it is at. -/
theorem refl (s : Search) : SamePass s s := ⟨rfl, rfl, rfl, rfl⟩

/-- A pass stays the same over two steps that keep it. -/
theorem trans (h : SamePass s t) (h' : SamePass t u) : SamePass s u :=
  ⟨h'.scan.trans h.scan, h'.goal.trans h.goal, h'.conceptScan.trans h.conceptScan,
    h'.start.trans h.start⟩

/-- In one pass there is one catalog. -/
theorem catalog (h : SamePass s t) : t.catalog = s.catalog := congrArg Scan.catalog h.scan

/-- In one pass the options stay. -/
theorem options (h : SamePass s t) : t.options = s.options := congrArg Scan.options h.scan

/-- A pass is in one stage. -/
theorem stage (h : SamePass s t) : t.stage = s.stage := congrArg Scan.stage h.scan

end SamePass

/-- The concept before the calls of the pass that a search is at. -/
def concept? (s : Search) : Option ConceptId :=
  Pass.concept? ⟨s.stage, s.conceptScan.index⟩ s.catalog

/-- In one pass there is one concept before the calls. -/
theorem SamePass.concept? (h : SamePass s t) : t.concept? = s.concept? := by
  rw [Search.concept?, h.stage, h.conceptScan, h.catalog, Search.concept?]

/-- A search has come to a call, in the same pass. -/
structure Reaches (s t : Search) (i : Nat) (o : Odometer) : Prop extends SamePass s t where
  odometer : t.odometer = o
  current : t.cursor.current = i

/-- The cursor is at a call, which is the last one if the cursor is below zero. -/
def IsAt (s : Search) (i : Nat) : Prop :=
  (if s.cursor.current < 0 then (s.catalog.calls.size : Int) - 1 else s.cursor.current) = i

/-- A search that has come to a call is at it. -/
theorem Reaches.isAt {i : Nat} {o : Odometer} (h : Reaches s t i o) : t.IsAt i := by
  rw [IsAt, h.current, if_neg (by omega)]

/-- A search is at a call in a scan. -/
structure StandsAt (s : Search) (i : Nat) (call : CatalogCall) : Prop where
  isScan : s.stage.isScan = true
  isLevelCall : s.goal.isLevelCall = false
  isAt : s.IsAt i
  call : s.catalog.calls[i]? = some call

/-- In the same pass, a search at the same call stands at it too. -/
theorem StandsAt.of_samePass {i : Nat} {call : CatalogCall} (h : s.StandsAt i call)
    (ht : SamePass s t) (hat : t.IsAt i) : t.StandsAt i call :=
  ⟨ht.stage ▸ h.isScan, ht.goal ▸ h.isLevelCall, hat, ht.catalog ▸ h.call⟩

/-- Saying which concept the scan is at changes nothing that matters. -/
theorem scannedConcept_eq (s : Search) : ∃ t, s.scannedConcept = (s.concept?, t) ∧
    SamePass s t ∧ t.odometer = s.odometer ∧ t.cursor = s.cursor := by
  unfold scannedConcept concept? Pass.concept?
  by_cases hconcept : s.stage.hasConcept = true
  · rw [if_pos hconcept, if_pos hconcept]
    cases s.catalog.scanConcepts[s.conceptScan.index]? with
    | none => exact ⟨s, rfl, .refl s, rfl, rfl⟩
    | some concept => exact ⟨s.countConcept, rfl, ⟨rfl, rfl, rfl, rfl⟩, rfl, rfl⟩
  · rw [if_neg hconcept, if_neg hconcept]
    exact ⟨s, rfl, .refl s, rfl, rfl⟩

/-- The stage of a concept is the one that the scan moved on to. -/
theorem stage_pickConcept (hscan : s.stage.isScan = true) :
    (s.pickConcept false).2.stage = s.advanceScan.stage := by
  obtain ⟨t, ht, hpass, -⟩ := s.advanceScan.scannedConcept_eq
  rw [pickConcept_eq hscan, ht]
  exact hpass.stage

/-- The flags that bar a call are those of the scan. -/
theorem and_barringFlags_eq_zero {call : CatalogCall} :
    call.flags1 &&& s.barringFlags = 0 ↔ s.scan.Allows call := by
  unfold barringFlags Scan.Allows scan
  by_cases hnice : s.stage.isNiceOnly = true
  · simp only [hnice, if_true, true_implies]
    rw [UInt32.and_comm, UInt32.or_and_distrib, UInt32.or_eq_zero_iff, UInt32.and_comm,
      UInt32.and_comm CallFlags.notInNiceResolve]
  · rw [if_neg hnice]
    exact ⟨fun h => ⟨h, fun hnice' => absurd hnice' hnice⟩, fun h => h.1⟩

section

variable {i : Nat} {call : CatalogCall}

/-- **Picking the call at the cursor**, which is rejected if it is barred. -/
theorem pickCall_eq (h : s.StandsAt i call) : ∃ t, Reaches s t i s.odometer ∧
    (s.scan.Allows call → s.pickCall = (.ok i, t)) ∧
      (¬ s.scan.Allows call → s.pickCall = (.error .flagReject, t)) := by
  obtain ⟨hscan, hgoal, hat, hcall⟩ := h
  have hne : ¬ s.catalog.calls.isEmpty = true := by
    obtain ⟨hlt, -⟩ := Array.getElem?_eq_some_iff.1 hcall
    rw [Array.isEmpty_iff_size_eq_zero]
    omega
  have hnext : s.nextIndex = (i, { s with cursor := { s.cursor with current := i } }) := by
    rw [nextIndex, if_pos hscan, hat]
    rfl
  obtain ⟨hash, hfold⟩ := fold_moved { s with cursor := { s.cursor with current := i } }
    s.odometer s.hash i
  obtain ⟨v, hv⟩ : ∃ v, v = moved { s with cursor := { s.cursor with current := i } }
    s.odometer hash := ⟨_, rfl⟩
  have hfold' : Search.fold { s with cursor := { s.cursor with current := i } } i = v := by
    rw [hv, ← hfold]
    rfl
  have hpass : Reaches s v i s.odometer := by
    rw [hv]
    exact ⟨⟨rfl, rfl, rfl, rfl⟩, rfl, rfl⟩
  have hcall' : v.catalog.calls[i]? = some call := by
    rw [hpass.catalog]
    exact hcall
  have hlevel : ¬ (v.goal.isLevelCall = true ∧ call.level < v.options.callingLevel.floor) := by
    rw [hpass.goal, hgoal]
    exact fun h => Bool.false_ne_true h.1
  by_cases hallows : s.scan.Allows call
  · have hflags : call.flags1 &&& v.barringFlags = 0 := by
      rw [and_barringFlags_eq_zero, hpass.scan]
      exact hallows
    refine ⟨v.countPick, ⟨hpass.toSamePass.trans ⟨rfl, rfl, rfl, rfl⟩, hpass.odometer,
      hpass.current⟩, fun _ => ?_, fun hbarred => absurd hallows hbarred⟩
    rw [pickCall, if_neg hne, hnext]
    simp only [hfold', hcall', if_neg hlevel, hflags, ne_eq, not_true_eq_false, if_false]
  · have hflags : ¬ call.flags1 &&& v.barringFlags = 0 := by
      rw [and_barringFlags_eq_zero, hpass.scan]
      exact hallows
    refine ⟨v.countFlagReject, ⟨hpass.toSamePass.trans ⟨rfl, rfl, rfl, rfl⟩, hpass.odometer,
      hpass.current⟩, fun h => absurd h hallows, fun _ => ?_⟩
    rw [pickCall, if_neg hne, hnext]
    simp only [hfold', hcall', if_neg hlevel, ne_eq, hflags, not_false_eq_true, if_true]

/-- An attempt says which concept the scan is at, and picks the call. -/
theorem attempt_eq (h : s.StandsAt i call) : ∃ t, Reaches s t i s.odometer ∧
    (¬ s.scan.Allows call →
      s.attempt = ({ concept := s.concept?, failure := some .flagReject }, t)) ∧
    (s.scan.Allows call → ∀ fillings failure u,
      t.fillAll call.blanks = ((fillings, failure), u) →
        s.attempt = ({ concept := s.concept?, call := some i, fillings, failure }, u)) := by
  obtain ⟨t, hconcept, hpass, hodometer, hcursor⟩ := s.scannedConcept_eq
  have hat : t.IsAt i := by
    rw [IsAt, hcursor, hpass.catalog]
    exact h.isAt
  obtain ⟨u, hu, hpick, hreject⟩ := pickCall_eq (h.of_samePass hpass hat)
  rw [hpass.scan] at hpick hreject
  have hreach : Reaches s u i s.odometer :=
    ⟨hpass.trans hu.toSamePass, hu.odometer.trans hodometer, hu.current⟩
  refine ⟨u, hreach, fun hbarred => ?_, fun hallows fillings failure v hfill => ?_⟩
  · rw [attempt, hconcept]
    simp only [hreject hbarred]
  · have hblanks : (u.catalog.calls[i]?.map (·.blanks)).getD [] = call.blanks := by
      rw [hreach.catalog, h.call]
      rfl
    rw [attempt, hconcept]
    simp only [hpick hallows, hblanks, hfill]

end

/-! ### Runs -/

/-- A search that has made nothing is as it was. -/
theorem makes_nil (s : Search) : s.Makes [] s := rfl

/-- One candidate more is made in front of others. -/
theorem Makes.cons {c : Candidate} {log : List (Candidate × Search)}
    (h : s.nextCandidate = (c, t)) (hlog : t.Makes log u) : s.Makes ((c, t) :: log) u := by
  unfold Makes at hlog ⊢
  simp only [List.length_cons, run, h, hlog]

/-- What is made from where others ended is made after them. -/
theorem Makes.append {log log' : List (Candidate × Search)} (h : s.Makes log t)
    (h' : t.Makes log' u) : s.Makes (log ++ log') u := by
  induction log generalizing s with
  | nil =>
    cases h
    exact h'
  | cons a log ih =>
    unfold Makes at h
    simp only [List.length_cons, run, Prod.mk.injEq, List.cons.injEq] at h
    obtain ⟨⟨rfl, hlog⟩, hend⟩ := h
    exact .cons rfl (ih (Prod.ext hlog hend))

/-- A search makes candidates, of which the first is of the call at the cursor. -/
def MakesHere (s : Search) (log : List (Candidate × Search)) (t : Search) : Prop :=
  ∃ c u more, log = (c, u) :: more ∧ s.attempt = (c, u) ∧ u.Makes more t

/-- Candidates from the next call on are made by a scan that moves on to it. -/
theorem MakesHere.makes {log : List (Candidate × Search)} (hscan : s.stage.isScan = true)
    (h : s.advanceScan.MakesHere log t) : s.Makes log t := by
  obtain ⟨c, u, more, rfl, hattempt, hmore⟩ := h
  exact .cons ((nextCandidate_eq (pickConcept_eq hscan)).trans hattempt) hmore

/-- A scan makes more candidates when it has moved on from the last one. -/
theorem MakesHere.append {log log' : List (Candidate × Search)} (h : s.MakesHere log t)
    (hscan : t.stage.isScan = true) (h' : t.advanceScan.MakesHere log' u) :
    s.MakesHere (log ++ log') u := by
  obtain ⟨c, v, more, rfl, hattempt, hmore⟩ := h
  exact ⟨c, v, more ++ log', rfl, hattempt, hmore.append (h'.makes hscan)⟩

/-! ### Attempts that show rows -/

section

variable {i : Nat} {call : CatalogCall} {bs : List Blank} {candidate : List Nat → Candidate}

/-- The attempts on a call make a candidate of each row of positions of some wheels, and the
wheels carry. -/
def Shows (s : Search) (i : Nat) (bs : List Blank) (candidate : List Nat → Candidate) : Prop :=
  ∀ t, SamePass s t → t.IsAt i → ∀ ps ∈ (bs.map s.scan.positions).sections,
    t.odometer = ({} : Odometer).setAll bs ps → ∃ u, t.attempt = (candidate ps, u) ∧
      Reaches s u i (({} : Odometer).setAll bs (carry (bs.map s.scan.turn) ps))

/-- **The attempts go on** through all rows of a path, if no row before the end of the
path is at zero. -/
theorem Shows.makesHere_of_path (h : s.Shows i bs candidate) (hscan : s.stage.isScan = true)
    (hsorted : bs.Pairwise fun b b' => b.place < b'.place) {ps : List Nat} {l : List (List Nat)}
    (hl : ∀ qs ∈ ps :: l, qs ∈ (bs.map s.scan.positions).sections)
    (hzero : (bs.map fun _ => 0) ∉ l)
    (hpath : IsPath (carry (bs.map s.scan.turn)) ps (ps :: l) (bs.map fun _ => 0))
    (ht : SamePass s t) (hat : t.IsAt i) (hodometer : t.odometer = ({} : Odometer).setAll bs ps) :
    ∃ log u, t.MakesHere log u ∧ log.map (·.1) = (ps :: l).map candidate ∧
      (∀ a ∈ log, SamePass s a.2 ∧ a.2.cursor.current = i) ∧ Reaches s u i {} := by
  induction l generalizing ps t with
  | nil =>
    obtain ⟨u, hu, hreach⟩ := h t ht hat ps (hl ps List.mem_cons_self) hodometer
    have hend : carry (bs.map s.scan.turn) ps = bs.map fun _ => 0 := hpath.2
    rw [hend, Odometer.setAll_zeros] at hreach
    refine ⟨[(candidate ps, u)], u, ⟨_, u, [], rfl, hu, makes_nil u⟩, rfl, fun a ha => ?_, hreach⟩
    rw [List.mem_singleton.1 ha]
    exact ⟨hreach.toSamePass, hreach.current⟩
  | cons qs l ih =>
    obtain ⟨u, hu, hreach⟩ := h t ht hat ps (hl ps List.mem_cons_self) hodometer
    obtain ⟨hqs, hrest⟩ := hpath.2
    rw [← hqs] at hreach
    have hpath' : IsPath (carry (bs.map s.scan.turn)) qs (qs :: l) (bs.map fun _ => 0) :=
      ⟨rfl, hqs ▸ hrest⟩
    obtain ⟨log, v, hlog, hmap, hpass, hv⟩ := ih (fun rs hrs => hl rs (List.mem_cons_of_mem _ hrs))
      (fun hmem => hzero (List.mem_cons_of_mem _ hmem)) hpath' hreach.toSamePass hreach.isAt
      hreach.odometer
    -- The odometer is not back at zero, so the next candidate is of the same call.
    have hrests : ¬ u.odometer.rests = true := by
      intro hrests
      rw [hreach.odometer] at hrests
      have hqs' := Odometer.eq_zeros_of_rests hsorted
        (Scan.forall₂_of_mem_rows (hl qs (by simp))) hrests
      exact hzero (hqs' ▸ List.mem_cons_self)
    have hmakes : u.Makes log v := by
      refine MakesHere.makes (hreach.stage ▸ hscan) ?_
      rwa [advanceScan, if_neg hrests]
    refine ⟨(candidate ps, u) :: log, v, ⟨_, u, log, rfl, hu, hmakes⟩, ?_, fun a ha => ?_, hv⟩
    · rw [List.map_cons, hmap, List.map_cons (l := qs :: l)]
    · rcases List.mem_cons.1 ha with rfl | ha
      · exact ⟨hreach.toSamePass, hreach.current⟩
      · exact hpass a ha

/-- A search has made all candidates of a call: those that were not given up are its
combinations. -/
structure Tries (s : Search) (i : Nat) (call : CatalogCall) (log : List (Candidate × Search))
    (t : Search) : Prop where
  makesHere : s.MakesHere log t
  samePass : ∀ a ∈ log, SamePass s a.2 ∧ a.2.cursor.current = i
  isOf : ∀ a ∈ log, a.1.IsOf s.scan s.concept? i call
  length : log.length = s.scan.attempts call
  reaches : Reaches s t i {}
  combinations : (log.map (·.1)).filter (·.failure.isNone)
    = (s.scan.combinations i).map (·.candidate s.concept?)

/-- **From zero to zero** the attempts show all rows, so all combinations if the candidates are
those of the rows. -/
theorem Shows.tries (h : s.Shows i bs candidate) (hstands : s.StandsAt i call)
    (hodometer : s.odometer = {}) (hfill : ∀ b ∈ bs, s.scan.CanFill b)
    (hsorted : bs.Pairwise fun b b' => b.place < b'.place)
    (hisOf : ∀ ps, (candidate ps).IsOf s.scan s.concept? i call)
    (hattempts : s.scan.attempts call = (bs.map s.scan.width).prod)
    (hcombinations : ((bs.map s.scan.positions).sections.map candidate).filter (·.failure.isNone)
      = (s.scan.combinations i).map (·.candidate s.concept?)) : ∃ log t, s.Tries i call log t := by
  have hcycle := Scan.isCycle_rows hfill
  obtain ⟨l, hl, hzero⟩ := hcycle.exists_eq_cons
  have hpath := hcycle.path
  rw [hl] at hpath
  obtain ⟨log, t, hlog, hmap, hpass, ht⟩ := h.makesHere_of_path hstands.isScan hsorted
    (fun ps hps => hl ▸ hps) hzero hpath (.refl s) hstands.isAt
    (by rw [hodometer, Odometer.setAll_zeros])
  rw [← hl] at hmap
  refine ⟨log, t, hlog, hpass, fun a ha => ?_, ?_, ht, by rw [hmap, hcombinations]⟩
  · obtain ⟨ps, -, hps⟩ := List.mem_map.1 (hmap ▸ List.mem_map_of_mem ha : a.1 ∈ _)
    rw [← hps]
    exact hisOf ps
  · rw [← List.length_map (·.1), hmap, List.length_map, Scan.length_rows hfill, hattempts]

/-! ### All attempts on a call -/

/-- The wheels of the first blanks of a call show a row, whatever becomes of the other
blanks. -/
theorem StandsAt.fillAll_of_row {post : List Blank} (h : s.StandsAt i call)
    (hallows : s.scan.Allows call) (hblanks : call.blanks = bs ++ post)
    (hfill : ∀ b ∈ bs, s.scan.CanFill b) (ht : SamePass s t) (hat : t.IsAt i) {ps : List Nat}
    (hps : ps ∈ (bs.map s.scan.positions).sections)
    (hodometer : t.odometer = ({} : Odometer).setAll bs ps) : ∃ u v : Search,
      u.fillAll bs = ((List.zipWith (fun b p => (s.scan.choiceAt b p).filling) bs ps, none), v) ∧
        Reaches s v i (({} : Odometer).setAll bs (carry (bs.map s.scan.turn) ps)) ∧
          ∀ fillings failure w, u.fillAll call.blanks = ((fillings, failure), w) →
            t.attempt = ({ concept := s.concept?, call := some i, fillings, failure }, w) := by
  obtain ⟨u, hu, -, hattempt⟩ := attempt_eq (h.of_samePass ht hat)
  have hsame := ht.trans hu.toSamePass
  have hsorted := CatalogCall.blanks_sorted_left hblanks
  have hzero : ∀ b ∈ bs, ({} : Odometer).RestsFrom b.place := by
    intro b _ b' _
    cases b' <;> rfl
  obtain ⟨hash, hfillAll⟩ := fillAll_eq (hsame.stage ▸ h.isScan) (hsame.scan ▸ hfill) hsorted hzero
    (hsame.scan ▸ Scan.forall₂_of_mem_rows hps) (hu.odometer.trans hodometer)
  rw [hsame.scan] at hfillAll
  rw [ht.concept?] at hattempt
  exact ⟨u, _, hfillAll, ⟨hsame.trans ⟨rfl, rfl, rfl, rfl⟩, rfl, hu.current⟩,
    hattempt (ht.scan ▸ hallows)⟩

/-- A call that is barred is tried once, as if it had no blanks. -/
theorem tries_of_not_allows (h : s.StandsAt i call) (hodometer : s.odometer = {})
    (hallows : ¬ s.scan.Allows call) : ∃ log t, s.Tries i call log t := by
  have hshows : s.Shows i [] fun _ => { concept := s.concept?, failure := some .flagReject } := by
    intro t ht hat ps _ hodometer'
    obtain ⟨u, hu, hattempt, -⟩ := attempt_eq (h.of_samePass ht hat)
    rw [ht.concept?, ht.scan] at hattempt
    refine ⟨u, hattempt hallows, ht.trans hu.toSamePass, ?_, hu.current⟩
    rw [hu.odometer, hodometer']
    rfl
  have hisOf (ps : List Nat) : Candidate.IsOf
      { concept := s.concept?, failure := some .flagReject } s.scan s.concept? i call :=
    ⟨rfl, (Scan.failure?_of_not_allows hallows).symm, (if_neg hallows).symm⟩
  refine hshows.tries h hodometer (fun b hb => absurd hb List.not_mem_nil) .nil hisOf
    (Scan.attempts_of_not_allows hallows) ?_
  rw [Scan.combinations_of_not_allows h.call hallows]
  rfl

/-- A call of which all blanks can be filled in is made with all rows of choices. -/
theorem tries_of_canFill (h : s.StandsAt i call) (hodometer : s.odometer = {})
    (hallows : s.scan.Allows call) (hfill : ∀ b ∈ call.blanks, s.scan.CanFill b) :
    ∃ log t, s.Tries i call log t := by
  have hshows : s.Shows i call.blanks fun ps => {
      concept := s.concept?
      call := some i
      fillings := List.zipWith (fun b p => (s.scan.choiceAt b p).filling) call.blanks ps } := by
    intro t ht hat ps hps hodometer'
    obtain ⟨u, v, hfillAll, hv, hattempt⟩ := h.fillAll_of_row hallows
      (List.append_nil _).symm hfill ht hat hps hodometer'
    exact ⟨v, hattempt _ _ _ hfillAll, hv⟩
  refine hshows.tries h hodometer hfill call.blanks_sorted
    (fun _ => ⟨rfl, (Scan.failure?_of_canFill hallows hfill).symm, (if_pos hallows).symm⟩)
    (Scan.attempts_of_canFill hallows hfill) ?_
  rw [Scan.combinations_of_allows h.call hallows, ← Scan.map_rows hfill, List.map_map,
    List.map_map, List.filter_eq_self.2]
  · refine List.map_congr_left fun ps _ => ?_
    simp only [Function.comp_apply, Combination.candidate, List.map_zipWith]
  · intro c hc
    obtain ⟨ps, -, rfl⟩ := List.mem_map.1 hc
    rfl

/-- If not all blanks can be filled in, there is a first that cannot. -/
theorem exists_problem {k : Scan} (h : ¬ ∀ b ∈ bs, k.CanFill b) :
    ∃ pre b post, bs = pre ++ b :: post ∧ (∀ b ∈ pre, k.CanFill b) ∧ ¬ k.CanFill b := by
  induction bs with
  | nil => exact absurd (fun b hb => absurd hb List.not_mem_nil) h
  | cons b bs ih =>
    by_cases hb : k.CanFill b
    · have hrest : ¬ ∀ b ∈ bs, k.CanFill b := fun hall => h (List.forall_mem_cons.2 ⟨hb, hall⟩)
      obtain ⟨pre, b', post, rfl, hpre, hb'⟩ := ih hrest
      exact ⟨b :: pre, b', post, rfl, List.forall_mem_cons.2 ⟨hb, hpre⟩, hb'⟩
    · exact ⟨[], b, bs, rfl, fun b hb => absurd hb List.not_mem_nil, hb⟩

/-- A call with a blank that cannot be filled in is given up at that blank, for all rows of
choices for the blanks before. -/
theorem tries_of_problem (h : s.StandsAt i call) (hodometer : s.odometer = {})
    (hallows : s.scan.Allows call) {pre post : List Blank} {b : Blank}
    (hblanks : call.blanks = pre ++ b :: post) (hpre : ∀ b ∈ pre, s.scan.CanFill b)
    (hb : ¬ s.scan.CanFill b) : ∃ log t, s.Tries i call log t := by
  have hsorted := CatalogCall.blanks_sorted_left hblanks
  have hshows : s.Shows i pre fun ps => {
      concept := s.concept?
      call := some i
      fillings := List.zipWith (fun b p => (s.scan.choiceAt b p).filling) pre ps
      failure := some b.problem } := by
    intro t ht hat ps hps hodometer'
    obtain ⟨u, v, hfillAll, hv, hattempt⟩ := h.fillAll_of_row hallows hblanks hpre ht hat hps
      hodometer'
    have hproblem : v.fill b = (.error b.problem, v) :=
      fill_of_not_canFill (hv.stage ▸ h.isScan) (hv.scan ▸ hb)
    exact ⟨v, hattempt _ _ _ (hblanks ▸ fillAll_append_of_problem hfillAll hproblem), hv⟩
  refine hshows.tries h hodometer hpre hsorted
    (fun _ => ⟨rfl, (Scan.failure?_of_problem hallows hblanks hpre hb).symm,
      (if_pos hallows).symm⟩)
    (Scan.attempts_of_problem hallows hblanks hpre hb) ?_
  have hmem : b ∈ call.blanks := by
    rw [hblanks]
    exact List.mem_append_right _ List.mem_cons_self
  rw [Scan.combinations_of_allows h.call hallows, Scan.rows_of_not_canFill hmem hb,
    List.map_nil, List.map_nil, List.filter_eq_nil_iff]
  intro c hc
  obtain ⟨ps, -, rfl⟩ := List.mem_map.1 hc
  exact Bool.false_ne_true

/-- **All attempts on a call** show each of its combinations once. -/
theorem tries_call (h : s.StandsAt i call) (hodometer : s.odometer = {}) :
    ∃ log t, s.Tries i call log t := by
  by_cases hallows : s.scan.Allows call
  · by_cases hfill : ∀ b ∈ call.blanks, s.scan.CanFill b
    · exact tries_of_canFill h hodometer hallows hfill
    · obtain ⟨pre, b, post, hblanks, hpre, hb⟩ := exists_problem hfill
      exact tries_of_problem h hodometer hallows hblanks hpre hb
  · exact tries_of_not_allows h hodometer hallows

end

end Search
end SquareDance
