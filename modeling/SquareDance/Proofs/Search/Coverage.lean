/-
# The scans try everything once

A pass begins with the cursor just before its start and goes backward through all
calls, over the beginning of the list to its end, until it has been at the start
itself: `Search.tries_calls`.  Then the next pass begins, at the next concept or at
the next stage, with the same start.  Main statement: `scans_complete`, whatever the
catalog, the options and the draws are.

The start is drawn, so the order of the combinations is not known; which ones there are,
and that none comes twice, does not depend on it.
-/

import SquareDance.Proofs.Search.Attempts

namespace SquareDance

/-- The call that is some calls after the start, over the end of the list. -/
def callAfter (size start n : Nat) : Nat :=
  if start + n < size then start + n else start + n - size

/-- A call after the start is one of the calls. -/
theorem callAfter_lt {size start n : Nat} (hstart : start < size) (hn : n < size) :
    callAfter size start n < size := by
  unfold callAfter
  split <;> omega

/-- Within one round no call comes twice. -/
theorem callAfter_inj (start : Nat) {size n m : Nat} (hn : n < size) (hm : m < size)
    (h : callAfter size start n = callAfter size start m) : n = m := by
  unfold callAfter at h
  split at h <;> split at h <;> omega

/-- Within one round every call comes. -/
theorem exists_callAfter {size start i : Nat} (hstart : start < size) (hi : i < size) :
    ∃ n, n < size ∧ callAfter size start n = i := by
  by_cases hle : start ≤ i
  · refine ⟨i - start, by omega, ?_⟩
    unfold callAfter
    split <;> omega
  · refine ⟨i + size - start, by omega, ?_⟩
    unfold callAfter
    split <;> omega

/-- The first calls after the start in the order of a pass, which goes backward to it. -/
def callsFrom (size start n : Nat) : List Nat := (List.range n).reverse.map (callAfter size start)

/-- The call that is farthest after the start comes first. -/
theorem callsFrom_succ (size start n : Nat) :
    callsFrom size start (n + 1) = callAfter size start n :: callsFrom size start n := by
  rw [callsFrom, List.range_succ, List.reverse_append, List.map_append]
  rfl

/-- A pass comes to every call once. -/
theorem perm_callsFrom {size start : Nat} (hstart : start < size) :
    (callsFrom size start size).Perm (List.range size) := by
  have hnodup : (callsFrom size start size).Nodup := by
    refine List.Nodup.map_on (fun n hn m hm => ?_) (List.nodup_reverse.2 List.nodup_range)
    rw [List.mem_reverse, List.mem_range] at hn hm
    exact callAfter_inj start hn hm
  refine (List.perm_ext_iff_of_nodup hnodup List.nodup_range).2 fun i => ?_
  simp only [callsFrom, List.mem_map, List.mem_reverse, List.mem_range]
  constructor
  · rintro ⟨n, hn, rfl⟩
    exact callAfter_lt hstart hn
  · exact exists_callAfter hstart

namespace Scan

/-- All combinations in the order of a pass that begins before a given call. -/
def combinationsFrom (k : Scan) (start n : Nat) : List Combination :=
  (List.range n).reverse.flatMap fun j => k.combinations (callAfter k.catalog.calls.size start j)

variable {k : Scan} {start : Nat}

/-- The combinations of the call that is farthest after the start come first. -/
theorem combinationsFrom_succ (k : Scan) (start n : Nat) : k.combinationsFrom start (n + 1)
    = k.combinations (callAfter k.catalog.calls.size start n) ++ k.combinationsFrom start n := by
  rw [combinationsFrom, List.range_succ, List.reverse_append, List.flatMap_append]
  simp only [List.reverse_singleton, List.flatMap_singleton]
  rfl

/-- A whole round has all combinations of the scan. -/
theorem mem_combinationsFrom (hstart : start < k.catalog.calls.size) {c : Combination} :
    c ∈ k.combinationsFrom start k.catalog.calls.size ↔ k.Includes c := by
  unfold combinationsFrom
  rw [List.mem_flatMap]
  constructor
  · rintro ⟨j, -, hc⟩
    exact (mem_combinations.1 hc).2
  · intro hc
    obtain ⟨call, hcall, -⟩ := id hc
    obtain ⟨hlt, -⟩ := Array.getElem?_eq_some_iff.1 hcall
    obtain ⟨j, hj, hcallAfter⟩ := exists_callAfter hstart hlt
    exact ⟨j, List.mem_reverse.2 (List.mem_range.2 hj), mem_combinations.2 ⟨hcallAfter.symm, hc⟩⟩

/-- A whole round has no combination twice. -/
theorem nodup_combinationsFrom (k : Scan) (start : Nat) :
    (k.combinationsFrom start k.catalog.calls.size).Nodup := by
  unfold combinationsFrom
  rw [List.nodup_flatMap]
  refine ⟨fun j _ => k.nodup_combinations _, ?_⟩
  refine List.Nodup.pairwise_of_forall_ne (List.nodup_reverse.2 List.nodup_range) ?_
  intro i hi j hj hne c hci hcj
  rw [List.mem_reverse, List.mem_range] at hi hj
  refine hne (callAfter_inj start hi hj ?_)
  rw [← (mem_combinations.1 hci).1, (mem_combinations.1 hcj).1]

end Scan

namespace Search

variable {s t : Search}

/-! ### A pass -/

/-- Away from the start the cursor goes on to the call before. -/
theorem advanceScan_of_ne (hodometer : s.odometer = {})
    (hne : s.cursor.current ≠ s.cursor.start) : SamePass s s.advanceScan ∧
      s.advanceScan.odometer = {} ∧ s.advanceScan.cursor.current = s.cursor.current - 1 := by
  have hrests : s.odometer.rests = true := by
    rw [hodometer]
    rfl
  rw [advanceScan, if_pos hrests]
  simp only [if_neg hne]
  refine ⟨⟨rfl, rfl, rfl, rfl⟩, hodometer, trivial⟩

/-- A log has all attempts on the call at a position, in the pass that a search is at. -/
def TriesCall (s : Search) (i : Nat) (log : List (Candidate × Search)) : Prop :=
  ∃ call, s.catalog.calls[i]? = some call ∧ log.length = s.scan.attempts call ∧
    ∀ a ∈ log, (SamePass s a.2 ∧ a.2.cursor.current = i) ∧ a.1.IsOf s.scan s.concept? i call

/-- Attempts that show all rows of a call are all attempts on it. -/
theorem Tries.triesCall {i : Nat} {call : CatalogCall} {log : List (Candidate × Search)}
    (h : s.Tries i call log t) (hcall : s.catalog.calls[i]? = some call) : s.TriesCall i log :=
  ⟨call, hcall, h.length, fun a ha => ⟨h.samePass a ha, h.isOf a ha⟩⟩

/-- All attempts on a call are the same ones for another search in the pass. -/
theorem TriesCall.of_samePass {i : Nat} {log : List (Candidate × Search)} (hsame : SamePass s t)
    (h : t.TriesCall i log) : s.TriesCall i log := by
  obtain ⟨call, hcall, hlength, hlog⟩ := h
  rw [hsame.catalog] at hcall
  rw [hsame.scan] at hlength hlog
  rw [hsame.concept?] at hlog
  exact ⟨call, hcall, hlength, fun a ha =>
    ⟨⟨hsame.trans (hlog a ha).1.1, (hlog a ha).1.2⟩, (hlog a ha).2⟩⟩

/-- All attempts on some calls are made in one pass, with its concept. -/
theorem samePass_of_triesCalls {order : List Nat} {parts : List (List (Candidate × Search))}
    (h : List.Forall₂ s.TriesCall order parts) :
    ∀ a ∈ parts.flatten, SamePass s a.2 ∧ a.1.concept = s.concept? := by
  induction h with
  | nil => exact fun a ha => absurd ha List.not_mem_nil
  | cons hpart _ ih =>
    intro a ha
    rcases List.mem_append.1 ha with ha | ha
    · obtain ⟨call, -, -, hlog⟩ := hpart
      exact ⟨(hlog a ha).1.1, (hlog a ha).2.concept⟩
    · exact ih a ha

/-- **The rest of a pass** goes backward to its start and tries each call on the way. -/
theorem tries_calls {start n : Nat} (hscan : s.stage.isScan = true)
    (hgoal : s.goal.isLevelCall = false) (hstart : start < s.catalog.calls.size)
    (hn : n < s.catalog.calls.size) (hcursor : s.cursor.start = start)
    (hat : s.IsAt (callAfter s.catalog.calls.size start n)) (hodometer : s.odometer = {}) :
    ∃ parts t, s.MakesHere parts.flatten t ∧
      List.Forall₂ s.TriesCall (callsFrom s.catalog.calls.size start (n + 1)) parts ∧
        Reaches s t start {} ∧
          (parts.flatten.map (·.1)).filter (·.failure.isNone)
            = (s.scan.combinationsFrom start (n + 1)).map (·.candidate s.concept?) := by
  induction n generalizing s with
  | zero =>
    have hzero : callAfter s.catalog.calls.size start 0 = start := if_pos hstart
    rw [hzero] at hat
    have hcall := Array.getElem?_eq_getElem hstart
    obtain ⟨log, t, hlog⟩ := tries_call ⟨hscan, hgoal, hat, hcall⟩ hodometer
    have horder : callsFrom s.catalog.calls.size start (0 + 1) = [start] :=
      congrArg (fun i => [i]) hzero
    refine ⟨[log], t, by rw [List.flatten_singleton]; exact hlog.makesHere, ?_, hlog.reaches, ?_⟩
    · rw [horder]
      exact .cons (hlog.triesCall hcall) .nil
    · rw [List.flatten_singleton, hlog.combinations, Scan.combinationsFrom_succ,
        show s.scan.catalog.calls.size = s.catalog.calls.size from rfl, hzero]
      simp [Scan.combinationsFrom]
  | succ n ih =>
    have hcall := Array.getElem?_eq_getElem (callAfter_lt hstart hn)
    obtain ⟨log, t, hlog⟩ := tries_call ⟨hscan, hgoal, hat, hcall⟩ hodometer
    have hreach := hlog.reaches
    have hne : t.cursor.current ≠ t.cursor.start := by
      rw [hreach.current, hreach.start, hcursor]
      unfold callAfter
      split <;> omega
    obtain ⟨hpass, hodometer', hcurrent⟩ := advanceScan_of_ne hreach.odometer hne
    have hsame := hreach.toSamePass.trans hpass
    have hat' : t.advanceScan.IsAt (callAfter t.advanceScan.catalog.calls.size start n) := by
      rw [IsAt, hcurrent, hreach.current, hsame.catalog]
      unfold callAfter
      split <;> split <;> split <;> omega
    obtain ⟨parts, u, hparts, htries, hu, hcombinations⟩ := ih (hsame.stage ▸ hscan)
      (hsame.goal ▸ hgoal) (hsame.catalog ▸ hstart) (by rw [hsame.catalog]; omega)
      (hsame.start.trans hcursor) hat' hodometer'
    rw [hsame.catalog] at htries
    rw [hsame.concept?] at hcombinations
    refine ⟨log :: parts, u, hlog.makesHere.append (hreach.stage ▸ hscan) hparts, ?_,
      ⟨hsame.trans hu.toSamePass, hu.odometer, hu.current⟩, ?_⟩
    · rw [callsFrom_succ]
      exact .cons (hlog.triesCall hcall) (htries.imp fun _ _ => .of_samePass hsame)
    · rw [List.flatten_cons, List.map_append, List.filter_append, hlog.combinations,
        hcombinations, hsame.scan, Scan.combinationsFrom_succ _ _ (n + 1), List.map_append]
      rfl

/-- A search is in a pass, with the odometer at zero. -/
structure InPass (catalog : Catalog) (options : SearchOptions) (goal : Goal) (p : Pass)
    (s : Search) : Prop where
  scan : s.scan = ⟨catalog, options, p.stage⟩
  isScan : p.stage.isScan = true
  goal : s.goal = goal
  index : s.conceptScan.index = p.index
  limit : p.stage.hasConcept = true → s.conceptScan.limit = catalog.scanConcepts.length
  start : ∃ n : Nat, n < catalog.calls.size ∧ s.cursor.start = n
  odometer : s.odometer = {}

/-- A search is about to begin a pass. -/
structure BeginsPass (catalog : Catalog) (options : SearchOptions) (goal : Goal) (p : Pass)
    (s : Search) : Prop extends InPass catalog options goal p s where
  current : s.cursor.current = s.cursor.start - 1

/-- A search has come to the end of a pass. -/
structure EndsPass (catalog : Catalog) (options : SearchOptions) (goal : Goal) (p : Pass)
    (s : Search) : Prop extends InPass catalog options goal p s where
  current : s.cursor.current = s.cursor.start

section

variable {catalog : Catalog} {options : SearchOptions} {goal : Goal} {p : Pass} {stage : Stage}

namespace InPass

/-- The stage is that of the pass. -/
theorem stage_eq (h : InPass catalog options goal p s) : s.stage = p.stage :=
  congrArg Scan.stage h.scan

/-- The catalog is that of the pass. -/
theorem catalog_eq (h : InPass catalog options goal p s) : s.catalog = catalog :=
  congrArg Scan.catalog h.scan

/-- The options are those of the pass. -/
theorem options_eq (h : InPass catalog options goal p s) : s.options = options :=
  congrArg Scan.options h.scan

/-- In a pass there is a scan. -/
theorem isScan_stage (h : InPass catalog options goal p s) : s.stage.isScan = true :=
  h.stage_eq ▸ h.isScan

/-- The concept before the calls is that of the pass. -/
theorem concept?_eq (h : InPass catalog options goal p s) : s.concept? = p.concept? catalog := by
  rw [concept?, h.stage_eq, h.index, h.catalog_eq]

/-- The attempts that a search makes on a call are those of the pass. -/
theorem triesCall {i : Nat} {log : List (Candidate × Search)}
    (h : InPass catalog options goal p s) (hlog : s.TriesCall i log) :
    p.TriesCall catalog options i log := by
  obtain ⟨call, hcall, hlength, hall⟩ := hlog
  rw [h.scan] at hlength hall
  rw [h.catalog_eq] at hcall
  rw [h.concept?_eq] at hall
  refine ⟨call, hcall, hlength, fun a ha => ?_⟩
  obtain ⟨⟨hsame, hcurrent⟩, hisOf⟩ := hall a ha
  exact ⟨hsame.stage.trans h.stage_eq, by rw [hsame.conceptScan, h.index], hcurrent, hisOf⟩

end InPass

/-- **A pass is complete.**  From just before its start a search tries everything once, and is
then at the start. -/
theorem makesHere_pass (hgoal : goal.isLevelCall = false)
    (h : BeginsPass catalog options goal p s) : ∃ log t, s.MakesHere log t ∧
      (p.IsComplete catalog options log ∧ p.TriesAll catalog options log) ∧
        EndsPass catalog options goal p t := by
  obtain ⟨start, hstart, hcursor⟩ := h.start
  obtain ⟨n, hn⟩ : ∃ n, catalog.calls.size = n + 1 := ⟨catalog.calls.size - 1, by omega⟩
  have hat : s.IsAt (callAfter s.catalog.calls.size start n) := by
    rw [IsAt, h.current, hcursor, h.catalog_eq, hn]
    unfold callAfter
    split <;> split <;> omega
  obtain ⟨parts, t, hlog, htries, ht, hcombinations⟩ := tries_calls h.isScan_stage
    (h.goal ▸ hgoal) (h.catalog_eq ▸ hstart) (by rw [h.catalog_eq]; omega) hcursor hat h.odometer
  have hpasses := samePass_of_triesCalls htries
  rw [h.concept?_eq] at hpasses hcombinations
  have hne : parts.flatten ≠ [] := by
    obtain ⟨c, u, more, hcons, -⟩ := hlog
    rw [hcons]
    exact List.cons_ne_nil _ _
  rw [h.catalog_eq, ← hn] at htries
  refine ⟨parts.flatten, t, hlog, ⟨⟨hne, ?_, ?_, ?_, ?_⟩, _, parts, perm_callsFrom hstart, rfl,
    htries.imp fun _ _ => h.triesCall⟩, ⟨⟨ht.scan.trans h.scan, h.isScan,
    ht.goal.trans h.goal, ?_, ?_, ⟨start, hstart, ht.start.trans hcursor⟩, ht.odometer⟩, ?_⟩⟩
  · intro a ha
    rw [(hpasses a ha).1.stage, h.stage_eq]
  · intro a ha
    rw [(hpasses a ha).1.conceptScan, h.index]
  · exact fun a ha => (hpasses a ha).2
  · refine ⟨s.scan.combinationsFrom start (n + 1), ?_, ?_, hcombinations⟩
    · rw [h.scan, ← hn]
      exact Scan.nodup_combinationsFrom ⟨catalog, options, p.stage⟩ start
    · intro c
      rw [h.scan, ← hn]
      exact Scan.mem_combinationsFrom (k := ⟨catalog, options, p.stage⟩) hstart
  · rw [ht.conceptScan, h.index]
  · intro hconcept
    rw [ht.conceptScan, h.limit hconcept]
  · rw [ht.current, ht.start, hcursor]

/-! ### From pass to pass -/

/-- At the end of a pass the search goes on to the next pass. -/
theorem EndsPass.advanceScan_eq (h : EndsPass catalog options goal p s) : s.advanceScan =
    { s.finishPass with
      cursor := { s.finishPass.cursor with current := s.finishPass.cursor.current - 1 } } := by
  have hrests : s.odometer.rests = true := by
    rw [h.odometer]
    rfl
  rw [advanceScan, if_pos hrests, if_pos h.current]

/-- The next pass is at the same stage, at the next concept. -/
theorem EndsPass.beginsPass_concept (h : EndsPass catalog options goal p s)
    (hconcept : p.stage.hasConcept = true) (hindex : p.index + 1 < catalog.scanConcepts.length) :
    BeginsPass catalog options goal { p with index := p.index + 1 } s.advanceScan := by
  have hfinish : s.finishPass
      = { s with conceptScan := { s.conceptScan with index := s.conceptScan.index + 1 } } := by
    rw [finishPass]
    refine if_pos ⟨h.stage_eq ▸ hconcept, ?_⟩
    rw [h.limit hconcept, h.index]
    exact hindex
  rw [h.advanceScan_eq, hfinish]
  refine ⟨⟨h.scan, h.isScan, h.goal, ?_, h.limit, h.start, h.odometer⟩, ?_⟩
  · exact congrArg (· + 1) h.index
  · exact congrArg (· - 1) h.current

/-- The stage after a given one. -/
def stageAfter (goal : Goal) (catalog : Catalog) (options : SearchOptions) (stage : Stage) :
    Stage :=
  if options.conceptScans = true ∧ goal = .resolve ∧ catalog.scanConcepts ≠ [] then stage.next
  else stage.nextPlain

/-- A search has come to the end of a stage: the next one is a scan that begins with its
first pass, or no scan. -/
structure EndsStage (catalog : Catalog) (options : SearchOptions) (goal : Goal) (stage : Stage)
    (s : Search) : Prop where
  isScan : s.stage.isScan = true
  next : s.advanceScan.stage = stageAfter goal catalog options stage
  begins : (stageAfter goal catalog options stage).isScan = true →
    BeginsPass catalog options goal { stage := stageAfter goal catalog options stage }
      s.advanceScan

/-- At the end of a stage the next scan begins with its first pass. -/
theorem EndsStage.beginsPass {stage' : Stage} (h : EndsStage catalog options goal stage s)
    (hnext : stageAfter goal catalog options stage = stage') (hscan : stage'.isScan = true) :
    BeginsPass catalog options goal { stage := stage' } s.advanceScan := by
  subst hnext
  exact h.begins hscan

/-- After the last concept of a stage, or without concepts, the stage ends. -/
theorem EndsPass.endsStage (h : EndsPass catalog options goal p s)
    (hlast : p.stage.hasConcept = true → catalog.scanConcepts.length ≤ p.index + 1) :
    EndsStage catalog options goal p.stage s := by
  have hstage : (if s.scansConcepts then s.stage.next else s.stage.nextPlain)
      = stageAfter goal catalog options p.stage := by
    unfold scansConcepts stageAfter
    rw [h.stage_eq, h.catalog_eq, h.options_eq, h.goal]
    congr 1
    simp [and_assoc]
  have hfinish : s.finishPass
      = { s with conceptScan := { index := 0, limit := s.catalog.scanConcepts.length } }.enter
          (stageAfter goal catalog options p.stage) := by
    rw [← hstage, finishPass]
    refine if_neg fun hmore => ?_
    have hconcept : p.stage.hasConcept = true := h.stage_eq ▸ hmore.1
    have hle := hlast hconcept
    have hlt := hmore.2
    rw [h.limit hconcept, h.index] at hlt
    omega
  have hnext := h.advanceScan_eq
  rw [hfinish] at hnext
  refine ⟨h.isScan_stage, by rw [hnext]; rfl, fun hscan => ?_⟩
  rw [hnext]
  refine ⟨⟨?_, hscan, h.goal, rfl, fun _ => ?_, h.start, h.odometer⟩, ?_⟩
  · exact congrArg₂ (fun c o => Scan.mk c o _) h.catalog_eq h.options_eq
  · exact congrArg (·.scanConcepts.length) h.catalog_eq
  · exact congrArg (· - 1) h.current

/-! ### Stages -/

/-- A search makes passes, one after another, that are complete and try all calls. -/
def MakesPasses (catalog : Catalog) (options : SearchOptions) (s : Search)
    (passes : List Pass) (t : Search) : Prop :=
  ∃ parts, s.MakesHere parts.flatten t ∧
    List.Forall₂ (fun p log => p.IsComplete catalog options log ∧ p.TriesAll catalog options log)
      passes parts

/-- Passes are made after others when the scan has moved on from them. -/
theorem MakesPasses.append {u : Search} {passes passes' : List Pass}
    (h : MakesPasses catalog options s passes t) (hscan : t.stage.isScan = true)
    (h' : MakesPasses catalog options t.advanceScan passes' u) :
    MakesPasses catalog options s (passes ++ passes') u := by
  obtain ⟨parts, hparts, hcomplete⟩ := h
  obtain ⟨parts', hparts', hcomplete'⟩ := h'
  refine ⟨parts ++ parts', ?_, List.rel_append hcomplete hcomplete'⟩
  rw [List.flatten_append]
  exact hparts.append hscan hparts'

/-- A pass that is begun is made to its end. -/
theorem makesPasses_single (hgoal : goal.isLevelCall = false)
    (h : BeginsPass catalog options goal p s) :
    ∃ t, MakesPasses catalog options s [p] t ∧ EndsPass catalog options goal p t := by
  obtain ⟨log, t, hlog, hcomplete, ht⟩ := makesHere_pass hgoal h
  refine ⟨t, ⟨[log], ?_, .cons hcomplete .nil⟩, ht⟩
  rwa [List.flatten_singleton]

/-- **A stage without concepts** has one pass. -/
theorem makesPasses_plain (hgoal : goal.isLevelCall = false)
    (hconcept : stage.hasConcept = false) (h : BeginsPass catalog options goal { stage } s) :
    ∃ t, MakesPasses catalog options s [{ stage }] t ∧
      EndsStage catalog options goal stage t := by
  obtain ⟨t, hpasses, ht⟩ := makesPasses_single hgoal h
  refine ⟨t, hpasses, ht.endsStage fun hconcept' => ?_⟩
  rw [hconcept] at hconcept'
  cases hconcept'

/-- The passes of a stage with concepts, from one of the concepts on. -/
theorem makesPasses_concepts (hgoal : goal.isLevelCall = false)
    (hconcept : stage.hasConcept = true) {i n : Nat}
    (hn : i + n + 1 = catalog.scanConcepts.length)
    (h : BeginsPass catalog options goal { stage, index := i } s) :
    ∃ t, MakesPasses catalog options s
        ((List.range' i (n + 1)).map fun index => { stage, index }) t ∧
      EndsPass catalog options goal { stage, index := i + n } t := by
  induction n generalizing s i with
  | zero => exact makesPasses_single hgoal h
  | succ n ih =>
    obtain ⟨t, hpasses, ht⟩ := makesPasses_single hgoal h
    have hnext := ht.beginsPass_concept hconcept
      (show i + 1 < catalog.scanConcepts.length by omega)
    obtain ⟨u, hpasses', hu⟩ := ih (i := i + 1) (by omega) hnext
    refine ⟨u, ?_, ?_⟩
    · rw [List.range'_succ, List.map_cons]
      exact hpasses.append ht.isScan_stage hpasses'
    · rwa [show i + (n + 1) = i + 1 + n by omega]

/-- **A stage with concepts** has a pass for each of them. -/
theorem makesPasses_underConcepts (hgoal : goal.isLevelCall = false)
    (hconcept : stage.hasConcept = true) (hne : catalog.scanConcepts ≠ [])
    (h : BeginsPass catalog options goal { stage } s) :
    ∃ t, MakesPasses catalog options s (Pass.underConcepts stage catalog) t ∧
      EndsStage catalog options goal stage t := by
  obtain ⟨n, hn⟩ : ∃ n, 0 + n + 1 = catalog.scanConcepts.length := by
    have hpos := List.length_pos_iff.2 hne
    exact ⟨catalog.scanConcepts.length - 1, by omega⟩
  obtain ⟨t, hpasses, ht⟩ := makesPasses_concepts hgoal hconcept hn h
  refine ⟨t, ?_, ht.endsStage fun _ => Nat.le_of_eq hn.symm⟩
  rwa [Pass.underConcepts, List.range_eq_range', ← hn, Nat.zero_add]

/-- If concepts are wanted and there are some, stages with concepts follow the plain ones. -/
theorem makesPasses_withConcepts (hgoal : goal.isLevelCall = false)
    (hconcepts : options.conceptScans = true ∧ goal = .resolve ∧ catalog.scanConcepts ≠ [])
    (h : BeginsPass catalog options goal { stage := .plainNice } s) :
    ∃ t, MakesPasses catalog options s (Pass.all goal catalog options) t ∧
      t.stage.isScan = true ∧ t.advanceScan.stage = .random := by
  have hafter (stage : Stage) : stageAfter goal catalog options stage = stage.next :=
    if_pos hconcepts
  obtain ⟨hwanted, hresolve, hne⟩ := id hconcepts
  obtain ⟨t₁, hpasses₁, ht₁⟩ := makesPasses_plain hgoal rfl h
  obtain ⟨t₂, hpasses₂, ht₂⟩ :=
    makesPasses_underConcepts hgoal rfl hne (ht₁.beginsPass (hafter _) rfl)
  obtain ⟨t₃, hpasses₃, ht₃⟩ := makesPasses_plain hgoal rfl (ht₂.beginsPass (hafter _) rfl)
  obtain ⟨t₄, hpasses₄, ht₄⟩ :=
    makesPasses_underConcepts hgoal rfl hne (ht₃.beginsPass (hafter _) rfl)
  refine ⟨t₄, ?_, ht₄.isScan, ht₄.next.trans (hafter _)⟩
  rw [Pass.all, if_pos ⟨hwanted, hresolve⟩]
  exact ((hpasses₁.append ht₁.isScan hpasses₂).append ht₂.isScan hpasses₃).append ht₃.isScan
    hpasses₄

/-- There are only plain passes if concepts are not wanted, or if there are none. -/
theorem all_of_plain
    (hconcepts : ¬ (options.conceptScans = true ∧ goal = .resolve ∧ catalog.scanConcepts ≠ [])) :
    Pass.all goal catalog options = [{ stage := .plainNice }] ++ [{ stage := .plainAny }] := by
  unfold Pass.all
  split
  · rename_i hwanted
    have hnil : catalog.scanConcepts = [] := by
      by_contra hne
      exact hconcepts ⟨hwanted.1, hwanted.2, hne⟩
    rw [Pass.underConcepts, Pass.underConcepts, hnil]
    rfl
  · rfl

/-- Otherwise one plain stage follows the other. -/
theorem makesPasses_withoutConcepts (hgoal : goal.isLevelCall = false)
    (hconcepts : ¬ (options.conceptScans = true ∧ goal = .resolve ∧ catalog.scanConcepts ≠ []))
    (h : BeginsPass catalog options goal { stage := .plainNice } s) :
    ∃ t, MakesPasses catalog options s (Pass.all goal catalog options) t ∧
      t.stage.isScan = true ∧ t.advanceScan.stage = .random := by
  have hafter (stage : Stage) : stageAfter goal catalog options stage = stage.nextPlain :=
    if_neg hconcepts
  obtain ⟨t₁, hpasses₁, ht₁⟩ := makesPasses_plain hgoal rfl h
  obtain ⟨t₂, hpasses₂, ht₂⟩ := makesPasses_plain hgoal rfl (ht₁.beginsPass (hafter _) rfl)
  refine ⟨t₂, ?_, ht₂.isScan, ht₂.next.trans (hafter _)⟩
  rw [all_of_plain hconcepts]
  exact hpasses₁.append ht₁.isScan hpasses₂

/-- **All stages** are completed in order, and no scan follows the last one. -/
theorem makesPasses_all (hgoal : goal.isLevelCall = false)
    (h : BeginsPass catalog options goal { stage := .plainNice } s) :
    ∃ t, MakesPasses catalog options s (Pass.all goal catalog options) t ∧
      t.stage.isScan = true ∧ t.advanceScan.stage = .random := by
  by_cases hconcepts : options.conceptScans = true ∧ goal = .resolve ∧ catalog.scanConcepts ≠ []
  · exact makesPasses_withConcepts hgoal hconcepts h
  · exact makesPasses_withoutConcepts hgoal hconcepts h

/-- All passes are completed, as far as their combinations go. -/
theorem completesPasses_all (hgoal : goal.isLevelCall = false)
    (h : BeginsPass catalog options goal { stage := .plainNice } s) :
    ∃ t, (∃ parts, s.MakesHere parts.flatten t ∧
        List.Forall₂ (Pass.IsComplete catalog options) (Pass.all goal catalog options) parts) ∧
      t.stage.isScan = true ∧ t.advanceScan.stage = .random := by
  obtain ⟨t, ⟨parts, hparts, hpasses⟩, hend⟩ := makesPasses_all hgoal h
  exact ⟨t, ⟨parts, hparts, hpasses.imp fun _ _ hpass => hpass.1⟩, hend⟩

end

/-! ### The whole search -/

/-- The start of the passes is a call of the catalog. -/
theorem beginScans_eq (hsize : 0 < s.catalog.calls.size) : ∃ start draws,
    start < s.catalog.calls.size ∧ s.beginScans =
      { s with draws, cursor := { start, current := (start : Int) - 1 }, odometer := {} }.enter
        .plainNice := by
  unfold beginScans
  split
  · rename_i start t heq
    split at heq
    · cases heq
      exact ⟨0, s.draws, hsize, rfl⟩
    · unfold draw at heq
      split at heq
      · cases heq
        exact ⟨0, s.draws, hsize, rfl⟩
      · rename_i d draws _
        cases heq
        exact ⟨d.toNat % s.catalog.calls.size, draws, Nat.mod_lt _ hsize, rfl⟩

/-- The first pass is of plain calls for nice resolves. -/
theorem beginsPass_beginScans (goal : Goal) (hsize : 0 < s.catalog.calls.size) :
    BeginsPass s.catalog s.options goal { stage := .plainNice } (s.start goal).beginScans := by
  have hcatalog : (s.start goal).catalog = s.catalog := rfl
  obtain ⟨start, draws, hlt, hbegin⟩ := beginScans_eq (s := s.start goal) (hcatalog ▸ hsize)
  rw [hbegin]
  exact ⟨⟨rfl, rfl, rfl, rfl, fun h => (Bool.false_ne_true h).elim, ⟨start, hlt, rfl⟩, rfl⟩, rfl⟩

/-- The first candidates of a search that begins with the scans. -/
theorem makes_start {goal : Goal} {log : List (Candidate × Search)}
    (hcalls : s.catalog.calls.isEmpty = false) (hgoal : goal.scansFirst = true)
    (h : (s.start goal).beginScans.MakesHere log t) : (s.start goal).Makes log t := by
  have hstage : (s.start goal).stage = .starting := by
    unfold start
    rw [hcalls, hgoal]
    rfl
  have hbegin : (s.start goal).beginScans.stage = .plainNice := by
    unfold beginScans
    split
    rfl
  have hscanned : (s.start goal).beginScans.scannedConcept = (none, (s.start goal).beginScans) := by
    rw [scannedConcept, hbegin]
    rfl
  have hpick : (s.start goal).pickConcept false = (none, (s.start goal).beginScans) := by
    rw [pickConcept, hstage]
  obtain ⟨c, u, more, rfl, hattempt, hmore⟩ := h
  exact .cons ((nextCandidate_eq (hpick.trans hscanned.symm)).trans hattempt) hmore

end Search

/-- **The scans try everything once.**  Whatever the catalog, the options and the draws are, a
search that begins with the scans makes complete passes, with and without concepts as
is wanted, and is random after the last one. -/
theorem scans_complete {s : Search} {goal : Goal} (hcalls : s.catalog.calls.isEmpty = false)
    (hgoal : goal.scansFirst = true) : ∃ parts t,
      (s.start goal).Makes parts.flatten t ∧ (t.pickConcept false).2.stage = .random ∧
        List.Forall₂ (Pass.IsComplete s.catalog s.options) (Pass.all goal s.catalog s.options)
          parts := by
  have hsize : 0 < s.catalog.calls.size := by
    rw [Nat.pos_iff_ne_zero]
    intro hzero
    rw [Array.isEmpty_iff_size_eq_zero.2 hzero] at hcalls
    cases hcalls
  have hlevel : goal.isLevelCall = false := by
    cases goal <;> first | rfl | cases hgoal
  obtain ⟨t, ⟨parts, hparts, hcomplete⟩, hscan, hrandom⟩ :=
    Search.completesPasses_all hlevel (Search.beginsPass_beginScans goal hsize)
  refine ⟨parts, t, Search.makes_start hcalls hgoal hparts, ?_, hcomplete⟩
  rw [Search.stage_pickConcept hscan, hrandom]

/-- A search that may use concepts, among calls with each kind of blank, with one that is
barred and with one that asks for too many numbers. -/
def sampleSearch : Search where
  catalog :=
    { Catalog.ofCalls [
        .make "@6 walk @h" .mainstream CallFlags.numberUnit,
        .make "circulate" .mainstream CallFlags.circulator,
        .make "@v your neighbor" .plus 0,
        .make "@N once and a half" .mainstream 0,
        .make "never" .mainstream CallFlags.notInResolve,
        .make "relay @h" .mainstream (6 * CallFlags.numberUnit),
        .make "revert @v" .mainstream CallFlags.taggerUnit,
        .make "tag the line" .mainstream CallFlags.taggerUnit] with
      scanConcepts := [3, 5] }
  options := { conceptScans := true }
  draws := [7]

/-- The sample goes through six passes. -/
theorem scans_complete_sampleSearch :
    sampleSearch.catalog.calls.isEmpty = false ∧ Goal.resolve.scansFirst = true ∧
      (Pass.all .resolve sampleSearch.catalog sampleSearch.options).length = 6 ∧
        ∃ parts t, (sampleSearch.start .resolve).Makes parts.flatten t ∧
          (t.pickConcept false).2.stage = .random ∧
            List.Forall₂ (Pass.IsComplete sampleSearch.catalog sampleSearch.options)
              (Pass.all .resolve sampleSearch.catalog sampleSearch.options) parts :=
  ⟨by decide +kernel, by decide, by decide +kernel,
    scans_complete (by decide +kernel) (by decide)⟩

end SquareDance
