/-
# How blanks turn the odometer

The wheel of a blank is one of the five of the odometer.  Filling in a blank during a
scan shows what its wheel stands at and turns the wheel if those inside it are at
zero.  So filling in blanks one after another carries: `Search.fillAll_eq`.  The
wheels of other blanks stay as they are.

A blank that cannot be filled in turns nothing, wherever the wheels are.
-/

import SquareDance.Proofs.CallBook.Words
import SquareDance.Proofs.Search.Wheels

namespace SquareDance

/-- The place of the wheel of a blank, from the inside out. -/
def Blank.place : Blank → Nat
  | designator => 0
  | direction => 1
  | numbers _ _ => 2
  | tagger _ => 3
  | circulator => 4

/-- Why a blank cannot be filled in. -/
def Blank.problem : Blank → PickError
  | numbers count _ => .tooManyNumbers count
  | tagger cls => .noAcceptableTaggers cls
  | _ => .noCirculators

/-- The blanks of a call come from the inside out. -/
theorem CatalogCall.blanks_sorted (c : CatalogCall) :
    c.blanks.Pairwise fun b b' => b.place < b'.place := by
  obtain ⟨name, level, flags1, designator, direction, odd, tagger, circulator⟩ := c
  unfold blanks
  generalize numberCount _ = count
  cases designator <;> cases direction <;> cases tagger <;> cases circulator <;>
    by_cases hcount : count = 0 <;> simp [hcount, Blank.place]

/-- So do the first of them. -/
theorem CatalogCall.blanks_sorted_left {c : CatalogCall} {pre post : List Blank}
    (h : c.blanks = pre ++ post) : pre.Pairwise fun b b' => b.place < b'.place := by
  have hall := c.blanks_sorted
  rw [h] at hall
  exact (List.pairwise_append.1 hall).1

/-! ### Wheels of the odometer -/

namespace Odometer

variable {o : Odometer} {b b' : Blank} {p : Nat} {k : Scan}

/-- Where the wheel of a blank is. -/
def wheel (o : Odometer) : Blank → Nat
  | .designator => o.designator
  | .direction => o.direction
  | .numbers _ _ => o.number.toNat
  | .tagger _ => o.tagger
  | .circulator => o.circulator

/-- Set the wheel of a blank. -/
def set (o : Odometer) : Blank → Nat → Odometer
  | .designator, p => { o with designator := p }
  | .direction, p => { o with direction := p }
  | .numbers _ _, p => { o with number := UInt32.ofNat p }
  | .tagger _, p => { o with tagger := p }
  | .circulator, p => { o with circulator := p }

/-- The wheels inside that of a blank are at zero. -/
def restsInside (o : Odometer) : Blank → Bool
  | .designator => true
  | .direction => o.restsInsideDirection
  | .numbers _ _ => o.restsInsideNumber
  | .tagger _ => o.restsInsideTagger
  | .circulator => o.restsInsideCirculator

/-- The wheels from a place on are at zero. -/
def RestsFrom (o : Odometer) (n : Nat) : Prop := ∀ b : Blank, n ≤ b.place → o.wheel b = 0

/-- The wheels inside that of a blank rest if each of them is at zero. -/
theorem restsInside_iff : o.restsInside b = true ↔ ∀ b', b'.place < b.place → o.wheel b' = 0 := by
  constructor
  · intro h b' hlt
    cases b <;> cases b' <;>
      simp_all [restsInside, restsInsideDirection, restsInsideNumber, restsInsideTagger,
        restsInsideCirculator, Blank.place, wheel]
  · intro h
    have hd := h .designator
    have hh := h .direction
    have hn := h (.numbers 0 false)
    have ht := h (.tagger 0)
    cases b <;>
      simp_all [restsInside, restsInsideDirection, restsInsideNumber, restsInsideTagger,
        restsInsideCirculator, Blank.place, wheel, ← UInt32.toNat_inj]

/-- The odometer rests if all of its wheels are at zero. -/
theorem rests_iff : o.rests = true ↔ ∀ b, o.wheel b = 0 := by
  rw [rests, Bool.and_eq_true, beq_iff_eq]
  constructor
  · rintro ⟨hinside, hcirculator⟩ b
    rcases Nat.lt_or_ge b.place 4 with hlt | hge
    · exact (restsInside_iff (b := .circulator)).1 hinside b hlt
    · cases b with
      | circulator => exact hcirculator
      | _ => exact absurd hge (by simp [Blank.place])
  · intro h
    exact ⟨(restsInside_iff (b := .circulator)).2 fun b _ => h b, h .circulator⟩

/-- To set a wheel moves no other. -/
theorem wheel_set_of_ne (h : b'.place ≠ b.place) : (o.set b p).wheel b' = o.wheel b' := by
  cases b <;> cases b' <;> first | rfl | exact absurd rfl h

/-- A wheel is where it was set, if that is a position of it. -/
theorem wheel_set_self (hp : p ∈ k.positions b) : (o.set b p).wheel b = p := by
  cases b with
  | numbers count odd =>
    have hlt : p < 2 ^ 32 := by
      have hmem : p ∈ numberPositions count odd := hp
      unfold numberPositions at hmem
      split at hmem
      · rw [List.mem_singleton.1 hmem]
        decide
      · have hrange := List.mem_range.1 (List.mem_filter.1 hmem).1
        have hpow : 4 ^ count ≤ 4 ^ 2 := Nat.pow_le_pow_right (by decide) (by omega)
        omega
    exact UInt32.toNat_ofNat_of_lt' hlt
  | _ => rfl

/-- Wheels of one place are the same wheel. -/
theorem wheel_of_place_eq (h : b'.place = b.place) : o.wheel b' = o.wheel b := by
  cases b <;> cases b' <;> first | rfl | cases h

/-- A wheel that is set twice is where it was set last. -/
theorem set_set : (o.set b p).set b p' = o.set b p' := by
  cases b <;> rfl

/-- Different wheels can be set in either order. -/
theorem set_comm {p' : Nat} (h : b'.place ≠ b.place) :
    (o.set b p).set b' p' = (o.set b' p').set b p := by
  cases b <;> cases b' <;> first | rfl | exact absurd rfl h

/-- With all wheels from a place on at zero, the wheels inside it are all there are. -/
theorem restsInside_eq_rests (h : o.RestsFrom b.place) : o.restsInside b = o.rests := by
  rw [Bool.eq_iff_iff, restsInside_iff, rests_iff]
  constructor
  · intro hinside b'
    rcases Nat.lt_or_ge b'.place b.place with hlt | hge
    · exact hinside b' hlt
    · exact h b' hge
  · exact fun hall b' _ => hall b'

/-- When a wheel was set, the ones outside of it are still at zero. -/
theorem RestsFrom.set (h : o.RestsFrom b.place) : (o.set b p).RestsFrom (b.place + 1) := by
  intro b' hb'
  rw [wheel_set_of_ne (by omega)]
  exact h b' (by omega)

/-- An odometer at rest stays so if a wheel is set to zero. -/
theorem rests_set (h : o.RestsFrom b.place) (hp : p ∈ k.positions b) :
    (o.set b p).rests = (o.rests && p == 0) := by
  rw [Bool.eq_iff_iff, Bool.and_eq_true, beq_iff_eq, rests_iff, rests_iff]
  constructor
  · intro hall
    have hzero : p = 0 := by
      rw [← hall b, wheel_set_self hp]
    refine ⟨fun b' => ?_, hzero⟩
    by_cases hplace : b'.place = b.place
    · exact h b' (by omega)
    · rw [← hall b', wheel_set_of_ne hplace]
  · rintro ⟨hall, rfl⟩ b'
    by_cases hplace : b'.place = b.place
    · rw [wheel_of_place_eq hplace, wheel_set_self hp]
    · rw [wheel_set_of_ne hplace]
      exact hall b'

/-! ### Many wheels -/

/-- Set the wheels of some blanks. -/
def setAll (o : Odometer) : List Blank → List Nat → Odometer
  | b :: bs, p :: ps => (o.set b p).setAll bs ps
  | _, _ => o

variable {bs : List Blank} {ps : List Nat}

/-- To set wheels moves none inside of them. -/
theorem wheel_setAll_of_lt (h : ∀ b' ∈ bs, b.place < b'.place) :
    (o.setAll bs ps).wheel b = o.wheel b := by
  induction bs generalizing o ps with
  | nil => rfl
  | cons b' bs ih =>
    cases ps with
    | nil => rfl
    | cons p ps =>
      have hlt := h b' List.mem_cons_self
      rw [setAll, ih fun b hb => h b (List.mem_cons_of_mem _ hb), wheel_set_of_ne (by omega)]

/-- To set wheels from a place on has no effect on those inside of it. -/
theorem restsInside_setAll (h : ∀ b' ∈ bs, b.place ≤ b'.place) :
    (o.setAll bs ps).restsInside b = o.restsInside b := by
  have hwheel : ∀ b', b'.place < b.place → (o.setAll bs ps).wheel b' = o.wheel b' := fun b' hb' =>
    wheel_setAll_of_lt fun b hb => Nat.lt_of_lt_of_le hb' (h b hb)
  rw [Bool.eq_iff_iff, restsInside_iff, restsInside_iff]
  constructor
  · intro hinside b' hb'
    rw [← hwheel b' hb']
    exact hinside b' hb'
  · intro hinside b' hb'
    rw [hwheel b' hb']
    exact hinside b' hb'

/-- A wheel inside of others can be set before them. -/
theorem set_setAll {p : Nat} (h : ∀ b' ∈ bs, b.place < b'.place) :
    (o.setAll bs ps).set b p = (o.set b p).setAll bs ps := by
  induction bs generalizing o ps with
  | nil => rfl
  | cons b' bs ih =>
    cases ps with
    | nil => rfl
    | cons q ps =>
      have hlt := h b' List.mem_cons_self
      rw [setAll, ih fun b hb => h b (List.mem_cons_of_mem _ hb), set_comm (by omega), setAll]

/-- Setting wheels to zero that are at zero changes nothing. -/
theorem setAll_zeros : (({} : Odometer).setAll bs (bs.map fun _ => 0)) = {} := by
  induction bs with
  | nil => rfl
  | cons b bs ih =>
    have hset : ({} : Odometer).set b 0 = {} := by cases b <;> rfl
    rw [List.map_cons, setAll, hset, ih]

/-- Wheels that are all at zero were all set to zero. -/
theorem eq_zeros_of_rests (hsorted : bs.Pairwise fun b b' => b.place < b'.place)
    (hps : List.Forall₂ (fun b p => p ∈ k.positions b) bs ps)
    (h : (o.setAll bs ps).rests = true) : ps = bs.map fun _ => 0 := by
  induction hps generalizing o with
  | nil => rfl
  | @cons b p bs ps hp _ ih =>
    obtain ⟨hb, hbs⟩ := List.pairwise_cons.1 hsorted
    have hzero : p = 0 := by
      have hwheel := rests_iff.1 h b
      rwa [setAll, wheel_setAll_of_lt hb, wheel_set_self hp] at hwheel
    rw [List.map_cons, hzero, ih hbs h]

/-- The odometer after the wheel of a blank was read, which turns if those inside it are
at zero. -/
def turnAt (o : Odometer) (k : Scan) (b : Blank) : Odometer :=
  if o.restsInside b then o.set b (k.turn b (o.wheel b)) else o

/-- Reading the first of some wheels turns it if all those set before are at zero. -/
theorem turnAt_setAll (hbs : ∀ b' ∈ bs, b.place < b'.place) (ho : o.RestsFrom b.place)
    (hp : p ∈ k.positions b) : (o.setAll (b :: bs) (p :: ps)).turnAt k b
      = (o.set b (if o.rests then k.turn b p else p)).setAll bs ps := by
  have hwheel : (o.setAll (b :: bs) (p :: ps)).wheel b = p := by
    rw [setAll, wheel_setAll_of_lt hbs, wheel_set_self hp]
  have hrests : (o.setAll (b :: bs) (p :: ps)).restsInside b = o.rests := by
    rw [restsInside_setAll, restsInside_eq_rests ho]
    intro b' hb'
    rcases List.mem_cons.1 hb' with rfl | hb'
    · exact Nat.le_refl _
    · exact Nat.le_of_lt (hbs b' hb')
  rw [turnAt, hrests, hwheel, setAll]
  split
  · rw [set_setAll hbs, set_set]
  · rfl

/-- Carrying goes on with the wheels outside of the first if that came back to zero. -/
theorem setAll_carry {p' : Nat} (ho : o.RestsFrom b.place) (hmem : p' ∈ k.positions b)
    (hp' : p' = if o.rests then k.turn b p else p) :
    (o.set b p').setAll bs (if (o.set b p').rests then carry (bs.map k.turn) ps else ps)
      = o.setAll (b :: bs)
        (if o.rests then carry ((b :: bs).map k.turn) (p :: ps) else p :: ps) := by
  rw [rests_set ho hmem, hp']
  cases o.rests with
  | false => rfl
  | true => simp only [Bool.true_and, if_true, List.map_cons, carry, setAll, beq_iff_eq]

end Odometer

/-! ### Filling in one blank -/

namespace Search

variable {s : Search} {b : Blank}

/-- The search with another odometer and hash. -/
def moved (s : Search) (odometer : Odometer) (hash : UInt32) : Search :=
  { s with odometer, hash }

/-- Folding a choice in changes the hash. -/
theorem fold_moved (s : Search) (o : Odometer) (h : UInt32) (n : Nat) : ∃ hash,
    (s.moved o h).fold n = s.moved o hash :=
  ⟨h * hashMultiplier + UInt32.ofNat n, rfl⟩

/-- There are as many positions as designators to choose from. -/
theorem designatorCount_eq (s : Search) : s.designatorCount = s.scan.designators.length := by
  unfold designatorCount Scan.designators scan
  split
  · rfl
  · split <;> rfl

/-- There are as many positions as directions to choose from. -/
theorem directionCount_eq (s : Search) : s.directionCount = s.scan.directions.length := by
  unfold directionCount Scan.directions scan
  split <;> rfl

/-- The wheel of people is read and turns. -/
theorem scanDesignator_eq (s : Search) : s.scanDesignator true =
    (scannedDesignators[s.odometer.designator % 8]?.getD .centers,
      s.moved (s.odometer.turnAt s.scan .designator) s.hash) := by
  rw [Odometer.turnAt, if_pos (by rfl), Scan.turn, ← designatorCount_eq]
  rfl

/-- The wheel of directions is read and turns if the one inside of it rests. -/
theorem scanDirection_eq (s : Search) : s.scanDirection =
    (scannedDirections[s.odometer.direction % 4]?.getD .noDirection,
      s.moved (s.odometer.turnAt s.scan .direction) s.hash) := by
  rw [Odometer.turnAt, Scan.turn, ← directionCount_eq, scanDirection]
  by_cases hrests : s.odometer.restsInsideDirection = true
  · rw [if_pos hrests, if_pos (show s.odometer.restsInside .direction = true from hrests)]
    rfl
  · rw [if_neg hrests, if_neg (show ¬ s.odometer.restsInside .direction = true from hrests)]
    rfl

/-- The number in the first place is packed with those of the places after it. -/
theorem pickNumbersFrom_succ (s : Search) (odd : Bool) (place count : Nat) :
    s.pickNumbersFrom true odd place (count + 1)
      = (let (more, t) := (s.fold (numberOn s.odometer.number place - 1)).pickNumbersFrom true odd
          (place + 1) count
        (UInt32.ofNat (numberOn s.odometer.number place) <<< UInt32.ofNat (6 * place) ||| more,
          t)) :=
  rfl

/-- Numbers are read off their wheel, and only the hash changes. -/
theorem pickNumbersFrom_moved (s : Search) (o : Odometer) (h : UInt32) (odd : Bool)
    (place count : Nat) : ∃ hash, (s.moved o h).pickNumbersFrom true odd place count
      = (packNumbers place ((List.range' place count).map (numberOn o.number)),
        s.moved o hash) := by
  induction count generalizing h place with
  | zero => exact ⟨h, rfl⟩
  | succ count ih =>
    obtain ⟨hash, hfold⟩ := s.fold_moved o h (numberOn o.number place - 1)
    obtain ⟨hash', hrest⟩ := ih hash (place + 1)
    refine ⟨hash', ?_⟩
    have hnumber : (s.moved o h).odometer.number = o.number := rfl
    rw [pickNumbersFrom_succ, hnumber, hfold, hrest, List.range'_succ, List.map_cons,
      packNumbers]

/-- The wheel of numbers is read and turns if those inside of it rest. -/
theorem pickNumbers_eq {count : Nat} (odd : Bool) (hscan : s.stage.isScan = true)
    (hcount : count ≤ maxNumbers) : ∃ hash, s.pickNumbers count odd true
      = (.ok (packNumbers 0 (numbersAt count s.odometer.number.toNat)),
        s.moved (s.odometer.turnAt s.scan (.numbers count odd)) hash) := by
  obtain ⟨hash, hnumbers⟩ := s.pickNumbersFrom_moved s.odometer s.hash odd 0 count
  have hread : s.pickNumbersFrom true odd 0 count
      = (packNumbers 0 (numbersAt count s.odometer.number.toNat), s.moved s.odometer hash) := by
    rw [numbersAt, UInt32.ofNat_toNat, List.range_eq_range', ← hnumbers]
    rfl
  have hturn : s.scan.turn (.numbers count odd) s.odometer.number.toNat
      = (turnNumbers s.odometer.number count odd).toNat := by
    rw [Scan.turn, turnedNumbers, UInt32.ofNat_toNat]
  refine ⟨hash, ?_⟩
  rw [pickNumbers, if_neg (Nat.not_lt.2 hcount), hscan]
  simp only [Bool.and_true, Bool.true_and, hread]
  rw [Odometer.turnAt, Odometer.wheel, hturn, Odometer.set, UInt32.ofNat_toNat]
  by_cases hrests : s.odometer.restsInsideNumber = true
  · rw [if_pos (show (s.moved s.odometer hash).odometer.restsInsideNumber = true from hrests),
      if_pos (show s.odometer.restsInside (.numbers count odd) = true from hrests)]
    rfl
  · rw [if_neg (show ¬ (s.moved s.odometer hash).odometer.restsInsideNumber = true from hrests),
      if_neg (show ¬ s.odometer.restsInside (.numbers count odd) = true from hrests)]

/-- The wheel of tagging calls goes on to one that a scan may use, and turns if those inside of it
rest. -/
theorem scanTagger_eq {cls t : Nat}
    (ht : nextScannable? (s.catalog.taggersOf cls) s.odometer.tagger = some t) :
    s.scanTagger cls
      = (.ok t, s.moved (s.odometer.turnAt s.scan (.tagger cls)) s.hash) := by
  have hturn : s.scan.turn (.tagger cls) (s.odometer.wheel (.tagger cls))
      = (nextScannable? (s.catalog.taggersOf cls) (t + 1)).getD 0 := by
    simp only [Scan.turn, scan, Odometer.wheel, ht]
  rw [Odometer.turnAt, hturn, scanTagger]
  simp only [ht]
  by_cases hrests : s.odometer.restsInsideTagger = true
  · rw [if_pos hrests, if_pos (show s.odometer.restsInside (.tagger cls) = true from hrests)]
    rfl
  · rw [if_neg hrests, if_neg (show ¬ s.odometer.restsInside (.tagger cls) = true from hrests)]
    rfl

/-- A wheel of tagging calls finds one that a scan may use. -/
theorem exists_nextScannable {k : Scan} {cls p : Nat} (h : k.CanFill (.tagger cls))
    (hp : p ∈ k.positions (.tagger cls)) : ∃ t call,
      nextScannable? (k.catalog.taggersOf cls) p = some t ∧
        (k.catalog.taggersOf cls)[t]? = some call ∧ call.isScannableTagger = true := by
  have hne : scannableFrom (k.catalog.taggersOf cls) p ≠ [] := by
    rcases List.mem_cons.1 hp with rfl | hp
    · exact h
    · obtain ⟨-, hcall⟩ := mem_scannableFrom.1 (List.mem_of_mem_tail hp)
      exact List.ne_nil_of_mem (mem_scannableFrom.2 ⟨Nat.le_refl p, hcall⟩)
  obtain ⟨t, l, hl⟩ := List.exists_cons_of_ne_nil hne
  obtain ⟨-, call, hcall, hscan⟩ := mem_scannableFrom.1 (hl ▸ List.mem_cons_self : t ∈ _)
  refine ⟨t, call, ?_, hcall, hscan⟩
  rw [nextScannable?_eq, hl, List.head?_cons]

/-- A tagging call that a scan may use is not barred from resolving. -/
theorem not_barred_of_isScannableTagger {call : CatalogCall} (h : call.isScannableTagger = true) :
    call.flags1 &&& CallFlags.notInResolve = 0 := by
  unfold CatalogCall.isScannableTagger at h
  simp only [Bool.and_eq_true, beq_iff_eq] at h
  obtain ⟨⟨⟨⟨hflags, -⟩, -⟩, -⟩, -⟩ := h
  rw [UInt32.and_comm, UInt32.or_and_distrib, UInt32.or_eq_zero_iff] at hflags
  rw [UInt32.and_comm]
  exact hflags.1

/-- The tagging call on the wheel is chosen, with its class. -/
theorem pickTagger_eq {cls : Nat} (hscan : s.stage.isScan = true)
    (hfill : s.scan.CanFill (.tagger cls))
    (hpos : s.odometer.tagger ∈ s.scan.positions (.tagger cls)) : ∃ hash t,
      nextScannable? (s.catalog.taggersOf cls) s.odometer.tagger = some t ∧
        s.pickTagger cls = (.ok (UInt32.ofNat cls <<< 5 ||| UInt32.ofNat (t + 1)),
          s.moved (s.odometer.turnAt s.scan (.tagger cls)) hash) := by
  obtain ⟨t, call, ht, hcall, hok⟩ := exists_nextScannable hfill hpos
  obtain ⟨hash, hfold⟩ := s.fold_moved (s.odometer.turnAt s.scan (.tagger cls)) s.hash t
  refine ⟨hash, t, ht, ?_⟩
  have htagger : ((s.moved (s.odometer.turnAt s.scan (.tagger cls)) hash).catalog.taggersOf cls)[t]?
      = some call := hcall
  rw [pickTagger, if_pos hscan, scanTagger_eq ht]
  simp only [hfold, htagger, Option.any_some, not_barred_of_isScannableTagger hok, bne_self_eq_false]
  rfl

/-- The circulating call on the wheel is chosen, counted from 1. -/
theorem pickCirculator_eq (hscan : s.stage.isScan = true) (hfill : s.scan.CanFill .circulator) :
    ∃ hash, s.pickCirculator = (.ok (s.odometer.circulator + 1),
      s.moved (s.odometer.turnAt s.scan .circulator) hash) := by
  have hcount : s.catalog.circulators.size ≠ 0 := Nat.ne_of_gt hfill
  have hturned : (if s.odometer.restsInsideCirculator = true then
        { s with odometer := { s.odometer with
            circulator := Odometer.turn s.odometer.circulator s.catalog.circulators.size } }
      else s) = s.moved (s.odometer.turnAt s.scan .circulator) s.hash := by
    rw [Odometer.turnAt]
    by_cases hrests : s.odometer.restsInsideCirculator = true
    · rw [if_pos hrests, if_pos (show s.odometer.restsInside .circulator = true from hrests)]
      rfl
    · rw [if_neg hrests, if_neg (show ¬ s.odometer.restsInside .circulator = true from hrests)]
      rfl
  obtain ⟨hash, hfold⟩ := s.fold_moved (s.odometer.turnAt s.scan .circulator) s.hash
    s.odometer.circulator
  refine ⟨hash, ?_⟩
  rw [pickCirculator, if_neg hcount, if_pos hscan]
  simp only [hturned, hfold]

/-- **Filling in a blank during a scan** shows what its wheel stands at, and turns the
wheel if those inside it are at zero. -/
theorem fill_eq (hscan : s.stage.isScan = true) (hfill : s.scan.CanFill b)
    (hpos : s.odometer.wheel b ∈ s.scan.positions b) : ∃ hash,
      s.fill b = (.ok (s.scan.choiceAt b (s.odometer.wheel b)).filling,
        s.moved (s.odometer.turnAt s.scan b) hash) := by
  cases b with
  | designator =>
    obtain ⟨hash, hfold⟩ := s.fold_moved (s.odometer.turnAt s.scan .designator) s.hash
      (scannedDesignators[s.odometer.designator % 8]?.getD .centers).index
    refine ⟨hash, ?_⟩
    rw [fill, pickDesignator, if_pos hscan, scanDesignator_eq, ← hfold]
    rfl
  | direction =>
    obtain ⟨hash, hfold⟩ := s.fold_moved (s.odometer.turnAt s.scan .direction) s.hash
      (scannedDirections[s.odometer.direction % 4]?.getD .noDirection).index
    refine ⟨hash, ?_⟩
    rw [fill, pickDirection, if_pos hscan, scanDirection_eq, ← hfold]
    rfl
  | numbers count odd =>
    obtain ⟨hash, hnumbers⟩ := pickNumbers_eq odd hscan hfill
    refine ⟨hash, ?_⟩
    rw [fill, hnumbers]
    rfl
  | tagger cls =>
    obtain ⟨hash, t, ht, htagger⟩ := pickTagger_eq hscan hfill hpos
    have hshown : s.scan.choiceAt (.tagger cls) (s.odometer.wheel (.tagger cls)) = .tagger cls t := by
      simp only [Scan.choiceAt, scan, Odometer.wheel, ht, Option.getD_some]
    refine ⟨hash, ?_⟩
    rw [fill, htagger, hshown]
    rfl
  | circulator =>
    obtain ⟨hash, hcirculator⟩ := pickCirculator_eq hscan hfill
    refine ⟨hash, ?_⟩
    rw [fill, hcirculator]
    rfl

/-- A blank that cannot be filled in changes nothing. -/
theorem fill_of_not_canFill (hscan : s.stage.isScan = true) (h : ¬ s.scan.CanFill b) :
    s.fill b = (.error b.problem, s) := by
  cases b with
  | designator => exact absurd trivial h
  | direction => exact absurd trivial h
  | numbers count odd =>
    rw [fill, pickNumbers, if_pos (Nat.lt_of_not_le h)]
    rfl
  | tagger cls =>
    have hnil : scannableFrom (s.catalog.taggersOf cls) 0 = [] := Classical.not_not.1 h
    have hnone : nextScannable? (s.catalog.taggersOf cls) s.odometer.tagger = none := by
      rw [nextScannable?_eq, List.head?_eq_none_iff, List.eq_nil_iff_forall_not_mem]
      intro j hj
      have hmem := mem_scannableFrom.2 ⟨Nat.zero_le j, (mem_scannableFrom.1 hj).2⟩
      rw [hnil] at hmem
      cases hmem
    have htagger : s.scanTagger cls = (.error (.noAcceptableTaggers cls), s) := by
      rw [scanTagger]
      simp only [hnone]
    rw [fill, pickTagger, if_pos hscan, htagger]
    rfl
  | circulator =>
    have hcount : s.catalog.circulators.size = 0 := Nat.eq_zero_of_not_pos h
    rw [fill, pickCirculator, if_pos hcount]
    rfl

/-! ### Filling in all blanks -/

/-- When the first blank is filled in, the others follow. -/
theorem fillAll_cons_of_ok {bs : List Blank} {filling : Filling} {t u : Search}
    {fillings : List Filling} {failure : Option PickError} (h : s.fill b = (.ok filling, t))
    (hrest : t.fillAll bs = ((fillings, failure), u)) :
    s.fillAll (b :: bs) = ((filling :: fillings, failure), u) := by
  simp only [fillAll, h, hrest]

/-- **Filling in blanks one after another carries.**  The wheels outside of them are at
rest; those inside of them may have turned before, and if they did not come back to
zero, nothing turns. -/
theorem fillAll_eq {o : Odometer} {bs : List Blank} {ps : List Nat}
    (hscan : s.stage.isScan = true) (hfill : ∀ b ∈ bs, s.scan.CanFill b)
    (hsorted : bs.Pairwise fun b b' => b.place < b'.place)
    (ho : ∀ b ∈ bs, o.RestsFrom b.place)
    (hps : List.Forall₂ (fun b p => p ∈ s.scan.positions b) bs ps)
    (hs : s.odometer = o.setAll bs ps) : ∃ hash,
      s.fillAll bs = ((List.zipWith (fun b p => (s.scan.choiceAt b p).filling) bs ps, none),
        s.moved (o.setAll bs (if o.rests then carry (bs.map s.scan.turn) ps else ps)) hash) := by
  induction bs generalizing s o ps with
  | nil =>
    obtain rfl : s.odometer = o := hs
    exact ⟨s.hash, rfl⟩
  | cons b bs ih =>
    obtain ⟨hb, hbs⟩ := List.pairwise_cons.1 hsorted
    cases hps with
    | @cons _ p _ ps hp hps =>
      have hwheel : s.odometer.wheel b = p := by
        rw [hs, Odometer.setAll, Odometer.wheel_setAll_of_lt hb, Odometer.wheel_set_self hp]
      have hob := ho b List.mem_cons_self
      obtain ⟨hash, hstep⟩ := fill_eq hscan (hfill b List.mem_cons_self) (hwheel ▸ hp)
      -- The wheel of the first blank is one of those inside of the rest.
      obtain ⟨p', hp'⟩ : ∃ p', p' = if o.rests then s.scan.turn b p else p := ⟨_, rfl⟩
      have hmem : p' ∈ s.scan.positions b := by
        rw [hp']
        split
        · exact (Scan.isCycle_positions (hfill b List.mem_cons_self)).next_mem hp
        · exact hp
      rw [hwheel, hs, Odometer.turnAt_setAll hb hob hp, ← hp'] at hstep
      obtain ⟨hash', hrest⟩ := ih (s := s.moved ((o.set b p').setAll bs ps) hash)
        hscan (fun b hb => hfill b (List.mem_cons_of_mem _ hb)) hbs
        (fun b' hb' b'' hle => hob.set b'' (Nat.le_trans (hb b' hb') hle)) hps rfl
      refine ⟨hash', ?_⟩
      rw [fillAll_cons_of_ok hstep hrest, ← Odometer.setAll_carry hob hmem hp']
      rfl

/-- At the first blank that cannot be filled in a call is given up. -/
theorem fillAll_append_of_problem {pre post : List Blank} {fillings : List Filling} {t : Search}
    {e : PickError} (hpre : s.fillAll pre = ((fillings, none), t))
    (h : t.fill b = (.error e, t)) : s.fillAll (pre ++ b :: post) = ((fillings, some e), t) := by
  induction pre generalizing s fillings with
  | nil =>
    cases hpre
    simp only [List.nil_append, fillAll, h]
  | cons b' pre ih =>
    simp only [fillAll] at hpre
    cases hfill : s.fill b' with
    | mk r u =>
      rw [hfill] at hpre
      cases r with
      | error e => cases hpre
      | ok filling =>
        cases hrest : u.fillAll pre with
        | mk result v =>
          obtain ⟨more, failure⟩ := result
          simp only [hrest] at hpre
          cases hpre
          exact fillAll_cons_of_ok hfill (ih hrest)

end Search
end SquareDance
