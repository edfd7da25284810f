/-
# What the hash of a candidate tells

Whether a value is scanned or drawn, it is folded into the hash in the same way, and nothing else
is.  So the hash of a candidate is that of the values that were chosen, from the hash before
(`Search.Chooses`), and two candidates for the same blanks that differ in one value have
different hashes.  Main statement: `Search.hash_tells_choices`.

A choice for a blank tells more than the blank is filled with: from a tagging call far down a class
its position cannot be read back (`Search.fill_eq_choose`).
-/

import SquareDance.Proofs.Search.Choices
import SquareDance.Proofs.Search.Values

namespace SquareDance

/-! ### Choices -/

/-- The kinds of values that are chosen for a blank. -/
def Blank.kinds : Blank → List ValueKind
  | designator => [.designator]
  | direction => [.direction]
  | numbers count _ => .replicate count .number
  | tagger _ => [.tagger]
  | circulator => [.circulator]

/-- The values of a choice. -/
def Choice.values : Choice → List ChosenValue
  | designator d => [.designator d]
  | direction d => [.direction d]
  | numbers ns => ns.map .number
  | tagger _ position => [.tagger position]
  | circulator n => [.circulator n]

/-- The numbers in the first places. -/
def unpackNumbers (count : Nat) (packed : UInt32) : List Nat :=
  (List.range count).map (packedNumber packed)

namespace Search

variable {s t u : Search}

/-- Numbers from 1 to 4 are read back from the word that they are packed in. -/
theorem unpackNumbers_packNumbers {ns : List Nat} (hns : ∀ n ∈ ns, 1 ≤ n ∧ n ≤ 4)
    (hlength : ns.length ≤ maxNumbers) : unpackNumbers ns.length (packNumbers 0 ns) = ns := by
  refine List.ext_getElem (by rw [unpackNumbers, List.length_map, List.length_range]) ?_
  intro place _ hplace
  simp only [unpackNumbers, List.getElem_map, List.getElem_range]
  exact packedNumber_packNumbers hns hlength hplace

/-- The tagging call that a search comes to, by scan or by chance. -/
def comesTo (s : Search) (cls : Nat) : Except PickError Nat × Search :=
  if s.stage.isScan then s.scanTagger cls else s.drawTagger cls

/-- The choice for a blank.  Without iteration, as under a concept, a scan does not read the wheels
of designators and numbers. -/
def choose (s : Search) (iterate : Bool) : Blank → Except PickError Choice × Search
  | .designator => (.ok (.designator (s.pickDesignator iterate).1), (s.pickDesignator iterate).2)
  | .direction => (.ok (.direction s.pickDirection.1), s.pickDirection.2)
  | .numbers count odd =>
    ((s.pickNumbers count odd iterate).1.map fun packed => .numbers (unpackNumbers count packed),
      (s.pickNumbers count odd iterate).2)
  | .tagger cls =>
    ((s.pickTagger cls).1.bind fun _ => (s.comesTo cls).1.map (.tagger cls), (s.pickTagger cls).2)
  | .circulator => (s.pickCirculator.1.map .circulator, s.pickCirculator.2)

/-- What a search counts fits into words: it was made of few calls, and the wheel of circulating
calls is a word. -/
structure FitsWords (s : Search) : Prop where
  catalog : ∃ calls, s.catalog.IsOf calls ∧ calls.length < 2 ^ 32
  circulator : s.odometer.circulator < 2 ^ 32

/-- A step that keeps the search keeps it within words. -/
theorem FitsWords.of_keeps (h : s.FitsWords) (hkeeps : s.Keeps t) : t.FitsWords :=
  ⟨hkeeps.catalog ▸ h.catalog, hkeeps.circulator ▸ h.circulator⟩

/-- No list of the catalog is too long for words. -/
theorem FitsWords.isWithin (h : s.FitsWords) : s.catalog.IsWithin (2 ^ 32 - 1) := by
  obtain ⟨calls, hcalls, hlength⟩ := h.catalog
  exact hcalls.isWithin.mono (by omega)

/-- Values were chosen and folded into the hash, and nothing else was. -/
structure Chooses (s : Search) (vs : List ChosenValue) (t : Search) : Prop where
  hash : t.hash = hashOf s.hash vs
  fits : ∀ v ∈ vs, v.Fits
  search : t.FitsWords

/-! ### People, directions and numbers -/

/-- Nothing is folded, and what was tried stays. -/
structure KeepsHash (s t : Search) : Prop where
  hash : t.hash = s.hash
  seen : t.seen = s.seen

/-- Two steps that fold nothing fold nothing together. -/
theorem KeepsHash.trans (h : s.KeepsHash t) (h' : t.KeepsHash u) : s.KeepsHash u :=
  ⟨h'.hash.trans h.hash, h'.seen.trans h.seen⟩

/-- A draw folds nothing by itself. -/
theorem keepsHash_draw (s : Search) (modulus : Nat) : s.KeepsHash (s.draw modulus).2 := by
  unfold draw
  split <;> exact ⟨rfl, rfl⟩

/-- To fold a value in gives the hash after that value. -/
theorem hash_fold (s : Search) (v : ChosenValue) : (s.fold v.code).hash = hashOf s.hash [v] := rfl

-- Below, the choice before a fold is made a pair of variables before the fold is opened: otherwise
-- it is the hashes that are compared, as products.

/-- People are scanned or drawn before anything is folded. -/
theorem keepsHash_designator (s : Search) (iterate : Bool) : s.KeepsHash
    (if s.stage.isScan = true then s.scanDesignator iterate else s.drawDesignator).2 := by
  split
  · unfold scanDesignator
    split <;> exact ⟨rfl, rfl⟩
  · exact s.keepsHash_draw _

/-- The people that are chosen are folded. -/
theorem hash_pickDesignator (s : Search) (iterate : Bool) : (s.pickDesignator iterate).2.hash
    = hashOf s.hash [.designator (s.pickDesignator iterate).1] := by
  have hhash := (s.keepsHash_designator iterate).hash
  unfold pickDesignator
  revert hhash
  generalize (if s.stage.isScan = true then s.scanDesignator iterate else s.drawDesignator) = p
  obtain ⟨d, t⟩ := p
  rintro hhash
  exact (t.hash_fold (.designator d)).trans (congrArg (hashOf · _) hhash)

/-- A direction is scanned or drawn before anything is folded. -/
theorem keepsHash_direction (s : Search) :
    s.KeepsHash (if s.stage.isScan = true then s.scanDirection else s.drawDirection).2 := by
  split
  · unfold scanDirection
    dsimp only
    split <;> exact ⟨rfl, rfl⟩
  · exact s.keepsHash_draw _

/-- The direction that is chosen is folded. -/
theorem hash_pickDirection (s : Search) :
    s.pickDirection.2.hash = hashOf s.hash [.direction s.pickDirection.1] := by
  have hhash := s.keepsHash_direction.hash
  unfold pickDirection
  revert hhash
  generalize (if s.stage.isScan = true then s.scanDirection else s.drawDirection) = p
  obtain ⟨d, t⟩ := p
  rintro hhash
  exact (t.hash_fold (.direction d)).trans (congrArg (hashOf · _) hhash)

/-- A number is drawn before anything is folded. -/
theorem keepsHash_drawNumber (s : Search) (odd : Bool) : s.KeepsHash (s.drawNumber odd).2 := by
  unfold drawNumber
  split <;> exact s.keepsHash_draw _

/-- The number that is chosen for a place is folded. -/
theorem hash_pickNumber (s : Search) (scanning odd : Bool) (place : Nat) :
    (s.pickNumber scanning odd place).2.hash
      = hashOf s.hash [.number (s.pickNumber scanning odd place).1] := by
  unfold pickNumber
  cases scanning with
  | true => exact s.hash_fold (.number _)
  | false =>
    have hhash := (s.keepsHash_drawNumber odd).hash
    revert hhash
    generalize s.drawNumber odd = p
    obtain ⟨n, t⟩ := p
    rintro hhash
    exact (t.hash_fold (.number n)).trans (congrArg (hashOf · _) hhash)

/-- **Numbers are folded one after another**, as they are packed. -/
theorem hash_pickNumbersFrom (s : Search) (scanning odd : Bool) (place count : Nat) :
    ∃ ns, (s.pickNumbersFrom scanning odd place count).1 = packNumbers place ns ∧
      ns.length = count ∧ (∀ n ∈ ns, 1 ≤ n ∧ n ≤ 4) ∧
        (s.pickNumbersFrom scanning odd place count).2.hash
          = hashOf s.hash (ns.map .number) := by
  induction count generalizing s place with
  | zero => exact ⟨[], rfl, rfl, fun n hn => absurd hn List.not_mem_nil, rfl⟩
  | succ count ih =>
    obtain ⟨hone, hfour, -⟩ := s.pickNumber_spec scanning odd place
    obtain ⟨ns, hpacked, hlength, hrange, hhash⟩ :=
      ih (s.pickNumber scanning odd place).2 (place + 1)
    refine ⟨(s.pickNumber scanning odd place).1 :: ns, ?_, by rw [List.length_cons, hlength],
      List.forall_mem_cons.2 ⟨⟨hone, hfour⟩, hrange⟩, ?_⟩
    · rw [pickNumbersFrom_step, packNumbers, ← hpacked]
    · rw [pickNumbersFrom_step]
      dsimp only
      rw [hhash, hash_pickNumber, ← hashOf_append, List.map_cons, List.singleton_append]

/-- All numbers that are chosen are folded, in the order of their places. -/
theorem hash_pickNumbers {count : Nat} {odd iterate : Bool} {packed : UInt32}
    (hok : (s.pickNumbers count odd iterate).1 = .ok packed) :
    ∃ ns, packed = packNumbers 0 ns ∧ ns.length = count ∧ count ≤ maxNumbers ∧
      (∀ n ∈ ns, 1 ≤ n ∧ n ≤ 4) ∧
        (s.pickNumbers count odd iterate).2.hash = hashOf s.hash (ns.map .number) := by
  unfold pickNumbers at hok ⊢
  split at hok
  · cases hok
  next hcount =>
    rw [if_neg hcount]
    obtain ⟨ns, hpacked, hlength, hrange, hhash⟩ :=
      s.hash_pickNumbersFrom (iterate && s.stage.isScan) odd 0 count
    refine ⟨ns, (Except.ok.inj hok).symm.trans hpacked, hlength, Nat.le_of_not_lt hcount, hrange,
      Eq.trans ?_ hhash⟩
    dsimp only
    split <;> rfl

/-! ### Tagging calls, circulating calls and calls -/

/-- A tagging call is come to before anything is folded. -/
theorem keepsHash_comesTo (s : Search) (cls : Nat) : s.KeepsHash (s.comesTo cls).2 := by
  unfold comesTo
  split
  · unfold scanTagger
    dsimp only
    split
    · exact ⟨rfl, rfl⟩
    · dsimp only
      split <;> exact ⟨rfl, rfl⟩
  · unfold drawTagger
    dsimp only
    split
    · exact ⟨rfl, rfl⟩
    · exact s.keepsHash_draw _

/-- The position of the tagging call that is chosen is folded, but not its class. -/
theorem hash_pickTagger {cls : Nat} {packed : UInt32} (hok : (s.pickTagger cls).1 = .ok packed) :
    ∃ position, (s.comesTo cls).1 = .ok position ∧
      packed = UInt32.ofNat cls <<< 5 ||| UInt32.ofNat (position + 1) ∧
        (s.pickTagger cls).2.hash = hashOf s.hash [.tagger position] := by
  have hhash := (s.keepsHash_comesTo cls).hash
  unfold pickTagger at hok ⊢
  unfold comesTo at hhash ⊢
  revert hok hhash
  generalize (if s.stage.isScan = true then s.scanTagger cls else s.drawTagger cls) = p
  obtain ⟨e | position, t⟩ := p
  · rintro ⟨⟩
  · dsimp only
    split
    · rintro ⟨⟩
    · rintro ⟨rfl⟩ hhash
      exact ⟨position, rfl, rfl, (t.hash_fold (.tagger position)).trans
        (congrArg (hashOf · _) hhash)⟩

/-- The circulating call that is chosen is folded. -/
theorem hash_pickCirculator {n : Nat} (hok : s.pickCirculator.1 = .ok n) :
    s.pickCirculator.2.hash = hashOf s.hash [.circulator n] := by
  unfold pickCirculator at hok ⊢
  dsimp only at hok ⊢
  split at hok
  · cases hok
  next hzero =>
    rw [if_neg hzero]
    split at hok
    next hscan =>
      rw [if_pos hscan]
      obtain rfl := Except.ok.inj hok
      refine (hash_fold _ (.circulator (s.odometer.circulator + 1))).trans
        (congrArg (hashOf · _) ?_)
      split <;> rfl
    next hscan =>
      rw [if_neg hscan]
      obtain rfl := Except.ok.inj hok
      exact (hash_fold _ (.circulator ((s.draw s.catalog.circulators.size).1 + 1))).trans
        (congrArg (hashOf · _) (s.keepsHash_draw _).hash)

/-- The circulating call that is chosen fits into a word, and the wheel stays within words. -/
theorem fits_pickCirculator (h : s.FitsWords) {n : Nat} (hok : s.pickCirculator.1 = .ok n) :
    (ChosenValue.circulator n).Fits ∧ s.pickCirculator.2.FitsWords := by
  have hcount := h.isWithin.circulators
  have hfits : ∀ p : Nat, p < 2 ^ 32 → (ChosenValue.circulator (p + 1)).Fits := fun p hp =>
    ⟨Nat.le_add_left 1 p, hp⟩
  unfold pickCirculator at hok ⊢
  dsimp only at hok ⊢
  split at hok
  · cases hok
  next hzero =>
    rw [if_neg hzero]
    have hpos := Nat.pos_of_ne_zero hzero
    split at hok
    next hscan =>
      rw [if_pos hscan]
      obtain rfl := Except.ok.inj hok
      refine ⟨hfits _ h.circulator, FitsWords.of_keeps ?_ (keeps_fold _ _)⟩
      split
      · exact ⟨h.catalog, Nat.lt_of_lt_of_le (Odometer.turn_lt hpos) (by omega)⟩
      · exact h
    next hscan =>
      rw [if_neg hscan]
      have hdraw := s.draw_lt hpos
      obtain rfl := Except.ok.inj hok
      exact ⟨hfits _ (by omega), h.of_keeps ((s.keeps_draw _).trans (keeps_fold _ _))⟩

/-- The next call is come to before anything is folded. -/
theorem keepsHash_nextIndex (s : Search) : s.KeepsHash s.nextIndex.2 := by
  unfold nextIndex
  split
  · exact ⟨rfl, rfl⟩
  · exact s.keepsHash_draw _

/-- To come to the next call keeps the search within words. -/
theorem fits_nextIndex (h : s.FitsWords) : s.nextIndex.2.FitsWords := by
  unfold nextIndex
  split
  · exact ⟨h.catalog, h.circulator⟩
  · exact h.of_keeps (s.keeps_draw _)

/-- The call that is chosen is the next one, and it is folded and counted. -/
theorem pickCall_eq_ok {i : Nat} (hok : s.pickCall = (.ok i, t)) :
    i = s.nextIndex.1 ∧ i < s.nextIndex.2.catalog.calls.size ∧
      t = (s.nextIndex.2.fold i).countPick := by
  unfold pickCall at hok
  split at hok
  · cases hok
  dsimp only at hok
  split at hok
  · cases hok
  next call hcall =>
    rw [(keeps_fold _ _).catalog] at hcall
    split at hok
    · cases hok
    split at hok
    · cases hok
    obtain ⟨hi, rfl⟩ := Prod.mk.inj hok
    obtain rfl := Except.ok.inj hi
    exact ⟨rfl, (Array.getElem?_eq_some_iff.1 hcall).1, rfl⟩

/-- The call that is chosen is folded. -/
theorem hash_pickCall {i : Nat} (hok : s.pickCall = (.ok i, t)) :
    t.hash = hashOf s.hash [.call i] := by
  obtain ⟨-, -, rfl⟩ := pickCall_eq_ok hok
  exact (hash_fold s.nextIndex.2 (.call i)).trans (congrArg (hashOf · _) s.keepsHash_nextIndex.hash)

/-- The call that is chosen fits into a word, and the search stays within words. -/
theorem fits_pickCall (h : s.FitsWords) {i : Nat} (hok : s.pickCall = (.ok i, t)) :
    (ChosenValue.call i).Fits ∧ t.FitsWords := by
  obtain ⟨-, hlt, rfl⟩ := pickCall_eq_ok hok
  exact ⟨Nat.lt_of_lt_of_le hlt ((fits_nextIndex h).isWithin.calls.trans (by omega)),
    (fits_nextIndex h).of_keeps ((keeps_fold _ _).trans (keeps_count _ _))⟩

/-! ### Filling in blanks -/

/-- A choice is made if what it was made of was. -/
theorem ok_of_map {α β ε : Type} {x : Except ε α} {g : α → β} {b : β} (h : x.map g = .ok b) :
    ∃ a, x = .ok a ∧ g a = b := by
  cases x with
  | error e => cases h
  | ok a => exact ⟨a, rfl, Except.ok.inj h⟩

/-- A tagging call is chosen for a blank if a number stands for it. -/
theorem choose_tagger_eq_ok {iterate : Bool} {cls : Nat} {c : Choice}
    (hok : s.choose iterate (.tagger cls) = (.ok c, t)) : ∃ position, c = .tagger cls position ∧
      (s.comesTo cls).1 = .ok position ∧ t.hash = hashOf s.hash [.tagger position] ∧
        t = (s.pickTagger cls).2 := by
  obtain ⟨hc, rfl⟩ := Prod.mk.inj hok
  cases hpick : (s.pickTagger cls).1 with
  | error e =>
    rw [hpick] at hc
    cases hc
  | ok packed =>
    obtain ⟨position, hcomes, -, hhash⟩ := hash_pickTagger hpick
    rw [hpick, hcomes] at hc
    cases hc
    exact ⟨position, rfl, hcomes, hhash, rfl⟩

/-- **What is chosen for a blank is folded**: its values, which are of the kinds of the blank. -/
theorem hash_choose {iterate : Bool} {b : Blank} {c : Choice}
    (hok : s.choose iterate b = (.ok c, t)) :
    t.hash = hashOf s.hash c.values ∧ c.values.map ChosenValue.kind = b.kinds := by
  cases b with
  | designator =>
    cases hok
    exact ⟨s.hash_pickDesignator iterate, rfl⟩
  | direction =>
    cases hok
    exact ⟨s.hash_pickDirection, rfl⟩
  | numbers count odd =>
    obtain ⟨hc, rfl⟩ := Prod.mk.inj hok
    obtain ⟨packed, hpacked, rfl⟩ := ok_of_map hc
    refine ⟨?_, by
      simp [Choice.values, Blank.kinds, unpackNumbers, Function.comp_def, ChosenValue.kind]⟩
    obtain ⟨ns, rfl, rfl, hcount, hrange, hhash⟩ := hash_pickNumbers hpacked
    rw [unpackNumbers_packNumbers hrange hcount]
    exact hhash
  | tagger cls =>
    obtain ⟨position, rfl, -, hhash, -⟩ := choose_tagger_eq_ok hok
    exact ⟨hhash, rfl⟩
  | circulator =>
    obtain ⟨hc, rfl⟩ := Prod.mk.inj hok
    obtain ⟨n, hn, rfl⟩ := ok_of_map hc
    exact ⟨hash_pickCirculator hn, rfl⟩

/-- What is chosen for a blank fits into words. -/
theorem fits_choose (h : s.FitsWords) {iterate : Bool} {b : Blank} {c : Choice}
    (hok : s.choose iterate b = (.ok c, t)) : (∀ v ∈ c.values, v.Fits) ∧ t.FitsWords := by
  cases b with
  | designator =>
    cases hok
    exact ⟨List.forall_mem_singleton.2 trivial, h.of_keeps (s.keeps_pickDesignator iterate)⟩
  | direction =>
    cases hok
    exact ⟨List.forall_mem_singleton.2 trivial, h.of_keeps s.keeps_pickDirection⟩
  | numbers count odd =>
    obtain ⟨hc, rfl⟩ := Prod.mk.inj hok
    obtain ⟨packed, hpacked, rfl⟩ := ok_of_map hc
    obtain ⟨ns, rfl, rfl, hcount, hrange, -⟩ := hash_pickNumbers hpacked
    rw [unpackNumbers_packNumbers hrange hcount]
    exact ⟨List.forall_mem_map.2 fun n hn => ⟨(hrange n hn).1, (hrange n hn).2.trans (by decide)⟩,
      h.of_keeps (s.keeps_pickNumbers _ odd iterate)⟩
  | tagger cls =>
    obtain ⟨position, rfl, hcomes, -, rfl⟩ := choose_tagger_eq_ok hok
    obtain ⟨-, call, hcall⟩ :=
      chooseTagger_spec (show s.comesTo cls = (.ok position, _) from Prod.ext hcomes rfl)
    have hlt : position < (s.catalog.taggersOf cls).size := (Array.getElem?_eq_some_iff.1 hcall).1
    have hposition : (ChosenValue.tagger position).Fits :=
      Nat.lt_of_lt_of_le hlt ((h.isWithin.taggers cls).trans (by omega))
    exact ⟨List.forall_mem_singleton.2 hposition, h.of_keeps (s.pickTagger_spec cls).1⟩
  | circulator =>
    obtain ⟨hc, rfl⟩ := Prod.mk.inj hok
    obtain ⟨n, hn, rfl⟩ := ok_of_map hc
    exact ⟨List.forall_mem_singleton.2 (fits_pickCirculator h hn).1, (fits_pickCirculator h hn).2⟩

/-- Blanks are filled in one after another, each of them with iteration or without. -/
inductive Fills : Search → List Blank → List Choice → Search → Prop
  | nil (s : Search) : Fills s [] [] s
  | cons {s t u : Search} {b : Blank} {bs : List Blank} {c : Choice} {cs : List Choice}
      (iterate : Bool) (first : s.choose iterate b = (.ok c, t)) (rest : Fills t bs cs u) :
      Fills s (b :: bs) (c :: cs) u

/-- **All values that are chosen for blanks are folded**, in their order. -/
theorem Fills.hash {bs : List Blank} {cs : List Choice} (hfills : s.Fills bs cs t) :
    t.hash = hashOf s.hash (cs.flatMap Choice.values) ∧
      (cs.flatMap Choice.values).map ChosenValue.kind = bs.flatMap Blank.kinds := by
  induction hfills with
  | nil s => exact ⟨rfl, rfl⟩
  | cons iterate first _ ih =>
    obtain ⟨hfirst, hkind⟩ := hash_choose first
    obtain ⟨hrest, hkinds⟩ := ih
    rw [List.flatMap_cons, List.flatMap_cons, List.map_append, hkind, hkinds, hrest, hfirst,
      hashOf_append]
    exact ⟨rfl, rfl⟩

/-- The choices for blanks fit into words, and the search stays within words. -/
theorem Fills.fits {bs : List Blank} {cs : List Choice} (hfills : s.Fills bs cs t)
    (h : s.FitsWords) : (∀ v ∈ cs.flatMap Choice.values, v.Fits) ∧ t.FitsWords := by
  induction hfills with
  | nil s => exact ⟨fun _ hv => absurd hv List.not_mem_nil, h⟩
  | cons iterate first _ ih =>
    obtain ⟨hfirst, hmiddle⟩ := fits_choose h first
    obtain ⟨hrest, hlast⟩ := ih hmiddle
    exact ⟨List.forall_mem_append.2 ⟨hfirst, hrest⟩, hlast⟩

/-- **A blank of a candidate is filled with what is chosen for it.** -/
theorem fill_eq_choose (s : Search) (b : Blank) :
    s.fill b = ((s.choose true b).1.map Choice.filling, (s.choose true b).2) := by
  cases b with
  | designator =>
    rw [fill, choose]
    generalize s.pickDesignator true = p
    obtain ⟨d, t⟩ := p
    rfl
  | direction =>
    rw [fill, choose]
    generalize s.pickDirection = p
    obtain ⟨d, t⟩ := p
    rfl
  | numbers count odd =>
    have hpacked : ∀ packed, (s.pickNumbers count odd true).1 = .ok packed →
        packNumbers 0 (unpackNumbers count packed) = packed := by
      intro packed hok
      obtain ⟨ns, rfl, rfl, hcount, hrange, -⟩ := hash_pickNumbers hok
      rw [unpackNumbers_packNumbers hrange hcount]
    rw [fill, choose]
    revert hpacked
    generalize s.pickNumbers count odd true = p
    obtain ⟨e | packed, t⟩ := p
    · exact fun _ => rfl
    · intro hpacked
      simp only [Except.map, Choice.filling, hpacked packed rfl]
  | tagger cls =>
    have htagger := fun packed (hok : (s.pickTagger cls).1 = .ok packed) => hash_pickTagger hok
    rw [fill, choose]
    revert htagger
    generalize s.pickTagger cls = p
    obtain ⟨e | packed, t⟩ := p
    · exact fun _ => rfl
    · intro htagger
      obtain ⟨position, hcomes, rfl, -⟩ := htagger packed rfl
      simp only [Except.map, Except.bind, Choice.filling, hcomes]
  | circulator =>
    rw [fill, choose]
    generalize s.pickCirculator = p
    obtain ⟨e | n, t⟩ := p <;> rfl

/-- Blanks that are all filled in are filled in one after another. -/
theorem fills_of_fillAll {bs : List Blank} {fillings : List Filling}
    (hall : s.fillAll bs = ((fillings, none), t)) :
    ∃ cs, s.Fills bs cs t ∧ fillings = cs.map Choice.filling := by
  induction bs generalizing s fillings with
  | nil =>
    cases hall
    exact ⟨[], .nil _, rfl⟩
  | cons b bs ih =>
    rw [fillAll, fill_eq_choose] at hall
    rcases hfirst : s.choose true b with ⟨e | c, u⟩
    · rw [hfirst] at hall
      cases hall
    · rw [hfirst] at hall
      rcases hrest : u.fillAll bs with ⟨⟨more, failure⟩, v⟩
      rw [show Except.map Choice.filling (Except.ok c : Except PickError Choice)
        = .ok c.filling from rfl] at hall
      simp only [hrest, Prod.mk.injEq] at hall
      obtain ⟨⟨rfl, rfl⟩, rfl⟩ := hall
      obtain ⟨cs, hfills, rfl⟩ := ih hrest
      exact ⟨c :: cs, .cons true hfirst hfills, rfl⟩

end Search

/-! ### Candidates -/

/-- The values of a call and of the choices for blanks. -/
def Combination.values (c : Combination) : List ChosenValue :=
  .call c.call :: c.choices.flatMap Choice.values

/-- A call is chosen, and some blanks are filled in. -/
def Search.Composes (s : Search) (bs : List Blank) (c : Combination) (t : Search) : Prop :=
  ∃ picked, s.pickCall = (.ok c.call, picked) ∧ picked.Fills bs c.choices t

/-- Lists differ in one place and nowhere else. -/
def DifferOnce {α : Type} (xs ys : List α) : Prop :=
  ∃ pre x y post, xs = pre ++ x :: post ∧ ys = pre ++ y :: post ∧ x ≠ y

namespace Search

variable {s s' t t' : Search} {bs : List Blank} {c c' : Combination}

/-- **All values of a candidate are folded**, that of its call and those for its blanks. -/
theorem Composes.hash (hmade : s.Composes bs c t) : t.hash = hashOf s.hash c.values ∧
    c.values.map ChosenValue.kind = .call :: bs.flatMap Blank.kinds := by
  obtain ⟨picked, hcall, hfills⟩ := hmade
  obtain ⟨hfilled, hkinds⟩ := hfills.hash
  refine ⟨?_, congrArg (List.cons _) hkinds⟩
  rw [hfilled, hash_pickCall hcall, ← hashOf_append]
  rfl

/-- A call and the choices for its blanks fit into words, and they are all that is folded. -/
theorem Composes.chooses (hmade : s.Composes bs c t) (h : s.FitsWords) :
    s.Chooses c.values t := by
  have hhash := hmade.hash.1
  obtain ⟨picked, hcall, hfills⟩ := hmade
  obtain ⟨hcallFits, hpicked⟩ := fits_pickCall h hcall
  obtain ⟨hfits, hlast⟩ := hfills.fits hpicked
  exact ⟨hhash, List.forall_mem_cons.2 ⟨hcallFits, hfits⟩, hlast⟩

/-- **A candidate that is not given up is composed** of a call and of choices for its blanks, after
its concept. -/
theorem composes_nextCandidate (hfailure : s.nextCandidate.1.failure = none) :
    ∃ bs c, (s.pickConcept false).2.Composes bs c s.nextCandidate.2 ∧
      s.nextCandidate.1 = c.candidate (s.pickConcept false).1 := by
  unfold nextCandidate at hfailure ⊢
  generalize s.pickConcept false = p at hfailure ⊢
  obtain ⟨concept, u⟩ := p
  dsimp only at hfailure ⊢
  rcases hcall : u.pickCall with ⟨e | i, v⟩
  · rw [hcall] at hfailure
    cases hfailure
  · rw [hcall] at hfailure
    dsimp only at hfailure ⊢
    generalize (v.catalog.calls[i]?.map (·.blanks)).getD [] = bs at hfailure ⊢
    rcases hall : v.fillAll bs with ⟨⟨fillings, failure⟩, w⟩
    rw [hall] at hfailure
    obtain rfl : failure = none := hfailure
    obtain ⟨cs, hfills, rfl⟩ := fills_of_fillAll hall
    exact ⟨bs, ⟨i, cs⟩, ⟨v, hcall, hfills⟩, rfl⟩

/-- Values of the same kinds that differ once have different hashes. -/
theorem hashOf_ne_of_differOnce {h : UInt32} {vs ws : List ChosenValue} (hvs : ∀ v ∈ vs, v.Fits)
    (hws : ∀ v ∈ ws, v.Fits) (hkinds : vs.map ChosenValue.kind = ws.map ChosenValue.kind)
    (hdiffer : DifferOnce vs ws) : hashOf h vs ≠ hashOf h ws := by
  obtain ⟨pre, v, w, post, rfl, rfl, hne⟩ := hdiffer
  rw [List.map_append, List.map_append, List.append_cancel_left_eq, List.map_cons, List.map_cons,
    List.cons.injEq] at hkinds
  exact hashOf_ne (hvs v (by simp)) (hws w (by simp)) hkinds.1 hne

/-- **The hash tells the choices of a call and its blanks.**  It is made of the hash before and of
the values that were chosen, in whatever stage, from whatever wheels and draws.  Two candidates
for the same blanks that were made from the same hash and differ in one value have
different hashes. -/
theorem hash_tells_choices (hs : s.FitsWords) (hs' : s'.FitsWords) (hhash : s'.hash = s.hash)
    (hmade : s.Composes bs c t) (hmade' : s'.Composes bs c' t') :
    t.hash = hashOf s.hash c.values ∧ (DifferOnce c.values c'.values → t'.hash ≠ t.hash) := by
  obtain ⟨hchosen, hkinds⟩ := hmade.hash
  obtain ⟨hchosen', hkinds'⟩ := hmade'.hash
  refine ⟨hchosen, fun hdiffer => ?_⟩
  rw [hchosen, hchosen', hhash]
  exact (hashOf_ne_of_differOnce (hmade.chooses hs).fits (hmade'.chooses hs').fits
    (hkinds.trans hkinds'.symm) hdiffer).symm

/-- A call that needs people and a direction. -/
def walkCalls : List CatalogCall := [.make "@6 walk @h" .mainstream 0]

/-- The catalog of that call. -/
def walkCatalog : Catalog := .ofCalls walkCalls

/-- A scan of the catalog. -/
def scannedWalk : Search := { catalog := walkCatalog, stage := .plainNice, hash := 7 }

/-- A random search of the catalog, from the same hash. -/
def drawnWalk : Search :=
  { catalog := walkCatalog, stage := .random, draws := [4, 1, 1], hash := 7 }

/-- The search after a call, people and a direction were chosen. -/
def afterWalk (s : Search) : Search :=
  ((s.pickCall.2.choose true .designator).2.choose true .direction).2

/-- The call with people and a direction. -/
def walk (d : Designator) (e : CallDirection) : Combination :=
  { call := 0, choices := [.designator d, .direction e] }

/-- The call is composed of what is chosen for it, one after another. -/
theorem composes_walk {d : Designator} {e : CallDirection} (hcall : s.pickCall.1 = .ok 0)
    (hpeople : (s.pickCall.2.choose true .designator).1 = .ok (.designator d))
    (hdirection : ((s.pickCall.2.choose true .designator).2.choose true .direction).1
      = .ok (.direction e)) : s.Composes [.designator, .direction] (walk d e) s.afterWalk :=
  ⟨_, Prod.ext hcall rfl,
    .cons true (Prod.ext hpeople rfl) (.cons true (Prod.ext hdirection rfl) (.nil _))⟩

/-- A scan for boys and a random search for girls, from one hash. -/
theorem hash_tells_choices_walk :
    scannedWalk.Composes [.designator, .direction] (walk .boys .left) scannedWalk.afterWalk ∧
      drawnWalk.Composes [.designator, .direction] (walk .girls .left) drawnWalk.afterWalk ∧
      scannedWalk.afterWalk.hash = hashOf 7 (walk .boys .left).values ∧
      drawnWalk.afterWalk.hash ≠ scannedWalk.afterWalk.hash := by
  have hcatalog : ∃ calls, walkCatalog.IsOf calls ∧ calls.length < 2 ^ 32 :=
    ⟨walkCalls, ⟨[], [], by decide +kernel⟩, by decide⟩
  have hscanned : scannedWalk.Composes [.designator, .direction] (walk .boys .left)
      scannedWalk.afterWalk :=
    composes_walk (by decide +kernel) (by decide +kernel) (by decide +kernel)
  have hdrawn : drawnWalk.Composes [.designator, .direction] (walk .girls .left)
      drawnWalk.afterWalk :=
    composes_walk (by decide +kernel) (by decide +kernel) (by decide +kernel)
  have hdiffer : DifferOnce (walk .boys .left).values (walk .girls .left).values :=
    ⟨[.call 0], .designator .boys, .designator .girls, [.direction .left], rfl, rfl, by decide⟩
  have hbefore : drawnWalk.hash = scannedWalk.hash := rfl
  obtain ⟨hhash, hne⟩ :=
    hash_tells_choices ⟨hcatalog, by decide⟩ ⟨hcatalog, by decide⟩ hbefore hscanned hdrawn
  exact ⟨hscanned, hdrawn, hhash, hne hdiffer⟩

end Search
end SquareDance
