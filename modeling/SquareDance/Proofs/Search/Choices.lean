/-
# Single choices

Whatever the odometer was left at, a choice is within what there is to choose from: the wheels
of designators, directions and numbers are reduced when they are read, and that of tagging
calls is looked for from where it is.  Besides the hash, the draws and the statistics a choice
changes the wheel of its own blank only (`Search.Keeps`).

Numbers are packed with six bits each, which do not overlap (`Search.packsNumbers`).
-/

import Mathlib.Data.Nat.Digits.Lemmas
import SquareDance.Proofs.Search.Filling

namespace SquareDance

/-- The number at a place, six bits of packed numbers. -/
def packedNumber (packed : UInt32) (place : Nat) : Nat := packed.toNat / 64 ^ place % 64

/-- Numbers from 1 to 4 for the first places and nothing else. -/
def PacksNumbers (count : Nat) (packed : UInt32) : Prop :=
  packed.toNat < 64 ^ count ∧
    ∀ place < count, 1 ≤ packedNumber packed place ∧ packedNumber packed place ≤ 4

/-- A number stands for a tagging call of a class that is not barred from resolving.  While the
position, counted from 1, fits into five bits, it is read back from them, and the class from
those above. -/
def Catalog.NamesTagger (c : Catalog) (cls : Nat) (packed : UInt32) : Prop :=
  ∃ position call, (c.taggersOf cls)[position]? = some call ∧
    call.flags1 &&& CallFlags.notInResolve = 0 ∧
      packed = UInt32.ofNat cls <<< 5 ||| UInt32.ofNat (position + 1) ∧
        (position + 1 < 32 → packed.toNat / 32 = cls ∧ packed.toNat % 32 = position + 1)

namespace Search

variable {s t : Search}

/-- A search differs from another only in what is not held to anything: the draws, the hash,
the statistics and the wheels of other blanks than circulating calls. -/
structure Keeps (s t : Search) : Prop where
  catalog : t.catalog = s.catalog
  stage : t.stage = s.stage
  cursor : t.cursor = s.cursor
  conceptScan : t.conceptScan = s.conceptScan
  circulator : t.odometer.circulator = s.odometer.circulator

/-- What two steps keep is kept by both together. -/
theorem Keeps.trans {u : Search} (h : s.Keeps t) (h' : t.Keeps u) : s.Keeps u :=
  ⟨h'.catalog.trans h.catalog, h'.stage.trans h.stage, h'.cursor.trans h.cursor,
    h'.conceptScan.trans h.conceptScan, h'.circulator.trans h.circulator⟩

/-- A draw changes what is left to draw only. -/
theorem keeps_draw (s : Search) (modulus : Nat) : s.Keeps (s.draw modulus).2 := by
  unfold draw
  split <;> exact ⟨rfl, rfl, rfl, rfl, rfl⟩

/-- To fold something in changes the hash only. -/
theorem keeps_fold (s : Search) (n : Nat) : s.Keeps (s.fold n) := by
  unfold fold
  exact ⟨rfl, rfl, rfl, rfl, rfl⟩

/-- To count something changes the statistics only. -/
theorem keeps_count (s : Search) (f : SearchStatistics → SearchStatistics) :
    s.Keeps (s.count f) := by
  unfold count
  exact ⟨rfl, rfl, rfl, rfl, rfl⟩

/-- Reading the wheel of another blank does not turn that of circulating calls. -/
theorem keeps_turnAt (s : Search) {k : Scan} {b : Blank} (hb : b ≠ .circulator) (hash : UInt32) :
    s.Keeps (s.moved (s.odometer.turnAt k b) hash) := by
  refine ⟨rfl, rfl, rfl, rfl, ?_⟩
  change (s.odometer.turnAt k b).circulator = s.odometer.circulator
  unfold Odometer.turnAt
  split
  · cases b <;> first | rfl | exact absurd rfl hb
  · rfl

/-! ### Designators -/

/-- A wheel shows designators that may be chosen, also where it has none to show. -/
theorem scannedDesignator_mem (position : Nat) :
    scannedDesignators[position]?.getD .centers ∈ Designator.resolveEligible := by
  have hall : ∀ d ∈ scannedDesignators, d ∈ Designator.resolveEligible := by decide
  cases hd : scannedDesignators[position]? with
  | none => exact hall .centers (by decide)
  | some d => exact hall d (List.mem_of_getElem? hd)

/-- A designator that is drawn is among those that may be chosen. -/
theorem drawnDesignator_mem {i : Nat} (h : i < Designator.resolveEligible.length) :
    (Designator.ofIndex? i).getD .centers ∈ Designator.resolveEligible := by
  rw [Designator.ofIndex?, Designator.list, List.getElem?_append_left h,
    List.getElem?_eq_getElem h]
  exact List.getElem_mem h

/-- **The people chosen** are fit for resolving. -/
theorem pickDesignator_mem (s : Search) (iterate : Bool) :
    (s.pickDesignator iterate).1 ∈ Designator.resolveEligible := by
  unfold pickDesignator
  by_cases hscan : s.stage.isScan = true
  · rw [if_pos hscan]
    cases iterate with
    | true => exact scannedDesignator_mem _
    | false => exact scannedDesignator_mem 2
  · rw [if_neg hscan]
    exact drawnDesignator_mem (s.draw_lt (by decide))

/-- To choose people keeps the search. -/
theorem keeps_pickDesignator (s : Search) (iterate : Bool) :
    s.Keeps (s.pickDesignator iterate).2 := by
  unfold pickDesignator
  by_cases hscan : s.stage.isScan = true
  · rw [if_pos hscan]
    cases iterate with
    | true =>
      rw [scanDesignator_eq]
      exact (s.keeps_turnAt (by decide) _).trans (keeps_fold _ _)
    | false => exact keeps_fold _ _
  · rw [if_neg hscan]
    exact (s.keeps_draw _).trans (keeps_fold _ _)

/-! ### Directions -/

/-- A wheel shows directions that there are at the level, also where it has none to show. -/
theorem scannedDirection_mem (position : Nat) (l : Level) :
    scannedDirections[position]?.getD .noDirection ∈
      CallDirection.all.take (CallDirection.availableAt l) := by
  have hall : ∀ d ∈ scannedDirections,
      d ∈ CallDirection.all.take (CallDirection.availableAt l) := by
    cases l <;> decide
  cases hd : scannedDirections[position]? with
  | none => cases l <;> decide
  | some d => exact hall d (List.mem_of_getElem? hd)

/-- A direction that is drawn is among those at the level. -/
theorem drawnDirection_mem {i : Nat} {l : Level} (h : i < CallDirection.availableAt l) :
    (CallDirection.ofIndex? i).getD .noDirection ∈
      CallDirection.all.take (CallDirection.availableAt l) := by
  have hlt : i < CallDirection.all.length :=
    Nat.lt_of_lt_of_le h (CallDirection.availableAt_le l)
  rw [CallDirection.ofIndex?, List.getElem?_eq_getElem hlt]
  exact List.mem_take_iff_getElem.2 ⟨i, Nat.lt_min.2 ⟨h, hlt⟩, rfl⟩

/-- **The direction chosen** may be used at the level being called. -/
theorem pickDirection_mem (s : Search) : s.pickDirection.1 ∈
    CallDirection.all.take (CallDirection.availableAt s.options.callingLevel) := by
  unfold pickDirection
  by_cases hscan : s.stage.isScan = true
  · rw [if_pos hscan]
    exact scannedDirection_mem _ _
  · rw [if_neg hscan]
    exact drawnDirection_mem (s.draw_lt (CallDirection.availableAt_pos _))

/-- To choose a direction keeps the search. -/
theorem keeps_pickDirection (s : Search) : s.Keeps s.pickDirection.2 := by
  unfold pickDirection
  by_cases hscan : s.stage.isScan = true
  · rw [if_pos hscan, scanDirection_eq]
    exact (s.keeps_turnAt (by decide) _).trans (keeps_fold _ _)
  · rw [if_neg hscan]
    exact (s.keeps_draw _).trans (keeps_fold _ _)

/-! ### Numbers -/

/-- A number is shifted to its place. -/
theorem shiftLeft_toNat {n place : Nat} (hn : n < 64) (hplace : place < maxNumbers) :
    (UInt32.ofNat n <<< UInt32.ofNat (6 * place)).toNat = n * 64 ^ place := by
  have hle : 6 * place ≤ 24 := by
    unfold maxNumbers at hplace
    omega
  have hpow : 2 ^ (6 * place) ≤ 2 ^ 24 := Nat.pow_le_pow_right (by decide) hle
  have hlt : n * 2 ^ (6 * place) < 64 * 2 ^ 24 :=
    Nat.lt_of_lt_of_le (Nat.mul_lt_mul_of_pos_right hn (Nat.two_pow_pos _))
      (Nat.mul_le_mul_left 64 hpow)
  rw [UInt32.toNat_shiftLeft, UInt32.toNat_ofNat_of_lt' (by change n < 2 ^ 32; omega),
    UInt32.toNat_ofNat_of_lt' (by change 6 * place < 2 ^ 32; omega),
    Nat.mod_eq_of_lt (a := 6 * place) (by omega), Nat.shiftLeft_eq, Nat.mod_eq_of_lt (by omega),
    Nat.pow_mul]

/-- Numbers that fit into six bits are packed without overlap. -/
theorem packNumbers_toNat {ns : List Nat} {place : Nat} (hns : ∀ n ∈ ns, n < 64)
    (hplace : place + ns.length ≤ maxNumbers) :
    (packNumbers place ns).toNat = Nat.ofDigits 64 ns * 64 ^ place := by
  induction ns generalizing place with
  | nil => simp [packNumbers]
  | cons n ns ih =>
    rw [List.length_cons] at hplace
    have hn : n < 64 := hns n List.mem_cons_self
    have hrest : (packNumbers (place + 1) ns).toNat = Nat.ofDigits 64 ns * 64 ^ (place + 1) :=
      ih (fun m hm => hns m (List.mem_cons_of_mem _ hm)) (by omega)
    have hbelow : n * 64 ^ place < 64 ^ (place + 1) := by
      rw [Nat.pow_succ, Nat.mul_comm (64 ^ place)]
      exact Nat.mul_lt_mul_of_pos_right hn (Nat.pow_pos (by decide))
    have hbase : 64 ^ (place + 1) = 2 ^ (6 * (place + 1)) := by rw [Nat.pow_mul]
    rw [packNumbers, UInt32.toNat_or, hrest, shiftLeft_toNat hn (by omega), Nat.or_comm,
      mul_or_eq_add _ _ hbase hbelow, Nat.ofDigits_cons]
    ring

/-- **Each number has six bits of its own**, and is read back from them. -/
theorem packedNumber_packNumbers {ns : List Nat} (hns : ∀ n ∈ ns, 1 ≤ n ∧ n ≤ 4)
    (hlength : ns.length ≤ maxNumbers) {place : Nat} (hplace : place < ns.length) :
    packedNumber (packNumbers 0 ns) place = ns[place] := by
  have hlt : ∀ n ∈ ns, n < 64 := fun n hn => Nat.lt_of_le_of_lt (hns n hn).2 (by decide)
  have hdigits : Nat.digits 64 (Nat.ofDigits 64 ns) = ns := by
    refine Nat.digits_ofDigits 64 (by decide) ns hlt fun hne => ?_
    have hlast := hns _ (List.getLast_mem hne)
    omega
  rw [packedNumber, packNumbers_toNat hlt (by omega), Nat.pow_zero, Nat.mul_one,
    ← Nat.getD_digits _ _ (by decide), hdigits, List.getD_eq_getElem?_getD,
    List.getElem?_eq_getElem hplace, Option.getD_some]

/-- Numbers from 1 to 4 that fit into a word are packed in it, each in its place. -/
theorem packsNumbers {ns : List Nat} (hns : ∀ n ∈ ns, 1 ≤ n ∧ n ≤ 4)
    (hlength : ns.length ≤ maxNumbers) : PacksNumbers ns.length (packNumbers 0 ns) := by
  have hlt : ∀ n ∈ ns, n < 64 := fun n hn => Nat.lt_of_le_of_lt (hns n hn).2 (by decide)
  have hpacked : (packNumbers 0 ns).toNat = Nat.ofDigits 64 ns := by
    rw [packNumbers_toNat hlt (by omega), Nat.pow_zero, Nat.mul_one]
  refine ⟨hpacked ▸ Nat.ofDigits_lt_base_pow_length (by decide) hlt, fun place hplace => ?_⟩
  rw [packedNumber_packNumbers hns hlength hplace]
  exact hns _ (List.getElem_mem hplace)

/-- A choice for a place is from 1 to 4. -/
theorem pickNumber_spec (s : Search) (scanning odd : Bool) (place : Nat) :
    1 ≤ (s.pickNumber scanning odd place).1 ∧ (s.pickNumber scanning odd place).1 ≤ 4 ∧
      s.Keeps (s.pickNumber scanning odd place).2 := by
  unfold pickNumber
  cases scanning with
  | true =>
    have hand : ((s.odometer.number >>> UInt32.ofNat (2 * place)) &&& 3).toNat < 4 := by
      rw [UInt32.toNat_and]
      exact Nat.lt_succ_of_le Nat.and_le_right
    refine ⟨?_, ?_, keeps_fold _ _⟩
    · exact Nat.le_add_left 1 _
    · exact Nat.succ_le_of_lt hand
  | false =>
    cases odd with
    | true =>
      have hlt : (s.draw 2).1 < 2 := s.draw_lt (by decide)
      refine ⟨?_, ?_, (s.keeps_draw 2).trans (keeps_fold _ _)⟩
      · change 1 ≤ 2 * (s.draw 2).1 + 1
        omega
      · change 2 * (s.draw 2).1 + 1 ≤ 4
        omega
    | false =>
      have hlt : (s.draw 4).1 < 4 := s.draw_lt (by decide)
      refine ⟨?_, ?_, (s.keeps_draw 4).trans (keeps_fold _ _)⟩
      · change 1 ≤ (s.draw 4).1 + 1
        omega
      · change (s.draw 4).1 + 1 ≤ 4
        omega

/-- Numbers are chosen place by place. -/
theorem pickNumbersFrom_step (s : Search) (scanning odd : Bool) (place count : Nat) :
    s.pickNumbersFrom scanning odd place (count + 1) =
      (let p := s.pickNumber scanning odd place
        let q := p.2.pickNumbersFrom scanning odd (place + 1) count
        (UInt32.ofNat p.1 <<< UInt32.ofNat (6 * place) ||| q.1, q.2)) := by
  -- the choice is opened first: otherwise it is the hashes that are compared, as products
  obtain ⟨_, _, draws, _, _, _, _, _, _, _, _⟩ := s
  cases scanning <;> cases odd <;> cases draws <;> rfl

/-- Numbers for some places are packed. -/
theorem pickNumbersFrom_spec (s : Search) (scanning odd : Bool) (place count : Nat) :
    ∃ ns t, s.pickNumbersFrom scanning odd place count = (packNumbers place ns, t) ∧
      ns.length = count ∧ (∀ n ∈ ns, 1 ≤ n ∧ n ≤ 4) ∧ s.Keeps t := by
  induction count generalizing s place with
  | zero => exact ⟨[], s, rfl, rfl, fun n hn => absurd hn List.not_mem_nil, rfl, rfl, rfl, rfl, rfl⟩
  | succ count ih =>
    obtain ⟨hone, hfour, hkeeps⟩ := s.pickNumber_spec scanning odd place
    obtain ⟨ns, t, hns, hlength, hrange, ht⟩ :=
      ih (s.pickNumber scanning odd place).2 (place + 1)
    refine ⟨(s.pickNumber scanning odd place).1 :: ns, t, ?_, by rw [List.length_cons, hlength],
      List.forall_mem_cons.2 ⟨⟨hone, hfour⟩, hrange⟩, hkeeps.trans ht⟩
    rw [pickNumbersFrom_step]
    dsimp only
    rw [hns, packNumbers]

/-- **The numbers chosen** are from 1 to 4. -/
theorem pickNumbers_packs {count : Nat} {odd iterate : Bool} {packed : UInt32}
    (h : (s.pickNumbers count odd iterate).1 = .ok packed) : PacksNumbers count packed := by
  unfold pickNumbers at h
  split at h
  · cases h
  · rename_i hcount
    obtain ⟨ns, t, hns, rfl, hrange, -⟩ :=
      s.pickNumbersFrom_spec (iterate && s.stage.isScan) odd 0 count
    simp only [hns, Except.ok.injEq] at h
    subst h
    exact packsNumbers hrange (Nat.le_of_not_lt hcount)

/-- To choose numbers keeps the search, also if there are too many of them. -/
theorem keeps_pickNumbers (s : Search) (count : Nat) (odd iterate : Bool) :
    s.Keeps (s.pickNumbers count odd iterate).2 := by
  unfold pickNumbers
  split
  · exact ⟨rfl, rfl, rfl, rfl, rfl⟩
  · obtain ⟨ns, t, hns, -, -, ht⟩ :=
      s.pickNumbersFrom_spec (iterate && s.stage.isScan) odd 0 count
    simp only [hns]
    split
    · refine ht.trans ?_
      exact ⟨rfl, rfl, rfl, rfl, rfl⟩
    · exact ht

/-! ### Tagging calls -/

/-- What is read off the wheel, wherever that is, or drawn is a position in the class. -/
theorem chooseTagger_spec {cls position : Nat}
    (h : (if s.stage.isScan = true then s.scanTagger cls else s.drawTagger cls)
      = (.ok position, t)) :
    s.Keeps t ∧ ∃ call, (s.catalog.taggersOf cls)[position]? = some call := by
  by_cases hscan : s.stage.isScan = true
  · rw [if_pos hscan] at h
    cases hnext : nextScannable? (s.catalog.taggersOf cls) s.odometer.tagger with
    | none =>
      rw [scanTagger, hnext] at h
      cases h
    | some position' =>
      rw [scanTagger_eq hnext] at h
      cases h
      have hmem : position ∈ scannableFrom (s.catalog.taggersOf cls) s.odometer.tagger := by
        rw [nextScannable?_eq] at hnext
        exact List.mem_of_mem_head? hnext
      obtain ⟨-, call, hcall, -⟩ := mem_scannableFrom.1 hmem
      exact ⟨s.keeps_turnAt (by simp) _, call, hcall⟩
  · rw [if_neg hscan, drawTagger] at h
    split at h
    · cases h
    · rename_i hne
      have hpos : 0 < (s.catalog.taggersOf cls).size :=
        Array.size_pos_iff.2 (mt Array.isEmpty_iff.2 hne)
      have hlt := s.draw_lt hpos
      cases h
      exact ⟨s.keeps_draw _, _, Array.getElem?_eq_getElem hlt⟩

/-- The class stands above five bits for the position. -/
theorem taggerNumber_toNat {cls n : Nat} (hcls : cls < 4) (hn : n < 32) :
    (UInt32.ofNat cls <<< 5 ||| UInt32.ofNat n).toNat = cls * 32 + n := by
  have hfive : (5 : UInt32).toNat % 32 = 5 := by decide
  rw [UInt32.toNat_or, UInt32.toNat_shiftLeft,
    UInt32.toNat_ofNat_of_lt' (by change cls < 2 ^ 32; omega),
    UInt32.toNat_ofNat_of_lt' (by change n < 2 ^ 32; omega), hfive, Nat.shiftLeft_eq,
    Nat.mod_eq_of_lt (by omega), mul_or_eq_add cls 5 rfl hn]
  rfl

/-- A class that has a tagging call is one of the four. -/
theorem class_lt_of_getElem? {c : Catalog} {cls position : Nat} {call : CatalogCall}
    (h : (c.taggersOf cls)[position]? = some call) : cls < 4 := by
  by_contra hle
  rw [Catalog.taggersOf, Vector.getElem?_eq_none (by omega)] at h
  cases h

/-- The class and the position of a tagging call that is not barred stand for it. -/
theorem namesTagger {c : Catalog} {cls position : Nat} {call : CatalogCall}
    (hcall : (c.taggersOf cls)[position]? = some call)
    (hbarred : call.flags1 &&& CallFlags.notInResolve = 0) :
    c.NamesTagger cls (UInt32.ofNat cls <<< 5 ||| UInt32.ofNat (position + 1)) := by
  refine ⟨position, call, hcall, hbarred, rfl, fun hposition => ?_⟩
  rw [taggerNumber_toNat (class_lt_of_getElem? hcall) hposition]
  omega

/-- **Choosing a tagging call** keeps the search, and gives one of the class that is not
barred. -/
theorem pickTagger_spec (s : Search) (cls : Nat) : s.Keeps (s.pickTagger cls).2 ∧
    ∀ packed, (s.pickTagger cls).1 = .ok packed → s.catalog.NamesTagger cls packed := by
  unfold pickTagger
  split
  · rename_i e t hchoose
    refine ⟨?_, fun packed h => by cases h⟩
    by_cases hscan : s.stage.isScan = true
    · rw [if_pos hscan, scanTagger] at hchoose
      split at hchoose <;> cases hchoose
      exact ⟨rfl, rfl, rfl, rfl, rfl⟩
    · rw [if_neg hscan, drawTagger] at hchoose
      split at hchoose <;> cases hchoose
      exact ⟨rfl, rfl, rfl, rfl, rfl⟩
  · rename_i position t hchoose
    obtain ⟨ht, call, hcall⟩ := chooseTagger_spec hchoose
    have hfold := ht.trans (keeps_fold t position)
    have hcall' : ((t.fold position).catalog.taggersOf cls)[position]? = some call := by
      rw [hfold.catalog]
      exact hcall
    simp only [hcall', Option.any_some]
    split
    · refine ⟨?_, fun packed h => by cases h⟩
      dsimp only [countFlagReject]
      exact hfold.trans (keeps_count _ _)
    · rename_i hbarred
      refine ⟨hfold, fun packed h => ?_⟩
      cases h
      exact namesTagger hcall (by simpa using hbarred)

end Search
end SquareDance
