/-
# The wheel of each blank

Each blank that can be filled in has a wheel, which comes back to zero after some
positions and shows another choice at each of them: `Scan.isCycle_positions` and
`Scan.map_choiceAt`.  Two wheels do not show what they stand at.  A wheel of
tagging calls at zero shows the first one that a scan may use, wherever that is.  A wheel
of numbers stands at all of them together, with two bits for each.
-/

import Mathlib.Algebra.Ring.Nat
import SquareDance.Proofs.Search.Combinations
import SquareDance.Proofs.Search.Cycle

namespace SquareDance

/-! ### Tagging calls -/

/-- The positions of the tagging calls that a scan may use, from a given one on. -/
def scannableFrom (taggers : Array CatalogCall) (i : Nat) : List Nat :=
  (List.range' i (taggers.size - i)).filter fun j => taggers[j]?.any (·.isScannableTagger)

section Scannable

variable {taggers : Array CatalogCall} {i j : Nat} {l : List Nat}

/-- The tagging call at a position comes first if a scan may use it. -/
theorem scannableFrom_of_lt (h : i < taggers.size) : scannableFrom taggers i =
    if taggers[i].isScannableTagger then i :: scannableFrom taggers (i + 1)
    else scannableFrom taggers (i + 1) := by
  unfold scannableFrom
  rw [show taggers.size - i = taggers.size - (i + 1) + 1 by omega, List.range'_succ,
    List.filter_cons, Array.getElem?_eq_getElem h]
  rfl

/-- There are no tagging calls behind the last one. -/
theorem scannableFrom_of_le (h : taggers.size ≤ i) : scannableFrom taggers i = [] := by
  unfold scannableFrom
  rw [Nat.sub_eq_zero_of_le h]
  rfl

/-- The positions are those of the tagging calls from there on that a scan may use. -/
theorem mem_scannableFrom : j ∈ scannableFrom taggers i ↔
    i ≤ j ∧ ∃ call, taggers[j]? = some call ∧ call.isScannableTagger = true := by
  unfold scannableFrom
  rw [List.mem_filter, List.mem_range'_1, Option.any_eq_true]
  constructor
  · rintro ⟨⟨hi, -⟩, h⟩
    exact ⟨hi, h⟩
  · rintro ⟨hi, call, hcall, h⟩
    obtain ⟨hlt, -⟩ := Array.getElem?_eq_some_iff.1 hcall
    exact ⟨⟨hi, by omega⟩, call, hcall, h⟩

/-- What a scan looks for is the first of those positions. -/
theorem nextScannable?_eq (taggers : Array CatalogCall) (i : Nat) :
    Search.nextScannable? taggers i = (scannableFrom taggers i).head? := by
  induction hn : taggers.size - i generalizing i with
  | zero =>
    rw [scannableFrom_of_le (by omega), Search.nextScannable?, List.drop_eq_nil_of_le]
    · rfl
    · rw [Array.length_toList]
      omega
  | succ n ih =>
    have hlt : i < taggers.size := by omega
    have hdrop : taggers.toList.drop i = taggers[i] :: taggers.toList.drop (i + 1) :=
      List.drop_eq_getElem_cons (by rwa [Array.length_toList])
    rw [scannableFrom_of_lt hlt, Search.nextScannable?, hdrop, List.findIdx?_cons]
    split
    · rfl
    · rw [← ih (i + 1) (by omega), Search.nextScannable?, Option.map_map]
      congr 1
      funext k
      exact Nat.add_right_comm i k 1 ▸ (Nat.add_assoc i k 1).symm

/-- After the first of the positions the others begin just behind it. -/
theorem scannableFrom_of_cons (h : scannableFrom taggers i = j :: l) :
    scannableFrom taggers j = j :: l ∧ scannableFrom taggers (j + 1) = l := by
  induction hn : taggers.size - i generalizing i with
  | zero =>
    rw [scannableFrom_of_le (by omega)] at h
    cases h
  | succ n ih =>
    have hlt : i < taggers.size := by omega
    have h' := h
    rw [scannableFrom_of_lt hlt] at h'
    split at h'
    · cases h'
      exact ⟨h, rfl⟩
    · exact ih h' (by omega)

end Scannable

/-! ### Numbers -/

/-- The position after a given one of a wheel of numbers. -/
def turnedNumbers (count : Nat) (odd : Bool) (p : Nat) : Nat :=
  (Search.turnNumbers (UInt32.ofNat p) count odd).toNat

/-- The positions of a wheel of numbers.  Odd numbers have no low bits; three or more are
not gone through. -/
def numberPositions (count : Nat) (odd : Bool) : List Nat :=
  if 2 < count then [0]
  else (List.range (4 ^ count)).filter fun p => !odd || p &&& OddNumbers.lowBits == 0

/-- The numbers that a wheel shows at a position. -/
def numbersAt (count p : Nat) : List Nat :=
  (List.range count).map (Search.numberOn (UInt32.ofNat p))

/-- A wheel of numbers comes back to zero after all of its positions. -/
theorem isCycle_numbers (count : Nat) (odd : Bool) :
    IsCycle (turnedNumbers count odd) 0 (numberPositions count odd) := by
  by_cases hcount : 2 < count
  · have hturn : turnedNumbers count odd 0 = 0 := by
      simp only [turnedNumbers, Search.turnNumbers]
      rw [if_pos (.inl hcount)]
      rfl
    have hpositions : numberPositions count odd = [0] := if_pos hcount
    rw [hpositions]
    exact ⟨⟨rfl, hturn⟩, by simp, by simp⟩
  · -- One or two numbers have few positions, which can be gone through.
    have hcases : count = 0 ∨ count = 1 ∨ count = 2 := by omega
    rcases hcases with rfl | rfl | rfl <;> cases odd <;>
      exact ⟨by decide +kernel, by decide +kernel, by decide +kernel⟩

/-- The positions of a wheel show all rows of numbers that are offered, each once and in their
order. -/
theorem map_numbersAt {count : Nat} (h : count ≤ maxNumbers) (odd : Bool) :
    (numberPositions count odd).map (numbersAt count)
      = (List.replicate count (offeredNumbers count odd)).sections := by
  have hcases : count = 0 ∨ count = 1 ∨ count = 2 ∨ count = 3 ∨ count = 4 ∨ count = 5 := by
    unfold maxNumbers at h
    omega
  rcases hcases with rfl | rfl | rfl | rfl | rfl | rfl <;> cases odd <;> decide +kernel

/-- Choices from the same list, one for each place. -/
theorem forall₂_mem_replicate {ns : List Nat} {count : Nat} {offered : List Nat} :
    List.Forall₂ (· ∈ ·) ns (List.replicate count offered)
      ↔ ns.length = count ∧ ∀ n ∈ ns, n ∈ offered := by
  induction ns generalizing count with
  | nil => cases count <;> simp [List.replicate_succ]
  | cons n ns ih =>
    cases count with
    | zero => simp
    | succ count =>
      rw [List.replicate_succ, List.forall₂_cons, ih, List.length_cons, List.forall_mem_cons,
        Nat.add_right_cancel_iff, and_left_comm]

/-! ### Wheels -/

namespace Scan

variable {k : Scan}

/-- The position of a wheel after a given one. -/
def turn (k : Scan) : Blank → Nat → Nat
  | .designator, p => Odometer.turn p k.designators.length
  | .direction, p => Odometer.turn p k.directions.length
  | .numbers count odd, p => turnedNumbers count odd p
  | .tagger cls, p =>
    match Search.nextScannable? (k.catalog.taggersOf cls) p with
    | some position => (Search.nextScannable? (k.catalog.taggersOf cls) (position + 1)).getD 0
    | none => 0
  | .circulator, p => Odometer.turn p k.catalog.circulators.size

/-- The positions of a wheel. -/
def positions (k : Scan) : Blank → List Nat
  | .designator => List.range k.designators.length
  | .direction => List.range k.directions.length
  | .numbers count odd => numberPositions count odd
  | .tagger cls => 0 :: (scannableFrom (k.catalog.taggersOf cls) 0).tail
  | .circulator => List.range k.catalog.circulators.size

/-- What a wheel shows at a position. -/
def choiceAt (k : Scan) : Blank → Nat → Choice
  | .designator, p => .designator (Search.scannedDesignators[p % 8]?.getD .centers)
  | .direction, p => .direction (Search.scannedDirections[p % 4]?.getD .noDirection)
  | .numbers count _, p => .numbers (numbersAt count p)
  | .tagger cls, p =>
    .tagger cls ((Search.nextScannable? (k.catalog.taggersOf cls) p).getD 0)
  | .circulator, p => .circulator (p + 1)

/-- A blank can be filled in. -/
def CanFill (k : Scan) : Blank → Prop
  | .numbers count _ => count ≤ maxNumbers
  | .tagger cls => scannableFrom (k.catalog.taggersOf cls) 0 ≠ []
  | .circulator => 0 < k.catalog.circulators.size
  | _ => True

/-- All that can be chosen for a blank, in the order of the wheel. -/
def choices (k : Scan) : Blank → List Choice
  | .designator => k.designators.map .designator
  | .direction => k.directions.map .direction
  | .numbers count odd =>
    if count ≤ maxNumbers then
      (List.replicate count (offeredNumbers count odd)).sections.map .numbers
    else []
  | .tagger cls => (scannableFrom (k.catalog.taggersOf cls) 0).map (.tagger cls)
  | .circulator => (List.range k.catalog.circulators.size).map fun p => .circulator (p + 1)

/-- There are four designators to choose from in a scan, or two more, or two more again. -/
theorem designators_cases (k : Scan) :
    k.designators = [.boys, .girls, .centers, .ends] ∨
      k.designators = [.boys, .girls, .centers, .ends, .leads, .trailers] ∨
        k.designators
          = [.boys, .girls, .centers, .ends, .leads, .trailers, .beaus, .belles] := by
  unfold designators
  split
  · exact .inl rfl
  · split
    · exact .inr (.inl rfl)
    · exact .inr (.inr rfl)

/-- There are two directions to choose from in a scan, or four. -/
theorem directions_cases (k : Scan) :
    k.directions = [.left, .right] ∨ k.directions = [.left, .right, .inward, .outward] := by
  unfold directions
  split
  · exact .inl rfl
  · exact .inr rfl

/-- A wheel of tagging calls goes on to the others that a scan may use. -/
theorem isPath_tagger {cls i j : Nat} {l : List Nat}
    (h : scannableFrom (k.catalog.taggersOf cls) i = j :: l) :
    IsPath (k.turn (.tagger cls)) i (i :: l) 0 := by
  induction l generalizing i j with
  | nil =>
    refine ⟨rfl, ?_⟩
    simp only [IsPath, turn, nextScannable?_eq, h, List.head?_cons, (scannableFrom_of_cons h).2,
      List.head?_nil, Option.getD_none]
  | cons j' l ih =>
    have hrest := (scannableFrom_of_cons h).2
    have hturn : k.turn (.tagger cls) i = j' := by
      simp only [turn, nextScannable?_eq, h, List.head?_cons, hrest, Option.getD_some]
    refine ⟨rfl, ?_⟩
    rw [hturn]
    exact ih (scannableFrom_of_cons hrest).1

/-- A wheel of tagging calls shows the ones that a scan may use, whatever it begins at before the
first. -/
theorem map_tagger {cls i j : Nat} {l : List Nat}
    (h : scannableFrom (k.catalog.taggersOf cls) i = j :: l) :
    (i :: l).map (k.choiceAt (.tagger cls)) = (j :: l).map (.tagger cls) := by
  induction l generalizing i j with
  | nil => simp [choiceAt, nextScannable?_eq, h]
  | cons j' l ih =>
    have hrest := (scannableFrom_of_cons (scannableFrom_of_cons h).2).1
    rw [List.map_cons, ih hrest]
    simp [choiceAt, nextScannable?_eq, h]

/-- **The wheel of a blank comes back to zero** after all of its positions. -/
theorem isCycle_positions {b : Blank} (h : k.CanFill b) :
    IsCycle (k.turn b) 0 (k.positions b) := by
  cases b with
  | designator =>
    refine isCycle_turn ?_
    rcases k.designators_cases with hd | hd | hd <;> rw [hd] <;> decide
  | direction =>
    refine isCycle_turn ?_
    rcases k.directions_cases with hd | hd <;> rw [hd] <;> decide
  | numbers count odd => exact isCycle_numbers count odd
  | tagger cls =>
    cases hl : scannableFrom (k.catalog.taggersOf cls) 0 with
    | nil => exact absurd hl h
    | cons j l =>
      have hpositions : k.positions (.tagger cls) = 0 :: l := by
        simp only [positions, hl, List.tail_cons]
      rw [hpositions]
      refine ⟨isPath_tagger hl, by simp, fun hmem => ?_⟩
      rw [List.tail_cons, ← (scannableFrom_of_cons hl).2, mem_scannableFrom] at hmem
      omega
  | circulator => exact isCycle_turn h

/-- **What the wheel of a blank shows** from zero on is all that can be chosen for it. -/
theorem map_choiceAt {b : Blank} (h : k.CanFill b) :
    (k.positions b).map (k.choiceAt b) = k.choices b := by
  cases b with
  | designator =>
    simp only [positions, choices]
    rcases k.designators_cases with hd | hd | hd <;> rw [hd] <;> rfl
  | direction =>
    simp only [positions, choices]
    rcases k.directions_cases with hd | hd <;> rw [hd] <;> rfl
  | numbers count odd =>
    have hcount : count ≤ maxNumbers := h
    simp only [positions, choices, if_pos hcount, ← map_numbersAt hcount, List.map_map]
    rfl
  | tagger cls =>
    cases hl : scannableFrom (k.catalog.taggersOf cls) 0 with
    | nil => exact absurd hl h
    | cons j l =>
      simp only [positions, choices, hl, List.tail_cons]
      exact map_tagger hl
  | circulator => rfl

/-! ### Choices and offers -/

/-- What can be chosen for a blank is what is offered for it. -/
theorem mem_choices {b : Blank} {c : Choice} : c ∈ k.choices b ↔ k.Offers b c := by
  cases b with
  | designator => cases c <;> simp [choices, Offers]
  | direction => cases c <;> simp [choices, Offers]
  | numbers count odd =>
    by_cases hcount : count ≤ maxNumbers
    · cases c with
      | numbers ns =>
        simp only [choices, Offers, hcount, if_true, List.mem_map, Choice.numbers.injEq,
          exists_eq_right, List.mem_sections, forall₂_mem_replicate, true_and]
      | _ => simp [choices, Offers, hcount]
    · cases c <;> simp [choices, Offers, hcount]
  | tagger cls =>
    cases c with
    | tagger cls' position =>
      simp only [choices, Offers, List.mem_map, Choice.tagger.injEq, mem_scannableFrom]
      constructor
      · rintro ⟨i, ⟨-, hi⟩, rfl, rfl⟩
        exact ⟨rfl, hi⟩
      · rintro ⟨rfl, hi⟩
        exact ⟨position, ⟨Nat.zero_le _, hi⟩, rfl, rfl⟩
    | _ => simp [choices, Offers]
  | circulator =>
    cases c with
    | circulator n =>
      simp only [choices, Offers, List.mem_map, List.mem_range, Choice.circulator.injEq]
      constructor
      · rintro ⟨i, hi, rfl⟩
        omega
      · rintro ⟨hn, hle⟩
        exact ⟨n - 1, by omega, by omega⟩
    | _ => simp [choices, Offers]

/-- Nothing is offered for a blank that cannot be filled in. -/
theorem canFill_of_offers {b : Blank} {c : Choice} (h : k.Offers b c) : k.CanFill b := by
  cases b with
  | designator => trivial
  | direction => trivial
  | numbers count odd =>
    cases c with
    | numbers ns => exact h.1
    | _ => exact h.elim
  | tagger cls =>
    cases c with
    | tagger cls' position =>
      obtain ⟨-, hcall⟩ := h
      exact List.ne_nil_of_mem (mem_scannableFrom.2 ⟨Nat.zero_le position, hcall⟩)
    | _ => exact h.elim
  | circulator =>
    cases c with
    | circulator n =>
      obtain ⟨hn, hle⟩ := h
      exact Nat.lt_of_lt_of_le hn hle
    | _ => exact h.elim

/-- Different positions show different choices. -/
theorem nodup_choices (k : Scan) (b : Blank) : (k.choices b).Nodup := by
  cases b with
  | designator =>
    refine List.Nodup.map (fun x y heq => Choice.designator.inj heq) ?_
    rcases k.designators_cases with hd | hd | hd <;> rw [hd] <;> decide
  | direction =>
    refine List.Nodup.map (fun x y heq => Choice.direction.inj heq) ?_
    rcases k.directions_cases with hd | hd <;> rw [hd] <;> decide
  | numbers count odd =>
    simp only [choices]
    split
    · refine List.Nodup.map (fun x y heq => Choice.numbers.inj heq) ?_
      refine nodup_sections fun l hl => ?_
      rw [List.eq_of_mem_replicate hl]
      unfold offeredNumbers
      split
      · decide
      · split <;> decide
    · exact List.nodup_nil
  | tagger cls =>
    exact List.Nodup.map (fun x y heq => (Choice.tagger.inj heq).2)
      (List.Nodup.filter _ List.nodup_range')
  | circulator =>
    refine List.Nodup.map (fun x y heq => ?_) List.nodup_range
    exact Nat.succ.inj (Choice.circulator.inj heq)

/-! ### Rows of choices -/

/-- The wheels of blanks that can be filled in show all rows of their positions. -/
theorem isCycle_rows {bs : List Blank} (h : ∀ b ∈ bs, k.CanFill b) :
    IsCycle (carry (bs.map k.turn)) (bs.map fun _ => 0) (bs.map k.positions).sections := by
  have hwheels : ∀ w ∈ bs.map fun b => (k.turn b, k.positions b), IsCycle w.1 0 w.2 := by
    intro w hw
    obtain ⟨b, hb, rfl⟩ := List.mem_map.1 hw
    exact isCycle_positions (h b hb)
  have hcycle := IsCycle.carry hwheels
  simpa only [List.map_map, Function.comp_def] using hcycle

/-- A row of positions has one for each wheel. -/
theorem forall₂_of_mem_rows {bs : List Blank} {ps : List Nat}
    (h : ps ∈ (bs.map k.positions).sections) :
    List.Forall₂ (fun b p => p ∈ k.positions b) bs ps := by
  rw [List.mem_sections, List.forall₂_map_right_iff] at h
  exact h.flip

/-- A row of positions shows a row of choices. -/
theorem map_rows {bs : List Blank} (h : ∀ b ∈ bs, k.CanFill b) :
    (bs.map k.positions).sections.map (List.zipWith k.choiceAt bs)
      = (bs.map k.choices).sections := by
  induction bs with
  | nil => rfl
  | cons b bs ih =>
    rw [List.map_cons, List.map_cons, List.sections, List.sections,
      ← ih fun b hb => h b (List.mem_cons_of_mem _ hb), ← map_choiceAt (h b List.mem_cons_self),
      List.map_flatMap, List.flatMap_map]
    simp only [List.map_map]
    rfl

/-- Rows of choices are what is offered for all blanks. -/
theorem mem_rows_of_choices {bs : List Blank} {cs : List Choice} :
    cs ∈ (bs.map k.choices).sections ↔ List.Forall₂ k.Offers bs cs := by
  rw [List.mem_sections, List.forall₂_map_right_iff]
  constructor
  · exact fun h => h.flip.imp fun b c hc => mem_choices.1 hc
  · exact fun h => h.flip.imp fun c b hc => mem_choices.2 hc

/-- If a blank cannot be filled in, there is no row. -/
theorem rows_of_not_canFill {bs : List Blank} {b : Blank} (hb : b ∈ bs) (h : ¬ k.CanFill b) :
    (bs.map k.choices).sections = [] := by
  rw [List.eq_nil_iff_forall_not_mem]
  intro cs hcs
  have hoffers : List.Forall₂ (fun b c => k.CanFill b ∧ k.Offers b c) bs cs :=
    (mem_rows_of_choices.1 hcs).imp fun b c hc => ⟨canFill_of_offers hc, hc⟩
  rw [List.forall₂_and_left] at hoffers
  exact h (hoffers.1 b hb)

/-! ### Combinations of a call -/

instance (k : Scan) (call : CatalogCall) : Decidable (k.Allows call) :=
  inferInstanceAs (Decidable (_ ∧ (_ → _)))

/-- The combinations of the call at a position, in the order of its wheels. -/
def combinations (k : Scan) (i : Nat) : List Combination :=
  match k.catalog.calls[i]? with
  | none => []
  | some call =>
    if k.Allows call then
      (call.blanks.map k.choices).sections.map fun choices => { call := i, choices }
    else []

/-- A call that is allowed has a combination for each row of choices. -/
theorem combinations_of_allows {i : Nat} {call : CatalogCall}
    (hcall : k.catalog.calls[i]? = some call) (h : k.Allows call) : k.combinations i
      = (call.blanks.map k.choices).sections.map fun choices => { call := i, choices } := by
  rw [combinations, hcall]
  exact if_pos h

/-- A call that is barred has no combination. -/
theorem combinations_of_not_allows {i : Nat} {call : CatalogCall}
    (hcall : k.catalog.calls[i]? = some call) (h : ¬ k.Allows call) : k.combinations i = [] := by
  rw [combinations, hcall]
  exact if_neg h

/-- The combinations of a call are those of the scan that have it. -/
theorem mem_combinations {i : Nat} {c : Combination} :
    c ∈ k.combinations i ↔ c.call = i ∧ k.Includes c := by
  unfold combinations Includes
  constructor
  · intro h
    split at h
    · cases h
    · rename_i call hcall
      split at h
      · rename_i hallows
        obtain ⟨cs, hcs, rfl⟩ := List.mem_map.1 h
        exact ⟨rfl, call, hcall, hallows, mem_rows_of_choices.1 hcs⟩
      · cases h
  · rintro ⟨rfl, call, hcall, hallows, hoffers⟩
    rw [hcall]
    simp only [if_pos hallows]
    exact List.mem_map.2 ⟨c.choices, mem_rows_of_choices.2 hoffers, rfl⟩

/-- No combination of a call comes twice. -/
theorem nodup_combinations (k : Scan) (i : Nat) : (k.combinations i).Nodup := by
  unfold combinations
  split
  · exact List.nodup_nil
  · split
    · refine List.Nodup.map (fun cs cs' heq => (Combination.mk.inj heq).2) ?_
      refine nodup_sections fun l hl => ?_
      obtain ⟨b, -, rfl⟩ := List.mem_map.1 hl
      exact nodup_choices k b
    · exact List.nodup_nil

end Scan
end SquareDance
