/-
# The next odd numbers

The wheel of the numbers has two bits for each of them, and where all have to be odd it rests only
at words whose fields are 0 or 2.  From such a word the search adds one and then the lowest bit,
again and again, until no low bit is set, all in 32 bits: `Settles` is that loop, turn by turn.

It always ends, and where `upward` says (`settles_upward`): a turn carries the lowest bit up, and a
carry out of the word leaves zero behind, which is at rest.  It passes over nothing either, since
the words that a turn skips have all bits of the word it starts from: `upward_isSuccessor`.
-/

import Mathlib.Algebra.Ring.Nat
import Mathlib.Order.Bounds.Defs
import SquareDance.Search.Blanks

namespace SquareDance
namespace OddNumbers

/-! ### Carries -/

/-- A number that is less than one carry above another has all its bits. -/
theorem testBit_of_lt_add_lowestBit {n m i : Nat} (hle : n ≤ m) (hlt : m < n + lowestBit n)
    (hi : n.testBit i = true) : m.testBit i = true := by
  fun_induction lowestBit n generalizing m i with
  | case1 => simp at hi
  | case2 n _ hodd =>
    obtain rfl : m = n := by omega
    exact hi
  | case3 n _ hodd ih =>
    cases i with
    | zero => simp [hodd] at hi
    | succ i =>
      rw [Nat.testBit_succ] at hi ⊢
      exact ih (by omega) (by omega) hi

/-- **A carry passes over no number without low bits.** -/
theorem add_lowestBit_le {n m : Nat} (hn : n &&& lowBits ≠ 0) (hle : n ≤ m)
    (hm : m &&& lowBits = 0) : n + lowestBit n ≤ m := by
  refine Nat.not_lt.1 fun hlt => ?_
  obtain ⟨i, hi⟩ := Nat.exists_testBit_of_ne_zero hn
  rw [Nat.testBit_and, Bool.and_eq_true] at hi
  have hbit : (m &&& lowBits).testBit i = true := by
    rw [Nat.testBit_and, testBit_of_lt_add_lowestBit hle hlt hi.1, hi.2]
    rfl
  rw [hm, Nat.zero_testBit] at hbit
  cases hbit

/-- A carry goes up to the end of a word at most. -/
theorem add_lowestBit_le_two_pow {n k : Nat} (hn : n < 2 ^ k) : n + lowestBit n ≤ 2 ^ k := by
  fun_induction lowestBit n generalizing k with
  | case1 => omega
  | case2 => omega
  | case3 n hne hodd ih =>
    cases k with
    | zero => omega
    | succ k =>
      rw [Nat.pow_succ] at hn ⊢
      have := ih (k := k) (by omega)
      omega

/-! ### Where carries settle -/

/-- Numbers settle at a number that is not less. -/
theorem le_settle (n : Nat) : n ≤ settle n := by
  fun_induction settle n with
  | case1 => exact Nat.le_refl _
  | case2 n _ ih => omega

/-- **Numbers settle at the next one without low bits.** -/
theorem settle_le {n m : Nat} (hle : n ≤ m) (hm : m &&& lowBits = 0) : settle n ≤ m := by
  fun_induction settle n with
  | case1 => exact hle
  | case2 n hn ih => exact ih (add_lowestBit_le hn hle hm)

/-! ### The loop on words -/

/-- A number and what it lacks to a power of two share the lowest bit and no other. -/
theorem and_two_pow_sub {n k : Nat} (hn : n < 2 ^ k) : n &&& (2 ^ k - n) = lowestBit n := by
  fun_induction lowestBit n generalizing k with
  | case1 => exact Nat.zero_and _
  | case2 n hne hodd =>
    have hsub : 2 ^ k - n = 2 ^ k - (n - 1 + 1) := by omega
    refine Nat.eq_of_testBit_eq fun i => ?_
    rw [Nat.testBit_and, hsub, Nat.testBit_two_pow_sub_succ (by omega)]
    cases i with
    | zero =>
      have heven : (n - 1) % 2 = 0 := by omega
      have hk : k ≠ 0 := by
        rintro rfl
        omega
      simp [hodd, heven, Nat.pos_of_ne_zero hk]
    | succ i =>
      have hhalf : (n - 1) / 2 = n / 2 := by omega
      simp +contextual [Nat.testBit_succ, hhalf]
  | case3 n hne hodd ih =>
    cases k with
    | zero => omega
    | succ k =>
      have heven : (2 ^ k * 2 - n) % 2 = 0 := by omega
      have hhalf : (2 ^ k * 2 - n) / 2 = 2 ^ k - n / 2 := by omega
      rw [Nat.pow_succ] at hn ⊢
      refine Nat.eq_of_testBit_eq fun i => ?_
      rw [← ih (k := k) (by omega), Nat.testBit_and]
      cases i with
      | zero => simp [heven]
      | succ i => simp [Nat.testBit_succ, hhalf]

/-- A word and its negative share the lowest bit and no other. -/
theorem and_neg_toNat (w : UInt32) : (w &&& -w).toNat = lowestBit w.toNat := by
  rw [UInt32.toNat_and, UInt32.toNat_neg]
  rcases Nat.eq_zero_or_pos w.toNat with hw | hw
  · rw [hw, lowestBit.eq_def]
    rfl
  · rw [Nat.mod_eq_of_lt (Nat.sub_lt (by decide) hw)]
    exact and_two_pow_sub w.toNat_lt

/-- A turn of the loop: the lowest bit is added, and what does not fit into the word is lost. -/
def carry (w : UInt32) : UInt32 := w + (w &&& -w)

/-- A turn of the loop, as a number. -/
theorem carry_toNat (w : UInt32) :
    (carry w).toNat = (w.toNat + lowestBit w.toNat) % 2 ^ 32 := by
  rw [carry, UInt32.toNat_add, and_neg_toNat]

/-- No low bit of a word is set. -/
def Rests (w : UInt32) : Prop := w &&& 0x55555555 = 0

/-- A word is at rest if its number has no low bits. -/
theorem rests_iff (w : UInt32) : Rests w ↔ w.toNat &&& lowBits = 0 := by
  rw [Rests, ← UInt32.toNat_inj, UInt32.toNat_and]
  rfl

/-- The loop from a word on ends at another. -/
inductive Settles : UInt32 → UInt32 → Prop where
  | rests {w} (h : Rests w) : Settles w w
  | carries {w w'} (h : ¬ Rests w) (h' : Settles (carry w) w') : Settles w w'

/-- The loop has one end at most. -/
theorem Settles.unique {w a b : UInt32} (ha : Settles w a) (hb : Settles w b) : a = b := by
  induction ha with
  | rests h =>
    cases hb with
    | rests => rfl
    | carries h' => exact absurd h h'
  | carries h _ ih =>
    cases hb with
    | rests h' => exact absurd h' h
    | carries _ hb => exact ih hb

/-- **The loop ends at the word that is given**, from wherever it starts. -/
theorem settles_upward (w : UInt32) : Settles w (upward w) := by
  unfold upward
  generalize hn : w.toNat = n
  fun_induction settle n generalizing w with
  | case1 n h =>
    subst hn
    rw [UInt32.ofNat_toNat]
    exact .rests ((rests_iff w).2 h)
  | case2 n h ih =>
    subst hn
    refine .carries (mt (rests_iff w).1 h) ?_
    have hle : w.toNat + lowestBit w.toNat ≤ 2 ^ 32 := add_lowestBit_le_two_pow w.toNat_lt
    have hcarry := carry_toNat w
    rcases Nat.lt_or_eq_of_le hle with hlt | heq
    · rw [Nat.mod_eq_of_lt hlt] at hcarry
      exact ih _ hcarry
    · -- The carry leaves the word, and zero is at rest.
      rw [heq, Nat.mod_self] at hcarry
      rw [heq, UInt32.toNat_inj.1 (hcarry.trans UInt32.toNat_zero.symm), settle.eq_def]
      exact .rests rfl

/-! ### Odd numbers -/

/-- All the numbers that a wheel shows are odd. -/
def AreOdd (w : UInt32) : Prop :=
  ∀ place < 16, Search.numberOn w place = 1 ∨ Search.numberOn w place = 3

/-- The number in a place is one more than its two bits. -/
theorem numberOn_eq (w : UInt32) {place : Nat} (h : place < 16) :
    Search.numberOn w place = w.toNat / 2 ^ (2 * place) % 4 + 1 := by
  have hplace : (UInt32.ofNat (2 * place)).toNat % 32 = 2 * place := by
    rw [UInt32.toNat_ofNat_of_lt' (show 2 * place < 4294967296 by omega)]
    omega
  rw [Search.numberOn, UInt32.toNat_and, UInt32.toNat_shiftRight, hplace,
    Nat.shiftRight_eq_div_pow]
  exact congrArg (· + 1) (Nat.and_two_pow_sub_one_eq_mod _ 2)

/-- A number is odd if its low bit is not set. -/
theorem numberOn_odd_iff (w : UInt32) {place : Nat} (h : place < 16) :
    (Search.numberOn w place = 1 ∨ Search.numberOn w place = 3)
      ↔ w.toNat.testBit (2 * place) = false := by
  rw [numberOn_eq w h, Nat.testBit_eq_decide_div_mod_eq, decide_eq_false_iff_not]
  omega

/-- The low bits are the even ones of a word. -/
theorem testBit_lowBits (i : Nat) : lowBits.testBit i = true ↔ ∃ place < 16, i = 2 * place := by
  rcases Nat.lt_or_ge i 32 with hi | hi
  · have hall : ∀ i < 32, lowBits.testBit i = decide (i % 2 = 0) := by decide
    rw [hall i hi, decide_eq_true_iff]
    constructor
    · exact fun h => ⟨i / 2, by omega, by omega⟩
    · rintro ⟨place, -, rfl⟩
      omega
  · have hlt : lowBits < 2 ^ i :=
      Nat.lt_of_lt_of_le (by decide) (Nat.pow_le_pow_right (by decide) hi)
    rw [Nat.testBit_lt_two_pow hlt]
    constructor
    · intro h
      cases h
    · rintro ⟨place, hplace, rfl⟩
      omega

/-- **The loop rests where all numbers are odd.** -/
theorem areOdd_iff (w : UInt32) : AreOdd w ↔ w.toNat &&& lowBits = 0 := by
  constructor
  · intro h
    refine Nat.eq_of_testBit_eq fun i => ?_
    rw [Nat.testBit_and, Nat.zero_testBit, Bool.and_eq_false_imp]
    intro hw
    refine Bool.eq_false_iff.2 fun hi => ?_
    obtain ⟨place, hplace, rfl⟩ := (testBit_lowBits i).1 hi
    rw [(numberOn_odd_iff w hplace).1 (h place hplace)] at hw
    cases hw
  · intro h place hplace
    refine (numberOn_odd_iff w hplace).2 ?_
    have hbit := congrArg (fun n => n.testBit (2 * place)) h
    rwa [Nat.testBit_and, (testBit_lowBits _).2 ⟨place, hplace, rfl⟩, Bool.and_true,
      Nat.zero_testBit] at hbit

instance (w : UInt32) : Decidable (AreOdd w) :=
  inferInstanceAs (Decidable (∀ place < 16, _ ∨ _))

/-- One above a word of odd numbers is still a word. -/
theorem AreOdd.toNat_add_one {v : UInt32} (h : AreOdd v) : (v + 1).toNat = v.toNat + 1 := by
  have heven : v.toNat.testBit 0 = false := (numberOn_odd_iff v (by decide)).1 (h 0 (by decide))
  rw [Nat.testBit_zero, decide_eq_false_iff_not] at heven
  have hlt : v.toNat < 2 ^ 32 := v.toNat_lt
  rw [UInt32.toNat_add]
  exact Nat.mod_eq_of_lt (show v.toNat + 1 < 2 ^ 32 by omega)

/-- What comes next after a word among those that show odd numbers. -/
structure IsNextOdd (v w : UInt32) : Prop where
  /-- It is the least one above, if there is any. -/
  least : (∃ u, v < u ∧ AreOdd u) → IsLeast {u | v < u ∧ AreOdd u} w
  /-- Else it is the first one of all. -/
  wraps : (¬ ∃ u, v < u ∧ AreOdd u) → w = 0

/-- **Above a word of odd numbers the loop ends at the next one.** -/
theorem AreOdd.isNextOdd {v : UInt32} (hv : AreOdd v) : IsNextOdd v (upward (v + 1)) := by
  have hstart := hv.toNat_add_one
  have hge := le_settle (v.toNat + 1)
  -- A word above whose numbers are odd is not passed over.
  have hbelow : ∀ u, v < u → AreOdd u → settle (v.toNat + 1) ≤ u.toNat := fun u hu hodd =>
    settle_le (UInt32.lt_iff_toNat_lt.1 hu) ((areOdd_iff u).1 hodd)
  -- What settles within a word is such a word above.
  have hwithin : settle (v.toNat + 1) < 2 ^ 32 →
      (upward (v + 1)).toNat = settle (v.toNat + 1) ∧ v < upward (v + 1) ∧
        AreOdd (upward (v + 1)) := by
    intro hlt
    have htoNat : (upward (v + 1)).toNat = settle (v.toNat + 1) := by
      rw [upward, hstart, UInt32.toNat_ofNat_of_lt' hlt]
    refine ⟨htoNat, UInt32.lt_iff_toNat_lt.2 (by omega), (areOdd_iff _).2 ?_⟩
    rw [htoNat]
    exact settle_and_lowBits _
  constructor
  · rintro ⟨u, hu, hodd⟩
    obtain ⟨htoNat, hmem⟩ := hwithin (Nat.lt_of_le_of_lt (hbelow u hu hodd) u.toNat_lt)
    refine ⟨hmem, fun u' hu' => UInt32.le_iff_toNat_le.2 ?_⟩
    rw [htoNat]
    exact hbelow u' hu'.1 hu'.2
  · intro hnone
    have hge' : 2 ^ 32 ≤ settle (v.toNat + 1) :=
      Nat.not_lt.1 fun hlt => hnone ⟨_, (hwithin hlt).2⟩
    have hle : settle (v.toNat + 1) ≤ 2 ^ 32 := settle_le v.toNat_lt (by decide)
    rw [upward, hstart, Nat.le_antisymm hle hge']
    rfl

/-- **From a word of odd numbers the wheel goes on to the next one.**  The loop that starts one
above it ends, at the least greater word of odd numbers, or at zero if it was the greatest.
From any start it ends, and in one place only. -/
theorem upward_isSuccessor {v : UInt32} (hv : AreOdd v) :
    (Settles (v + 1) (upward (v + 1)) ∧ IsNextOdd v (upward (v + 1))) ∧
      ∀ start, Settles start (upward start) ∧ ∀ w, Settles start w → w = upward start :=
  ⟨⟨settles_upward (v + 1), hv.isNextOdd⟩, fun start =>
    ⟨settles_upward start, fun _ hw => hw.unique (settles_upward start)⟩⟩

/-- The numbers 3 and 3 are followed by 1, 1 and 3. -/
theorem upward_isSuccessor_twoThrees :
    AreOdd 0b1010 ∧ Settles (0b1010 + 1) 0b100000 ∧ IsNextOdd 0b1010 0b100000 := by
  have hodd : AreOdd 0b1010 := by decide
  have hnext : upward (0b1010 + 1) = 0b100000 := by decide +kernel
  exact ⟨hodd, hnext ▸ (upward_isSuccessor hodd).1⟩

end OddNumbers
end SquareDance
