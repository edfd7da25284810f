/-
# The bits of the words of a formation

Each slot has two bits in a word, those of slot 0 the highest (`Formation.lowBit`).  The word of
the live slots sets both where somebody stands, and the word of the directions holds the code of
the direction there.  So no bit of a direction is set where nobody stands, and the live slots are
half as many as the set bits of their word: `Formation.words_areFaithful`.

Sixteen slots leave no bit of a word over, and none is lost (`Formation.toNat_wordUpTo_succ`).

Tables see of a formation what its words say.  Formations of one setup have the same words just if
the same slots are live and people on the same slot face the same way: `Formation.words_eq_iff`.
-/

import Mathlib.Data.Nat.BitIndices
import SquareDance.Proofs.Formation.Words

namespace SquareDance

/-! ### Digits and bits -/

/-- The two bits of a digit are those of the word at twice its place. -/
theorem testBit_digit (w : UInt32) (place : Nat) {i : Nat} (hi : i < 2) :
    (digit w place).testBit i = w.toNat.testBit (2 * place + i) := by
  have hfour : 4 ^ place = 2 ^ (2 * place) := by rw [Nat.pow_mul]
  change (w.toNat / 4 ^ place % 2 ^ 2).testBit i = _
  rw [hfour, Nat.testBit_mod_two_pow, Nat.testBit_div_two_pow, decide_eq_true hi, Bool.true_and,
    Nat.add_comm]

/-- A digit is what two bits are worth. -/
theorem shiftRight_mod_four (w : UInt32) (place : Nat) :
    (w.toNat >>> (2 * place)) % 4 = digit w place := by
  rw [digit, Nat.shiftRight_eq_div_pow, Nat.pow_mul]

/-- One bit behind the others is one set bit more, if it is set. -/
theorem length_bitIndices_append_bit (n : Nat) {b : Nat} (hb : b < 2) :
    (2 * n + b).bitIndices.length = n.bitIndices.length + b := by
  obtain rfl | rfl : b = 0 ∨ b = 1 := by omega
  · rw [Nat.add_zero, Nat.bitIndices_two_mul, List.length_map, Nat.add_zero]
  · rw [Nat.bitIndices_two_mul_add_one, List.length_cons, List.length_map]

/-- A digit behind a number has its own set bits, and the number keeps those it has. -/
theorem length_bitIndices_append_digit (n : Nat) {d : Nat} (hd : d < 4) :
    (4 * n + d).bitIndices.length = n.bitIndices.length + (d / 2 + d % 2) := by
  have hsplit : 4 * n + d = 2 * (2 * n + d / 2) + d % 2 := by omega
  rw [hsplit, length_bitIndices_append_bit _ (Nat.mod_lt d Nat.two_pos),
    length_bitIndices_append_bit n (by omega), Nat.add_assoc]

namespace Formation

variable {f g : Formation} {bits : Dancer → UInt32} {slot place : Nat}

/-- The lower one of the two bits that a slot has in a word; those of slot 0 are the highest. -/
def lowBit (f : Formation) (slot : Nat) : Nat := 2 * (f.size - 1 - slot)

/-- The bits of a slot in a word are those of its digit. -/
theorem testBit_word (hbits : ∀ p, (bits p).toNat < 4) (hslot : slot < f.size) {i : Nat}
    (hi : i < 2) :
    (f.word bits).toNat.testBit (f.lowBit slot + i) = (f.slotDigit bits slot).toNat.testBit i := by
  rw [lowBit, ← testBit_digit _ _ hi, digit_word hbits hslot]

/-- Above the bits of slot 0 there is none. -/
theorem testBit_word_of_le (hbits : ∀ p, (bits p).toNat < 4) (hplace : 2 * f.size ≤ place) :
    (f.word bits).toNat.testBit place = false := by
  refine Nat.testBit_lt_two_pow (Nat.lt_of_lt_of_le (word_lt hbits) ?_)
  calc 4 ^ f.size = 2 ^ (2 * f.size) := by rw [Nat.pow_mul]
    _ ≤ 2 ^ place := Nat.pow_le_pow_right Nat.two_pos hplace

/-! ### Live slots -/

/-- The digit of a live slot has both bits set. -/
theorem toNat_liveDigit (f : Formation) (slot : Nat) :
    (f.slotDigit (fun _ => 3) slot).toNat = if f.isLive slot then 3 else 0 := by
  rw [slotDigit, isLive]
  cases f.dancer? slot <;> rfl

/-- Both bits of a slot are set just if it is live. -/
theorem testBit_liveWord (hslot : slot < f.size) {i : Nat} (hi : i < 2) :
    f.liveWord.toNat.testBit (f.lowBit slot + i) = f.isLive slot := by
  rw [liveWord, testBit_word three_lt_four hslot hi, toNat_liveDigit]
  cases f.isLive slot with
  | true =>
    obtain rfl | rfl : i = 0 ∨ i = 1 := by omega
    · rfl
    · rfl
  | false => exact Nat.zero_testBit i

/-- Each of the first slots brings two set bits if it is live, and none otherwise. -/
theorem length_bitIndices_wordUpTo {n : Nat} (hn : n ≤ 16) :
    (f.wordUpTo (fun _ => 3) n).toNat.bitIndices.length = 2 * (List.range n).countP f.isLive := by
  induction n with
  | zero => simp [wordUpTo]
  | succ n ih =>
    rw [toNat_wordUpTo_succ three_lt_four (by omega),
      length_bitIndices_append_digit _ (slotDigit_lt three_lt_four), toNat_liveDigit, ih (by omega),
      List.range_succ, List.countP_append, List.countP_singleton, Nat.mul_add]
    -- A live slot has the digit 3, which has two set bits; the digit 0 has none.
    cases f.isLive n <;> rfl

/-! ### Directions -/

/-- The bits of a slot hold the code of the direction there. -/
theorem shiftRight_directionsWord (hslot : slot < f.size) :
    (f.directionsWord.toNat >>> f.lowBit slot) % 4
      = (f.dancer? slot).elim 0 fun p => p.direction.code.toNat := by
  rw [lowBit, shiftRight_mod_four, digit_directionsWord hslot, facingAt]
  cases f.dancer? slot <;> rfl

/-- No direction is told where nobody stands. -/
theorem directionsWord_and_not_liveWord (f : Formation) :
    f.directionsWord &&& ~~~f.liveWord = 0 := by
  -- The directions are their own mask, so that the live slots leave all of them.
  have hfaces : f.Faces f.directionsWord := by
    intro slot hslot p hp
    rw [digit_directionsWord hslot, facingAt, hp, Option.elim_some]
  rw [directionsWord_eq_iff.2 hfaces, UInt32.and_comm f.liveWord, UInt32.and_assoc,
    UInt32.and_not_self, UInt32.and_zero]

/-! ### Both words -/

/-- The words of a formation say who stands where and which way they face, and nothing else. -/
structure HasFaithfulWords (f : Formation) : Prop where
  /-- Both bits of a slot are set if somebody stands there, and both are clear otherwise. -/
  live : ∀ slot < f.size, f.liveWord.toNat.testBit (f.lowBit slot) = f.isLive slot ∧
    f.liveWord.toNat.testBit (f.lowBit slot + 1) = f.isLive slot
  /-- The same two bits hold the code of the direction there, and zero if nobody stands there. -/
  directions : ∀ slot < f.size, (f.directionsWord.toNat >>> f.lowBit slot) % 4
    = (f.dancer? slot).elim 0 fun p => p.direction.code.toNat
  /-- There is nothing above the bits of slot 0. -/
  above : ∀ place, 2 * f.size ≤ place →
    f.liveWord.toNat.testBit place = false ∧ f.directionsWord.toNat.testBit place = false
  /-- No bit of a direction is set where nobody stands. -/
  vacant : f.directionsWord &&& ~~~f.liveWord = 0
  /-- Each live slot has two of the set bits. -/
  count : f.liveWord.toNat.bitIndices.length = 2 * f.liveCount

/-- **The words of a formation are faithful**, bit by bit. -/
theorem words_areFaithful (f : Formation) : f.HasFaithfulWords where
  live _ hslot := ⟨testBit_liveWord hslot Nat.two_pos, testBit_liveWord hslot Nat.one_lt_two⟩
  directions _ hslot := shiftRight_directionsWord hslot
  above _ hplace :=
    ⟨testBit_word_of_le three_lt_four hplace, testBit_word_of_le code_lt_four hplace⟩
  vacant := f.directionsWord_and_not_liveWord
  count := length_bitIndices_wordUpTo f.setup.size_le

/-- A row of four with nobody on the third slot. -/
def gappedRow : Formation where
  setup := .line4
  slots := #v[some { direction := .north }, some { direction := .east }, none,
    some { direction := .west }]

/-- Slot 0 is in the highest place, and the gap is clear in both words. -/
example : gappedRow.liveWord = 0b11110011 ∧ gappedRow.directionsWord = 0b00010011 := by
  decide +kernel

/-! ### What the words tell apart -/

/-- A digit that depends on the direction only. -/
theorem slotDigit_congr (code : Direction → UInt32)
    (h : (f.dancer? slot).map (·.direction) = (g.dancer? slot).map (·.direction)) :
    f.slotDigit (fun p => code p.direction) slot = g.slotDigit (fun p => code p.direction) slot := by
  have hmap : ∀ f : Formation, f.slotDigit (fun p => code p.direction) slot
      = ((f.dancer? slot).map (·.direction)).elim 0 code := by
    intro f
    rw [slotDigit]
    cases f.dancer? slot <;> rfl
  rw [hmap, hmap, h]

/-- A word of directions depends on nothing but directions. -/
theorem word_congr (code : Direction → UInt32) (hsetup : f.setup = g.setup)
    (h : ∀ slot, (f.dancer? slot).map (·.direction) = (g.dancer? slot).map (·.direction)) :
    f.word (fun p => code p.direction) = g.word fun p => code p.direction := by
  have hup : ∀ n, f.wordUpTo (fun p => code p.direction) n
      = g.wordUpTo (fun p => code p.direction) n := by
    intro n
    induction n with
    | zero => rfl
    | succ n ih => rw [wordUpTo_succ, wordUpTo_succ, ih, slotDigit_congr code (h n)]
  have hsize : f.size = g.size := congrArg Setup.size hsetup
  exact (hup f.size).trans (congrArg _ hsize)

/-- **The words tell formations of a setup apart** just by who stands where and faces which way. -/
theorem words_eq_iff (hsetup : f.setup = g.setup) :
    f.liveWord = g.liveWord ∧ f.directionsWord = g.directionsWord ↔
      ∀ slot, (f.dancer? slot).map (·.direction) = (g.dancer? slot).map (·.direction) := by
  have hsize : f.size = g.size := congrArg Setup.size hsetup
  constructor
  · rintro ⟨hlive, hdirections⟩ slot
    rcases Nat.lt_or_ge slot f.size with hslot | hslot
    swap
    · rw [dancer?_eq_none_of_le hslot, dancer?_eq_none_of_le (hsize ▸ hslot)]
    have hslot' : slot < g.size := hsize ▸ hslot
    have hisLive : f.isLive slot = g.isLive slot := by
      rw [← testBit_liveWord hslot Nat.two_pos, ← testBit_liveWord hslot' Nat.two_pos, hlive,
        lowBit, lowBit, hsize]
    have hcode := digit_directionsWord hslot
    rw [hdirections, hsize, digit_directionsWord hslot', UInt8.toNat_inj] at hcode
    have hfacing : g.facingAt slot = f.facingAt slot := by
      rw [← Direction.ofBits_code (g.facingAt slot), hcode, Direction.ofBits_code]
    rw [facingAt, facingAt] at hfacing
    rw [isLive, isLive] at hisLive
    cases hf : f.dancer? slot with
    | none =>
      cases hg : g.dancer? slot with
      | none => rfl
      | some q => simp [hf, hg] at hisLive
    | some p =>
      cases hg : g.dancer? slot with
      | none => simp [hf, hg] at hisLive
      | some q =>
        rw [hf, hg] at hfacing
        exact congrArg some hfacing.symm
  · intro h
    exact ⟨word_congr (fun _ => 3) hsetup h, word_congr (fun d => d.code.toUInt32) hsetup h⟩

end Formation
end SquareDance
