/-
# What the words of a formation say about its slots

The word of a formation has two bits for each slot, slot 0 in the highest place.  Read as a
number to the base 4 it has one digit for each slot (`Formation.digit_word`), and it is
determined by them (`eq_of_digits`).  So a word is masked digit by digit, and whether everybody
faces as a mask says can be asked of each person alone: `Formation.directionsWord_eq_iff`.

A mask with two digits set singles out two slots at once: `pairOf`.
-/

import Mathlib.Data.Nat.Bitwise
import SquareDance.Proofs.CallBook.Words
import SquareDance.Formation

namespace SquareDance

/-! ### Digits to the base 4 -/

/-- Two bits of a word, at a place counted from the lowest. -/
def digit (w : UInt32) (place : Nat) : Nat := w.toNat / 4 ^ place % 4

/-- A digit has two bits. -/
theorem digit_lt (w : UInt32) (place : Nat) : digit w place < 4 := Nat.mod_lt _ (by decide)

/-- A number below a power of 4 is determined by its digits. -/
theorem eq_of_digits_nat {n v w : Nat} (hv : v < 4 ^ n) (hw : w < 4 ^ n)
    (h : ∀ place < n, v / 4 ^ place % 4 = w / 4 ^ place % 4) : v = w := by
  induction n generalizing v w with
  | zero => omega
  | succ n ih =>
    rw [Nat.pow_succ] at hv hw
    have hhigh : v / 4 = w / 4 := by
      refine ih (by omega) (by omega) fun place hplace => ?_
      rw [Nat.div_div_eq_div_mul, Nat.div_div_eq_div_mul, ← Nat.pow_succ']
      exact h (place + 1) (by omega)
    have hlow := h 0 (Nat.succ_pos n)
    rw [Nat.pow_zero, Nat.div_one, Nat.div_one] at hlow
    omega

/-- **A word is determined by its digits.** -/
theorem eq_of_digits {n : Nat} {v w : UInt32} (hv : v.toNat < 4 ^ n) (hw : w.toNat < 4 ^ n)
    (h : ∀ place < n, digit v place = digit w place) : v = w :=
  UInt32.toNat_inj.1 (eq_of_digits_nat hv hw h)

/-- A digit is put behind a word. -/
theorem append_digit_toNat {w d : UInt32} (hw : w.toNat < 4 ^ 15) (hd : d.toNat < 4) :
    (w <<< 2 ||| d).toNat = 4 * w.toNat + d.toNat := by
  have hshift : (2 : UInt32).toNat % 32 = 2 := by decide
  rw [UInt32.toNat_or, UInt32.toNat_shiftLeft, hshift, Nat.shiftLeft_eq,
    Nat.mod_eq_of_lt (by omega), mul_or_eq_add _ 2 rfl hd]
  omega

/-- Words are masked digit by digit. -/
theorem digit_and (v w : UInt32) (place : Nat) :
    digit (v &&& w) place = digit v place &&& digit w place := by
  have hfour : 4 ^ place = 2 ^ (2 * place) := by rw [Nat.pow_mul]
  unfold digit
  rw [UInt32.toNat_and, hfour, Nat.and_div_two_pow]
  exact Nat.and_mod_two_pow (n := 2)

/-! ### Words of a formation -/

namespace Formation

variable {f : Formation} {bits : Dancer → UInt32} {slot : Nat}

/-- The digit of a slot: zero if nobody stands there. -/
def slotDigit (f : Formation) (bits : Dancer → UInt32) (slot : Nat) : UInt32 :=
  (f.dancer? slot).elim 0 bits

/-- The word of the first slots. -/
def wordUpTo (f : Formation) (bits : Dancer → UInt32) (n : Nat) : UInt32 :=
  (List.range n).foldl (fun w slot => w <<< 2 ||| f.slotDigit bits slot) 0

/-- One slot more is one digit behind the others. -/
theorem wordUpTo_succ (n : Nat) :
    f.wordUpTo bits (n + 1) = f.wordUpTo bits n <<< 2 ||| f.slotDigit bits n := by
  rw [wordUpTo, List.range_succ, List.foldl_append]
  rfl

/-- The digit of a slot has two bits, if the code of a person has. -/
theorem slotDigit_lt (hbits : ∀ p, (bits p).toNat < 4) : (f.slotDigit bits slot).toNat < 4 := by
  unfold slotDigit
  cases f.dancer? slot with
  | none => exact Nat.succ_pos 3
  | some p => exact hbits p

/-- So many slots have so many digits. -/
theorem wordUpTo_lt (hbits : ∀ p, (bits p).toNat < 4) {n : Nat} (hn : n ≤ 16) :
    (f.wordUpTo bits n).toNat < 4 ^ n := by
  induction n with
  | zero => exact Nat.one_pos
  | succ n ih =>
    have hlt := ih (by omega)
    have hle : 4 ^ n ≤ 4 ^ 15 := Nat.pow_le_pow_right (by decide) (by omega)
    have hdigit : (f.slotDigit bits n).toNat < 4 := slotDigit_lt hbits
    rw [wordUpTo_succ, append_digit_toNat (by omega) hdigit, Nat.pow_succ]
    omega

/-- One slot more puts a digit behind the word, and no digit is lost: there are fifteen at most
before it is shifted. -/
theorem toNat_wordUpTo_succ (hbits : ∀ p, (bits p).toNat < 4) {n : Nat} (hn : n < 16) :
    (f.wordUpTo bits (n + 1)).toNat
      = 4 * (f.wordUpTo bits n).toNat + (f.slotDigit bits n).toNat := by
  have hlt := wordUpTo_lt (f := f) hbits (n := n) (by omega)
  have hle : 4 ^ n ≤ 4 ^ 15 := Nat.pow_le_pow_right (by decide) (by omega)
  rw [wordUpTo_succ, append_digit_toNat (by omega) (slotDigit_lt hbits)]

/-- The digits of the slots come from the highest one down. -/
theorem digit_wordUpTo (hbits : ∀ p, (bits p).toNat < 4) {n : Nat} (hn : n ≤ 16)
    (hslot : slot < n) :
    digit (f.wordUpTo bits n) (n - 1 - slot) = (f.slotDigit bits slot).toNat := by
  induction n with
  | zero => exact absurd hslot (Nat.not_lt_zero _)
  | succ n ih =>
    have hdigit : (f.slotDigit bits n).toNat < 4 := slotDigit_lt hbits
    rw [digit, toNat_wordUpTo_succ hbits (by omega)]
    by_cases hlast : slot = n
    · subst hlast
      rw [Nat.add_sub_cancel, Nat.sub_self, Nat.pow_zero, Nat.div_one]
      omega
    · rw [← ih (by omega) (by omega), digit]
      have hplace : n + 1 - 1 - slot = n - 1 - slot + 1 := by omega
      rw [hplace, Nat.pow_succ', ← Nat.div_div_eq_div_mul]
      congr 2
      omega

/-- **The word of a formation has a digit for each slot.** -/
theorem digit_word (hbits : ∀ p, (bits p).toNat < 4) (hslot : slot < f.size) :
    digit (f.word bits) (f.size - 1 - slot) = (f.slotDigit bits slot).toNat :=
  digit_wordUpTo hbits f.setup.size_le hslot

/-- A word has one digit for each slot. -/
theorem word_lt (hbits : ∀ p, (bits p).toNat < 4) : (f.word bits).toNat < 4 ^ f.size :=
  wordUpTo_lt hbits f.setup.size_le

/-! ### Directions and live slots -/

/-- A direction is told by two bits. -/
theorem code_lt_four (p : Dancer) : p.direction.code.toUInt32.toNat < 4 := by
  cases p.direction <;> decide

/-- Two bits mark a live slot. -/
theorem three_lt_four (_ : Dancer) : (3 : UInt32).toNat < 4 := by decide

/-- Everybody faces as the digit of a mask at their slot says. -/
def Faces (f : Formation) (mask : UInt32) : Prop :=
  ∀ slot < f.size, ∀ p, f.dancer? slot = some p →
    p.direction.code.toNat = digit mask (f.size - 1 - slot)

/-- **The directions are a masked word of live slots** when everybody faces as the mask says. -/
theorem directionsWord_eq_iff {mask : UInt32} :
    f.directionsWord = f.liveWord &&& mask ↔ f.Faces mask := by
  have hdigits : ∀ slot < f.size, (digit f.directionsWord (f.size - 1 - slot)
      = digit (f.liveWord &&& mask) (f.size - 1 - slot) ↔ ∀ p, f.dancer? slot = some p →
        p.direction.code.toNat = digit mask (f.size - 1 - slot)) := by
    intro slot hslot
    have hmask := digit_lt mask (f.size - 1 - slot)
    rw [digit_and, directionsWord, liveWord, digit_word code_lt_four hslot,
      digit_word three_lt_four hslot, slotDigit, slotDigit]
    cases f.dancer? slot with
    | none => simp
    | some p =>
      have hthree : (3 : UInt32).toNat &&& digit mask (f.size - 1 - slot)
          = digit mask (f.size - 1 - slot) := by
        change 2 ^ 2 - 1 &&& _ = _
        rw [Nat.and_comm, Nat.and_two_pow_sub_one_eq_mod]
        exact Nat.mod_eq_of_lt hmask
      simp only [Option.elim_some, UInt8.toNat_toUInt32, Option.some.injEq, forall_eq', hthree]
  constructor
  · intro heq slot hslot
    exact (hdigits slot hslot).1 (by rw [heq])
  · intro hfaces
    have hlive := word_lt (f := f) three_lt_four
    refine eq_of_digits (n := f.size) (word_lt code_lt_four) ?_ fun place hplace => ?_
    · rw [UInt32.toNat_and]
      exact Nat.lt_of_le_of_lt Nat.and_le_left hlive
    · have hslot : f.size - 1 - place < f.size := by omega
      have hback : f.size - 1 - (f.size - 1 - place) = place := by omega
      have hdigit := (hdigits _ hslot).2 (hfaces _ hslot)
      rwa [hback] at hdigit

/-- Which way the person on a slot faces; north if nobody stands there. -/
def facingAt (f : Formation) (slot : Nat) : Direction :=
  (f.dancer? slot).elim .north (·.direction)

/-- The digit of a slot is the direction there. -/
theorem digit_directionsWord (hslot : slot < f.size) :
    digit f.directionsWord (f.size - 1 - slot) = (f.facingAt slot).code.toNat := by
  rw [directionsWord, digit_word code_lt_four hslot, slotDigit, facingAt]
  cases f.dancer? slot with
  | none => rfl
  | some p => exact UInt8.toNat_toUInt32 _

/-- Two set bits for each of some slots. -/
def fullWord (n : Nat) : UInt32 := (List.range n).foldl (fun w _ => w <<< 2 ||| 3) 0

/-- Where every slot is live the word is full. -/
theorem wordUpTo_of_full {n : Nat} (h : ∀ slot < n, f.isLive slot = true) :
    f.wordUpTo (fun _ => 3) n = fullWord n := by
  induction n with
  | zero => rfl
  | succ n ih =>
    obtain ⟨p, hp⟩ := Option.isSome_iff_exists.1 (h n (Nat.lt_succ_self n))
    rw [wordUpTo_succ, ih fun slot hslot => h slot (Nat.lt_succ_of_lt hslot), slotDigit, hp,
      fullWord, fullWord, List.range_succ, List.foldl_append]
    rfl

/-- **Live slots** when everybody is there: all bits of the setup are set. -/
theorem liveWord_of_full (h : ∀ slot < f.size, f.isLive slot = true) :
    f.liveWord = fullWord f.size := wordUpTo_of_full h

end Formation

/-! ### Two slots at once -/

/-- Two directions as digits of a word, the second one lowest and the first one some places
above it. -/
def pairWord (gap : Nat) (d e : Direction) : UInt32 :=
  UInt32.ofNat (d.code.toNat * 4 ^ gap + e.code.toNat)

/-- A mask with two digits set keeps two digits. -/
theorem and_two_digits (v : Nat) {gap : Nat} (hgap : 0 < gap) :
    v &&& 3 * 4 ^ gap + 3 = v / 4 ^ gap % 4 * 4 ^ gap + v % 4 := by
  have hfour : 4 ^ gap = 2 ^ (2 * gap) := by rw [Nat.pow_mul]
  have hlt : ∀ n < 4, n < 4 ^ gap := fun n hn =>
    Nat.lt_of_lt_of_le hn (Nat.le_self_pow (Nat.ne_of_gt hgap) 4)
  have hhigh : v &&& 3 * 4 ^ gap = v / 4 ^ gap % 4 * 4 ^ gap := by
    rw [and_eq_field v (2 * gap) 2 (m := 3 * 4 ^ gap) (by rw [hfour]; rfl), ← hfour]
    rfl
  have hlow : v &&& 3 = v % 4 := Nat.and_two_pow_sub_one_eq_mod v 2
  rw [← mul_or_eq_add 3 _ hfour (hlt 3 (by decide)), Nat.and_or_distrib_left, hhigh, hlow,
    mul_or_eq_add _ _ hfour (hlt _ (Nat.mod_lt _ (by decide)))]

/-- A mask with two digits set takes two digits out of a word. -/
theorem and_pair (w : UInt32) {place gap : Nat} (hplace : place < 16) (hgap : 0 < gap)
    (hgap' : gap < 16) :
    (w >>> UInt32.ofNat (2 * place) &&& UInt32.ofNat (3 * 4 ^ gap + 3)).toNat
      = digit w (place + gap) * 4 ^ gap + digit w place := by
  have hle : 4 ^ gap ≤ 4 ^ 15 := Nat.pow_le_pow_right (by decide) (by omega)
  have hmask : 3 * 4 ^ gap + 3 < 2 ^ 32 := by omega
  have hshift : 2 * place < 2 ^ 32 := by omega
  rw [UInt32.toNat_and, UInt32.toNat_shiftRight, UInt32.toNat_ofNat_of_lt' hmask,
    UInt32.toNat_ofNat_of_lt' hshift, Nat.mod_eq_of_lt (by omega), Nat.shiftRight_eq_div_pow,
    and_two_digits _ hgap, Nat.pow_mul, Nat.div_div_eq_div_mul, ← Nat.pow_add]
  rfl

namespace Formation

variable {f : Formation}

/-- **Slots of a pair** are compared in both halves at once. -/
theorem and_pair_directionsWord {slot gap : Nat} (hgap : 0 < gap)
    (hslot : slot + gap < f.size) :
    f.directionsWord >>> UInt32.ofNat (2 * (f.size - 1 - (slot + gap)))
        &&& UInt32.ofNat (3 * 4 ^ gap + 3)
      = pairWord gap (f.facingAt slot) (f.facingAt (slot + gap)) := by
  have hsize : f.size ≤ 16 := f.setup.size_le
  have hle : 4 ^ gap ≤ 4 ^ 15 := Nat.pow_le_pow_right (by decide) (by omega)
  have hlt : ∀ d e : Direction, d.code.toNat * 4 ^ gap + e.code.toNat < 2 ^ 32 := by
    intro d e
    have hd : d.code.toNat * 4 ^ gap ≤ 3 * 4 ^ gap :=
      Nat.mul_le_mul_right _ (by cases d <;> decide)
    have he : e.code.toNat < 4 := by cases e <;> decide
    omega
  have hplace : f.size - 1 - (slot + gap) + gap = f.size - 1 - slot := by omega
  rw [← UInt32.toNat_inj, and_pair _ (by omega) hgap (by omega), hplace,
    digit_directionsWord (by omega), digit_directionsWord hslot, pairWord,
    UInt32.toNat_ofNat_of_lt' (hlt _ _)]

end Formation
end SquareDance
