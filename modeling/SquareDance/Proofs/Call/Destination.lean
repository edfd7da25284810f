/-
# The three forms of a destination

A destination is a text, a value and a halfword.  What a text spells has a halfword of its own, from
which the same value is read again, and the value spelled anew is read as itself, whatever the text
looked like: leading zeros and small letters are not kept.  What a halfword holds can be spelled,
and its own halfword is the one it came from, but for the bit 9 that nothing reads
(`text_value_word_agree`).
-/

import Mathlib.Tactic.IntervalCases
import SquareDance.Proofs.Call.Spelling
import SquareDance.Proofs.CallBook.Words
import SquareDance.Proofs.CallText.Entries

namespace SquareDance
namespace Destination

/-! ### Halfwords -/

/-- A field of five bits that stands for a position is what is written for it. -/
theorem positionField_of_position? {field : UInt16} {p : UInt8} (hf : field.toNat < 32)
    (h : position? field = some p) : positionField p = field := by
  have small : ∀ n < 32, (position? (UInt16.ofNat n)).all
      (fun p => positionField p == UInt16.ofNat n) = true := by
    decide
  have h' := small field.toNat hf
  rw [UInt16.ofNat_toNat, h] at h'
  exact beq_iff_eq.1 h'

/-- A field that stands for a slide mark, or for none, is what is written for it. -/
theorem slideField_of_slide? {field : UInt16} {s : Option SlideMark} (h : slide? field = some s) :
    slideField s = field := by
  unfold slide? at h
  split at h
  · rename_i hfield
    cases h
    exact hfield.symm
  · split at h
    · rename_i hfield
      cases h
      exact hfield.symm
    · split at h <;> cases h
      rename_i hfield
      exact hfield.symm

/-- Every field of two bits is what is written for the roll mark that is read from it. -/
theorem rollField_rollOf {field : UInt16} (hf : field.toNat < 4) :
    rollField (rollOf field) = field := by
  have small : ∀ n < 4, rollField (rollOf (UInt16.ofNat n)) = UInt16.ofNat n := by decide
  have h := small field.toNat hf
  rwa [UInt16.ofNat_toNat] at h

/-- Four bits that stand for a turn are what is written for it. -/
theorem bits_of_ofBits? {b : UInt16} {t : Turn} (hb : b.toNat < 16) (h : Turn.ofBits? b = some t) :
    t.bits = b := by
  have small : ∀ n < 16, (Turn.ofBits? (UInt16.ofNat n)).all
      (fun t => t.bits == UInt16.ofNat n) = true := by
    decide
  have h' := small b.toNat hb
  rw [UInt16.ofNat_toNat, h] at h'
  exact beq_iff_eq.1 h'

/-- The direction of a byte keeps the two lowest bits of it. -/
theorem code_ofBits (b : UInt8) : (Direction.ofBits b).code = b &&& 3 := by
  have hb : (b &&& 3).toNat < 4 := by
    rw [UInt8.toNat_and, and_eq_field _ 0 2 (m := (3 : UInt8).toNat) rfl]
    omega
  have small : ∀ n < 4, ∀ c : UInt8, c &&& 3 = UInt8.ofNat n →
      (Direction.ofBits c).code = UInt8.ofNat n := by
    intro n hn c hc
    rw [Direction.ofBits, hc]
    interval_cases n <;> rfl
  have h := small (b &&& 3).toNat hb b (by rw [UInt8.ofNat_toNat])
  rwa [UInt8.ofNat_toNat] at h

/-- The fields of a halfword side by side are the halfword without its bit 9. -/
theorem fields_eq_and (w : UInt16) :
    (w >>> 12) <<< 12 ||| ((w >>> 7 &&& (0x18 : UInt16)) ||| (w >>> 7 &&& (3 : UInt16))) <<< 7
      ||| (w >>> 2 &&& (0x1F : UInt16)) <<< 2 ||| (w &&& (3 : UInt16))
      = w &&& ~~~(0x0200 : UInt16) := by
  apply UInt16.toBitVec_inj.1
  ext i hi
  interval_cases i <;> simp

/-- **The halfword of what a halfword holds** is the same but for bit 9. -/
theorem word_of_ofWord? {w : UInt16} {y : Option UInt16} {d : Destination}
    (h : ofWord? w y = some d) : d.word = w &&& ~~~0x0200 := by
  unfold ofWord? at h
  simp only [Option.bind_eq_bind, Option.bind_eq_some_iff, Option.pure_def,
    Option.some.injEq] at h
  obtain ⟨p, hp, s, hs, t, ht, rfl⟩ := h
  have hposition : positionField p = w >>> 2 &&& 0x1F := by
    refine positionField_of_position? ?_ hp
    rw [UInt16.toNat_and, and_eq_field _ 0 5 (m := (0x1F : UInt16).toNat) rfl]
    omega
  have hroll : rollField (rollOf (w >>> 7 &&& 3)) = w >>> 7 &&& 3 := by
    refine rollField_rollOf ?_
    rw [UInt16.toNat_and, and_eq_field _ 0 2 (m := (3 : UInt16).toNat) rfl]
    omega
  have hturn : t.bits = w >>> 12 := by
    refine bits_of_ofBits? ?_ ht
    have hw := w.toNat_lt
    rw [UInt16.toNat_shiftRight, Nat.shiftRight_eq_div_pow]
    simp only [UInt16.reduceToNat, Nat.reduceMod, Nat.reducePow]
    omega
  have hdirection : (Direction.ofBits w.toUInt8).code.toUInt16 = w &&& 3 := by
    rw [code_ofBits]
    apply UInt16.toNat_inj.1
    rw [UInt8.toNat_toUInt16, UInt8.toNat_and, UInt16.toNat_toUInt8, UInt16.toNat_and,
      and_eq_field _ 0 2 (m := (3 : UInt8).toNat) rfl,
      and_eq_field _ 0 2 (m := (3 : UInt16).toNat) rfl]
    simp only [Nat.reducePow]
    omega
  rw [word, hturn, slideField_of_slide? hs, hroll, hposition, hdirection]
  exact fields_eq_and w

/-! ### Texts -/

/-- A digit is the same in capitals. -/
theorem toUpper_of_isDigit {c : Char} (h : c.isDigit = true) : c.toUpper = c := by
  rw [Char.isDigit, Bool.and_eq_true, decide_eq_true_eq, decide_eq_true_eq] at h
  exact dif_neg fun hsmall => absurd (UInt32.le_trans hsmall.1 h.2) (by decide)

/-- A spelling has no small letters. -/
theorem map_toUpper_spelling (d : Destination) :
    d.spelling.toList.map Char.toUpper = d.spelling.toList := by
  have hturn : d.turn.letters.map Char.toUpper = d.turn.letters := by
    rcases d.turn with ⟨code, reverse⟩
    cases code <;> cases reverse <;> rfl
  have hslide : (d.slide.toList.map SlideMark.letter).map Char.toUpper
      = d.slide.toList.map SlideMark.letter := by
    rcases d.slide with _ | _ | _ <;> rfl
  have hroll : (d.roll.toList.map RollMark.letter).map Char.toUpper
      = d.roll.toList.map RollMark.letter := by
    rcases d.roll with _ | _ | _ | _ <;> rfl
  have hdigits : (Nat.toDigits 10 d.position.toNat).map Char.toUpper
      = Nat.toDigits 10 d.position.toNat := by
    refine (List.map_congr_left fun c hc => toUpper_of_isDigit ?_).trans (List.map_id' _)
    exact Nat.isDigit_of_mem_toDigits (by decide) (by decide) hc
  have hdirection : [d.direction.letter].map Char.toUpper = [d.direction.letter] := by
    cases d.direction <;> rfl
  rw [spelling, String.toList_ofList, marks]
  simp only [List.map_append, hturn, hslide, hroll, hdigits, hdirection]

/-- **A destination is read from its spelling**, if its spot is one that can be packed. -/
theorem ofText_spelling {d : Destination} (h : isValidPosition d.position.toNat = true) :
    ofText d.spelling = .ok { d with y := none } := by
  refine ofText_eq_ok_iff_isSpelled.2
    ⟨Nat.toDigits 10 d.position.toNat, isSpelled_iff.2 ⟨?_, ?_, ?_, h, rfl⟩⟩
  · rw [map_toUpper_spelling, spelling, String.toList_ofList]
    rfl
  · exact fun c hc => Nat.isDigit_of_mem_toDigits (by decide) (by decide) hc
  · exact (Nat.ofDigitChars_toDigits (by decide) (by decide)).symm

/-- **The text, the value and the halfword of a destination agree.**  What is read from a text has a
halfword that holds it and a text from which it is read; what a halfword holds has a text from which
it is read and a halfword that is the same but for bit 9. -/
theorem text_value_word_agree :
    (∀ s d, ofText s = .ok d →
      isValidPosition d.position.toNat = true ∧ d.word ≠ 0 ∧
        (∀ y, ofWord? d.word y = some { d with y }) ∧ ofText d.render = .ok d) ∧
    ∀ w y d, ofWord? w y = some d →
      ofText d.spelling = .ok { d with y := none } ∧ d.word = w &&& ~~~0x0200 := by
  constructor
  · intro s d h
    obtain ⟨hvalid, hy⟩ := of_ofText h
    refine ⟨hvalid, word_ne_zero hvalid, ofWord?_word hvalid, ?_⟩
    obtain ⟨turn, slide, roll, position, direction, y⟩ := d
    obtain rfl : y = none := hy
    exact ofText_spelling hvalid
  · intro w y d h
    exact ⟨ofText_spelling (isValidPosition_of_ofWord? h).1, word_of_ofWord? h⟩

/-- Small letters and leading zeros are not kept, and neither is bit 9. -/
theorem text_value_word_agree_caFl012w :
    let d : Destination := { turn := ⟨.ac, true⟩, slide := some .f, roll := some .l, position := 12,
                             direction := .west }
    ofText "caFl012w" = .ok d ∧ d.render = "CAFL12W" ∧ ofText d.render = .ok d ∧
      ofWord? 0xAB37 (some 5) = some { d with y := some 5 } ∧ d.word = 0xA937 := by
  intro d
  have hword : ofWord? 0xAB37 (some 5) = some { d with y := some 5 } := by decide
  exact ⟨rfl, by decide +kernel, (text_value_word_agree.1 "caFl012w" d rfl).2.2.2, hword,
    (text_value_word_agree.2 0xAB37 (some 5) { d with y := some 5 } hword).2⟩

end Destination
end SquareDance
