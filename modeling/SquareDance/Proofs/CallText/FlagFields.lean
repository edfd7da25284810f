/-
# Fields of flags and the words that they are read from

A body begins with its flags, the flags of its array definitions, and the word for its schema:

    step_to_wave need_two_numbers lateral_to_selectees setup ...

Most flags are single bits.  Four fields hold codes: which fractions of the call are visible,
whether people first step to a wave or rear back, how many numbers the call needs, and its class
as a tagging call.  A field is to hold what one word says.  `BodyHead.Gives` says what the fields
of a body hold, and what the catalog of a search makes of them.

Of the words for stepping and rearing only one is accepted.  The others are put into their fields
bit by bit, so that different words of one field make what neither says: `flags_mixedHead`.
-/

import SquareDance.Search.Catalog
import SquareDance.Proofs.CallText.ArrayBlocks

namespace SquareDance

open CallFlags

namespace CallText

/-! ### Flag words -/

namespace FlagWord

/-- The bits of a flag in `flags1`. -/
def bits : FlagWord → UInt32
  | .basic b | .basicOnce b | .stepRear b => b
  | .overflow _ | .heritable _ => 0

/-- The flag words, each with its flag. -/
def entries : List (String × FlagWord) :=
  (Words.callFlags.zipIdx.map fun p => (p.1, ofIndex p.2)) ++
    ((specialWords.filterMap fun w => (ofSpecialWord? w).map (w, ·)) ++
      Words.heritableFlags.zipIdx.map fun p => (p.1, .heritable (Words.bit p.2)))

/-- A word that is a flag is among the flag words. -/
theorem mem_entries {w : String} {flag : FlagWord} (h : ofWord? w = some flag) :
    (w, flag) ∈ entries := by
  simp only [ofWord?, Option.orElse_eq_orElse, Option.orElse_eq_or, Option.or_eq_some_iff] at h
  simp only [entries, List.mem_append]
  rcases h with h | ⟨-, h | ⟨-, h⟩⟩
  · obtain ⟨i, hi, rfl⟩ := Option.map_eq_some_iff.1 h
    exact .inl (List.mem_map.2
      ⟨(w, i), List.mk_mem_zipIdx_iff_getElem?.2 (Vocabulary.getElem?_of_index? hi), rfl⟩)
  · exact .inr (.inl (List.mem_filterMap.2 ⟨w, mem_specialWords h, by rw [h]; rfl⟩))
  · obtain ⟨i, hi, rfl⟩ := Option.map_eq_some_iff.1 h
    exact .inr (.inr (List.mem_map.2
      ⟨(w, i), List.mk_mem_zipIdx_iff_getElem?.2 (Vocabulary.getElem?_of_index? hi), rfl⟩))

end FlagWord

/-- A flag of a body as a text has it. -/
structure FlagText where
  word : String
  flag : FlagWord
  isFlag : FlagWord.ofWord? word = some flag

/-- The flag that a word is, if it is one. -/
def FlagText.ofWord? (word : String) : Option FlagText :=
  match h : FlagWord.ofWord? word with
  | some flag => some ⟨word, flag, h⟩
  | none => none

/-- A flag is accepted only if it keeps to its rule against the flags before it. -/
theorem add_eq_ok {flags flags' : CallFlags} {flag : FlagWord} (h : flags.add flag = .ok flags') :
    flags'.flags1 = flags.flags1 ||| flag.bits ∧
      (∀ b, flag = .stepRear b → flags.flags1 &&& stepRearMask = 0) ∧
        ∀ b, flag = .basicOnce b → flags.flags1 &&& b = 0 := by
  cases flag with
  | basic b =>
    cases h
    exact ⟨rfl, by simp, by simp⟩
  | basicOnce b =>
    rw [add] at h
    split at h
    · cases h
    · rename_i hb
      cases h
      refine ⟨rfl, by simp, fun b' hb' => ?_⟩
      cases hb'
      exact not_not.1 hb
  | stepRear b =>
    rw [add] at h
    split at h
    · cases h
    · rename_i hb
      cases h
      exact ⟨rfl, fun _ _ => not_not.1 hb, by simp⟩
  | overflow b =>
    cases h
    exact ⟨UInt32.or_zero.symm, by simp, by simp⟩
  | heritable b =>
    rw [add] at h
    split at h
    · cases h
    · cases h
      exact ⟨UInt32.or_zero.symm, by simp, by simp⟩

/-! ### Fields -/

/-- A field that holds a code, and the words for its codes. -/
structure CodeField where
  unit : UInt32
  mask : UInt32
  codes : List (String × UInt32)

namespace CodeField

/-- Which fractions of the call are visible. -/
def visibleFractions : CodeField where
  unit := visibleFractionUnit
  mask := 0x7
  codes := [("first_part_visible", 1), ("first_two_parts_visible", 2), ("last_part_visible", 3),
    ("last_two_parts_visible", 4), ("first_and_last_parts_visible", 5), ("visible_fractions", 7)]

/-- What people first do. -/
def stepsAndRears : CodeField where
  unit := 0x800
  mask := stepRearMask
  codes := [("step_to_wave", 1), ("rear_back_from_r_wave", 2), ("step_to_nonphantom_box", 3),
    ("rear_back_from_qtag", 4), ("rear_back_from_wave_or_qtag", 5), ("step_to_qtag", 6)]

/-- How many numbers the call needs; 7 stands for an optional one. -/
def numbers : CodeField where
  unit := numberUnit
  mask := numberMask
  codes := [("neednumber", 1), ("need_two_numbers", 2), ("need_three_numbers", 3),
    ("need_four_numbers", 4), ("optional_special_number", 7)]

/-- One more than the class of a tagging call. -/
def taggers : CodeField where
  unit := taggerUnit
  mask := taggerMask
  codes := [("base_tag_call_0", 1), ("base_tag_call_1", 2), ("base_tag_call_2", 3),
    ("base_tag_call_3", 4)]

/-- All fields that hold a code. -/
def all : List CodeField := [visibleFractions, stepsAndRears, numbers, taggers]

/-- The field for steps and rears is one of the four. -/
theorem stepsAndRears_mem_all : stepsAndRears ∈ all := by simp [all]

/-- The field for numbers is one of the four. -/
theorem numbers_mem_all : numbers ∈ all := by simp [all]

/-- The field for taggers is one of the four. -/
theorem taggers_mem_all : taggers ∈ all := by simp [all]

variable {f : CodeField}

/-- The code that a word stands for. -/
def code? (f : CodeField) (w : String) : Option UInt32 := f.codes.lookup w

/-- The codes that flags say, in their order. -/
def said (f : CodeField) (ts : List FlagText) : List UInt32 := ts.filterMap fun t => f.code? t.word

/-- **A flag has its code in the field and nothing else there.** -/
theorem bits_and_mask (hf : f ∈ all) (t : FlagText) :
    t.flag.bits &&& f.mask = ((f.code? t.word).map (f.unit * ·)).getD 0 := by
  have hall : ∀ f ∈ all, ∀ e ∈ FlagWord.entries,
      e.2.bits &&& f.mask = ((f.code? e.1).map (f.unit * ·)).getD 0 := by decide +kernel
  exact hall f hf _ (FlagWord.mem_entries t.isFlag)

/-- **A field holds the codes that the flags say**, all together. -/
theorem orAll_bits_and_mask (hf : f ∈ all) (ts : List FlagText) :
    orAll (ts.map (·.flag.bits)) &&& f.mask = orAll ((f.said ts).map (f.unit * ·)) := by
  rw [orAll_map_and (bits_and_mask hf), said, List.map_filterMap]

/-- A code that a word stands for is one of the field. -/
theorem mem_codes {w : String} {n : UInt32} (h : f.code? w = some n) : (w, n) ∈ f.codes := by
  obtain ⟨before, after, hcodes, -⟩ := List.lookup_eq_some_iff.1 h
  rw [hcodes]
  simp

/-- A code that is said is one of the field. -/
theorem mem_codes_of_mem_said {ts : List FlagText} {n : UInt32} (h : n ∈ f.said ts) :
    ∃ w, (w, n) ∈ f.codes := by
  obtain ⟨t, -, ht⟩ := List.mem_filterMap.1 h
  exact ⟨_, mem_codes ht⟩

/-- Codes are no zeros, and are told from their bits. -/
theorem unit_mul {n : UInt32} (hf : f ∈ all) (h : ∃ w, (w, n) ∈ f.codes) :
    f.unit * n ≠ 0 ∧ f.unit * n / f.unit = n := by
  have hall : ∀ f ∈ all, ∀ p ∈ f.codes, f.unit * p.2 ≠ 0 ∧ f.unit * p.2 / f.unit = p.2 := by
    decide
  obtain ⟨w, h⟩ := h
  exact hall f hf _ h

/-- One flag more may say one code more. -/
theorem said_concat (f : CodeField) (ts : List FlagText) (t : FlagText) :
    f.said (ts ++ [t]) = f.said ts ++ (f.code? t.word).toList := by
  cases ht : f.code? t.word <;> simp [said, ht]

/-- Where a field has no bits no flag says a code. -/
theorem said_eq_nil {ts : List FlagText} (hf : f ∈ all)
    (h : orAll (ts.map (·.flag.bits)) &&& f.mask = 0) : f.said ts = [] := by
  rw [orAll_bits_and_mask hf, orAll_eq_zero_iff] at h
  exact List.eq_nil_iff_forall_not_mem.2 fun n hn =>
    (unit_mul hf (mem_codes_of_mem_said hn)).1 (h _ (List.mem_map_of_mem hn))

/-- Where the field for classes has no bit of the code 3 no flag says a code with one. -/
theorem and_three_of_mem_said {ts : List FlagText}
    (h : orAll (ts.map (·.flag.bits)) &&& (taggers.unit * 3) = 0) {n : UInt32}
    (hn : n ∈ taggers.said ts) : n &&& 3 = 0 := by
  have hmask : taggers.unit * 3 = taggers.mask &&& (taggers.unit * 3) := by decide
  have hcodes : ∀ p ∈ taggers.codes,
      taggers.unit * p.2 &&& taggers.unit * 3 = 0 → p.2 &&& 3 = 0 := by decide
  rw [hmask, ← UInt32.and_assoc, orAll_bits_and_mask taggers_mem_all, orAll_and_eq_zero_iff] at h
  obtain ⟨w, hw⟩ := mem_codes_of_mem_said hn
  exact hcodes _ hw (h _ (List.mem_map_of_mem hn))

/-- Codes are all the same. -/
def Agree (codes : List UInt32) : Prop := ∀ n ∈ codes, ∀ m ∈ codes, n = m

/-- At most one code agrees with itself. -/
theorem agree_of_length_le_one {codes : List UInt32} (h : codes.length ≤ 1) : Agree codes := by
  match codes, h with
  | [], _ => exact fun n hn => nomatch hn
  | [n], _ => simp [Agree]

/-- A field holds the code of a word, or nothing where there is none. -/
def Holds (f : CodeField) (codes : List UInt32) (flags1 : UInt32) : Prop :=
  codes = [] ∧ flags1 &&& f.mask = 0 ∨ ∃ n ∈ codes, flags1 &&& f.mask = f.unit * n

instance (f : CodeField) (codes : List UInt32) (flags1 : UInt32) :
    Decidable (f.Holds codes flags1) := inferInstanceAs (Decidable (_ ∨ _))

/-- **A field whose words agree holds what they say.** -/
theorem holds_of_agree {codes : List UInt32} {flags1 : UInt32}
    (hbits : flags1 &&& f.mask = orAll (codes.map (f.unit * ·)))
    (hagree : Agree codes) : f.Holds codes flags1 := by
  cases codes with
  | nil => exact .inl ⟨rfl, hbits⟩
  | cons n rest =>
    have hn : n ∈ n :: rest := List.mem_cons_self
    refine .inr ⟨n, hn, hbits.trans (orAll_of_forall_eq ?_ (List.mem_map_of_mem hn))⟩
    intro x hx
    obtain ⟨m, hm, rfl⟩ := List.mem_map.1 hx
    rw [hagree m hm n hn]

end CodeField

open CodeField

/-- What is known of flags that were accepted one after another. -/
structure AreAccepted (ts : List FlagText) (flags1 : UInt32) : Prop where
  all : flags1 = orAll (ts.map (·.flag.bits))
  step : (stepsAndRears.said ts).length ≤ 1
  /-- The word for class 2 stands behind no word with whose code its own has a bit in common. -/
  tagger : (taggers.said ts).Pairwise fun n m => m = 3 → n &&& m = 0

namespace AreAccepted

variable {ts : List FlagText} {t : FlagText} {flags flags' : CallFlags}

/-- The words for steps are for flags of which there is only one. -/
theorem flag_of_step {n : UInt32} (h : stepsAndRears.code? t.word = some n) :
    ∃ b, t.flag = .stepRear b := by
  have hall : ∀ e ∈ FlagWord.entries, (stepsAndRears.code? e.1).isSome →
      e.2 = .stepRear e.2.bits := by decide +kernel
  exact ⟨_, hall _ (FlagWord.mem_entries t.isFlag) (by rw [h]; rfl)⟩

/-- The word for class 2 is for a flag that is added once. -/
theorem flag_of_tagger (h : taggers.code? t.word = some 3) :
    t.flag = .basicOnce (taggers.unit * 3) := by
  have hall : ∀ e ∈ FlagWord.entries, taggers.code? e.1 = some 3 →
      e.2 = .basicOnce (taggers.unit * 3) := by decide +kernel
  exact hall _ (FlagWord.mem_entries t.isFlag) h

/-- **One more flag is accepted behind others.** -/
theorem concat (h : AreAccepted ts flags.flags1) (ht : flags.add t.flag = .ok flags') :
    AreAccepted (ts ++ [t]) flags'.flags1 := by
  obtain ⟨hflags, hstep, htagger⟩ := add_eq_ok ht
  constructor
  · rw [hflags, h.all, List.map_append, List.map_singleton, orAll_concat]
  · rw [said_concat]
    cases hcode : stepsAndRears.code? t.word with
    | none => exact (List.append_nil _).symm ▸ h.step
    | some n =>
      obtain ⟨b, hb⟩ := flag_of_step hcode
      have hzero := h.all ▸ hstep b hb
      rw [said_eq_nil stepsAndRears_mem_all hzero]
      exact Nat.le_refl 1
  · rw [said_concat, List.pairwise_append]
    refine ⟨h.tagger, ?_, fun n hn m hm hthree => ?_⟩
    · cases taggers.code? t.word with
      | none => exact .nil
      | some n => exact List.pairwise_singleton _ _
    · have hcode : taggers.code? t.word = some 3 := by simpa [hthree] using hm
      have hzero := h.all ▸ htagger _ (flag_of_tagger hcode)
      rw [hthree]
      exact and_three_of_mem_said hzero hn

end AreAccepted

/-! ### What the catalog makes of fields -/

/-- A body is a matrix that takes a number. -/
def takesNumber (b : CallBody) : Bool :=
  match b.definition with
  | .matrix flags _ => flags &&& CatalogCall.matrixTakesNumber != 0
  | _ => false

/-- The catalog has the flags of a call, and a number for a matrix that takes one. -/
theorem flags1_ofCall (c : Call) : (CatalogCall.ofCall c).flags1
    = c.body.flags.flags1 ||| if takesNumber c.body then numberUnit else 0 := by
  cases hd : c.body.definition with
  | matrix flags _ =>
    simp only [CatalogCall.ofCall, takesNumber, hd, CatalogCall.make, bne_iff_ne]
    split
    · rfl
    · exact UInt32.or_zero.symm
  | _ => simp [CatalogCall.ofCall, takesNumber, hd, CatalogCall.make]

namespace CodeField

variable {f : CodeField} {codes : List UInt32} {flags1 : UInt32}

/-- The code that is taken out of a field is the one that it holds. -/
theorem Holds.code (hf : f ∈ all) (hcodes : ∀ n ∈ codes, ∃ w, (w, n) ∈ f.codes)
    (h : f.Holds codes flags1) : codes = [] ∧ (flags1 &&& f.mask) / f.unit = 0 ∨
      ∃ n ∈ codes, (flags1 &&& f.mask) / f.unit = n := by
  obtain ⟨hnil, hzero⟩ | ⟨n, hn, hbits⟩ := h
  · exact .inl ⟨hnil, by rw [hzero, UInt32.zero_div]⟩
  · exact .inr ⟨n, hn, by rw [hbits, (unit_mul hf (hcodes n hn)).2]⟩

end CodeField

/-! ### Heads of bodies -/

/-- The head of a body as a text has it. -/
structure BodyHead where
  flags : List FlagText
  arrayWords : List String
  areArrayFlags : ∀ w ∈ arrayWords, (ArrayFlags.ofWord? w).isSome
  schema : String

namespace BodyHead

/-- The tokens of the head of a body. -/
def tokens (k : BodyHead) : List Token :=
  (k.flags.map (·.word) ++ (k.arrayWords ++ [k.schema])).map .word

/-- The numbers that a body asks for, with its flags and as a matrix that takes one. -/
def numbersAsked (k : BodyHead) (b : CallBody) : List UInt32 :=
  numbers.said k.flags ++ if takesNumber b then [1] else []

/-- What is known of a body that has been read from its head. -/
structure Gives (k : BodyHead) (b : CallBody) : Prop where
  schema : Schema.ofName? k.schema = some b.schema
  /-- Fields hold all the codes that the flags say, and one where these agree. -/
  field : ∀ f ∈ CodeField.all,
    b.flags.flags1 &&& f.mask = orAll ((f.said k.flags).map (f.unit * ·)) ∧
      (Agree (f.said k.flags) → f.Holds (f.said k.flags) b.flags.flags1)
  step : (stepsAndRears.said k.flags).length ≤ 1 ∧
    stepsAndRears.Holds (stepsAndRears.said k.flags) b.flags.flags1
  /-- The word for class 2 stands behind no word with whose code its own has a bit in common. -/
  tagger : (taggers.said k.flags).Pairwise fun n m => m = 3 → n &&& m = 0
  numberCount : ∀ c : Call, c.body = b → Agree (k.numbersAsked b) →
    k.numbersAsked b = [] ∧ (CatalogCall.ofCall c).numberCount = 0 ∨
      ∃ n ∈ k.numbersAsked b, (CatalogCall.ofCall c).numberCount = n.toNat
  taggerClass : ∀ c : Call, c.body = b → Agree (taggers.said k.flags) →
    taggers.said k.flags = [] ∧ (CatalogCall.ofCall c).taggerClass? = none ∨
      ∃ n ∈ taggers.said k.flags, (CatalogCall.ofCall c).taggerClass? = some (n.toNat - 1)

variable {k : BodyHead} {c : Call}

/-- The number that the catalog has for a call is one that its main body asks for. -/
theorem numberCount_of_agree (h : AreAccepted k.flags c.body.flags.flags1)
    (hagree : Agree (k.numbersAsked c.body)) :
    k.numbersAsked c.body = [] ∧ (CatalogCall.ofCall c).numberCount = 0 ∨
      ∃ n ∈ k.numbersAsked c.body, (CatalogCall.ofCall c).numberCount = n.toNat := by
  have hbits : (CatalogCall.ofCall c).flags1 &&& numbers.mask
      = orAll ((k.numbersAsked c.body).map (numbers.unit * ·)) := by
    rw [flags1_ofCall, UInt32.or_and_distrib, h.all, orAll_bits_and_mask numbers_mem_all,
      numbersAsked, List.map_append, orAll_append]
    cases takesNumber c.body <;> rfl
  have hcodes : ∀ n ∈ k.numbersAsked c.body, ∃ w, (w, n) ∈ numbers.codes := by
    intro n hn
    rcases List.mem_append.1 hn with hn | hn
    · exact mem_codes_of_mem_said hn
    · refine ⟨"neednumber", ?_⟩
      cases hm : takesNumber c.body <;> rw [hm] at hn
      · cases hn
      · rw [List.mem_singleton.1 hn]
        decide
  obtain ⟨hnil, hzero⟩ | ⟨n, hn, hcode⟩ := (holds_of_agree hbits hagree).code numbers_mem_all hcodes
  · exact .inl ⟨hnil, congrArg UInt32.toNat hzero⟩
  · exact .inr ⟨n, hn, congrArg UInt32.toNat hcode⟩

/-- The class of a call is one less than its code. -/
theorem taggerClass?_of_code {c : CatalogCall} {n : UInt32}
    (h : (c.flags1 &&& taggers.mask) / taggers.unit = n) :
    c.taggerClass? = if n.toNat = 0 then none else some (n.toNat - 1) := by
  subst h
  rw [CatalogCall.taggerClass?]
  split <;> simp_all [taggers]

/-- The class that the catalog has for a call is one that its main body says. -/
theorem taggerClass_of_agree (h : AreAccepted k.flags c.body.flags.flags1)
    (hagree : Agree (taggers.said k.flags)) :
    taggers.said k.flags = [] ∧ (CatalogCall.ofCall c).taggerClass? = none ∨
      ∃ n ∈ taggers.said k.flags, (CatalogCall.ofCall c).taggerClass? = some (n.toNat - 1) := by
  have hbits : (CatalogCall.ofCall c).flags1 &&& taggers.mask
      = orAll ((taggers.said k.flags).map (taggers.unit * ·)) := by
    rw [flags1_ofCall, UInt32.or_and_distrib, h.all, orAll_bits_and_mask taggers_mem_all]
    cases takesNumber c.body <;> exact UInt32.or_zero
  obtain ⟨hnil, hzero⟩ | ⟨n, hn, hcode⟩ := (holds_of_agree hbits hagree).code taggers_mem_all
    fun _ => mem_codes_of_mem_said
  · exact .inl ⟨hnil, taggerClass?_of_code hzero⟩
  · have hpos : ∀ p ∈ taggers.codes, p.2.toNat ≠ 0 := by decide
    obtain ⟨w, hw⟩ := mem_codes_of_mem_said hn
    exact .inr ⟨n, hn, (taggerClass?_of_code hcode).trans (if_neg (hpos _ hw))⟩

/-- **Flags that were accepted give the fields of a body.** -/
theorem gives_of_areAccepted {b : CallBody} (hschema : Schema.ofName? k.schema = some b.schema)
    (h : AreAccepted k.flags b.flags.flags1) : k.Gives b := by
  have hfield : ∀ f ∈ CodeField.all,
      b.flags.flags1 &&& f.mask = orAll ((f.said k.flags).map (f.unit * ·)) := by
    intro f hf
    rw [h.all, orAll_bits_and_mask hf]
  refine ⟨hschema, fun f hf => ⟨hfield f hf, holds_of_agree (hfield f hf)⟩,
    ⟨h.step, holds_of_agree (hfield _ stepsAndRears_mem_all) (agree_of_length_le_one h.step)⟩,
    h.tagger, ?_, ?_⟩
  · rintro c rfl hagree
    exact numberCount_of_agree h hagree
  · rintro c rfl hagree
    exact taggerClass_of_agree h hagree

end BodyHead

/-- A passage is the head of a body and gives what the body has. -/
def IsHeadOf (b : CallBody) (passage : List Token) : Prop :=
  ∃ k : BodyHead, passage = k.tokens ∧ k.Gives b

namespace Parser

open Consumer

variable {r rest : Reading}

/-- A turn of the loop stops, or takes a flag. -/
theorem callFlagStep_eq_ok {flags : CallFlags} {out : CallFlags ⊕ CallFlags}
    (h : callFlagStep flags r = .ok (out, rest)) : (out = .inr flags ∧ r = rest) ∨
      ∃ (t : FlagText) (flags' : CallFlags), r.tokens = .word t.word :: rest.tokens ∧
        flags.add t.flag = .ok flags' ∧ out = .inl flags' := by
  obtain ⟨word, r₁, h₁, h⟩ := bind_eq_ok.1 h
  obtain ⟨htokens, rfl⟩ := eq_cons_of_symbolHere h₁
  cases hw : FlagWord.ofWord? word with
  | none =>
    rw [hw] at h
    obtain ⟨rfl, rfl⟩ := pure_eq_ok.1 h
    exact .inl ⟨rfl, rfl⟩
  | some flag =>
    rw [hw] at h
    obtain ⟨flags', r₂, h₂, h⟩ := bind_eq_ok.1 h
    obtain ⟨hadd, rfl⟩ := accepted_eq_ok.1 h₂
    obtain ⟨_, r₃, h₃, h⟩ := bind_eq_ok.1 h
    obtain ⟨rfl, rfl⟩ := pure_eq_ok.1 h
    exact .inr ⟨⟨word, flag, hw⟩, flags', by rw [htokens, tail_of_advance h₃], hadd, rfl⟩

/-- **The turns of the loop take flags**, by induction on them; those before a turn have made the
flags that it begins with. -/
theorem callFlags_eq_ok {flags : CallFlags} (h : callFlags r = .ok (flags, rest)) :
    ∃ ts : List FlagText, r.tokens = ts.map (.word ·.word) ++ rest.tokens ∧
      AreAccepted ts flags.flags1 := by
  have hnone : AreAccepted [] (0 : UInt32) := ⟨rfl, Nat.zero_le 1, .nil⟩
  refine loop_induct (motive := fun flags r flags' rest => ∀ past : List FlagText,
    AreAccepted past flags.flags1 → ∃ ts : List FlagText,
      r.tokens = ts.map (.word ·.word) ++ rest.tokens ∧ AreAccepted (past ++ ts) flags'.flags1)
    ?_ ?_ h [] hnone
  · intro flags r flags' rest h past hpast
    obtain ⟨hout, rfl⟩ | ⟨_, _, -, -, hout⟩ := callFlagStep_eq_ok h
    · cases hout
      exact ⟨[], rfl, by rwa [List.append_nil]⟩
    · cases hout
  · intro flags r flags₁ mid flags' rest h ih past hpast
    obtain ⟨hout, -⟩ | ⟨t, _, htokens, hadd, hout⟩ := callFlagStep_eq_ok h
    · cases hout
    · cases hout
      obtain ⟨ts, hmid, hts⟩ := ih _ (hpast.concat hadd)
      refine ⟨t :: ts, by rw [htokens, hmid]; rfl, ?_⟩
      rwa [List.append_assoc] at hts

/-- A turn of the loop stops, or takes a flag of array definitions. -/
theorem arrayFlagStep_eq_ok {flags : UInt32} {out : UInt32 ⊕ UInt32}
    (h : arrayFlagStep flags r = .ok (out, rest)) : (out = .inr flags ∧ r = rest) ∨
      ∃ w bits, ArrayFlags.ofWord? w = some bits ∧ r.tokens = .word w :: rest.tokens ∧
        out = .inl (flags ||| bits) := by
  obtain ⟨word, r₁, h₁, h⟩ := bind_eq_ok.1 h
  obtain ⟨htokens, rfl⟩ := eq_cons_of_symbolHere h₁
  cases hw : ArrayFlags.ofWord? word with
  | none =>
    rw [hw] at h
    obtain ⟨rfl, rfl⟩ := pure_eq_ok.1 h
    exact .inl ⟨rfl, rfl⟩
  | some bits =>
    rw [hw] at h
    obtain ⟨_, r₂, h₂, h⟩ := bind_eq_ok.1 h
    obtain ⟨rfl, rfl⟩ := pure_eq_ok.1 h
    exact .inr ⟨word, bits, hw, by rw [htokens, tail_of_advance h₂], rfl⟩

/-- The turns of the loop take flags of array definitions, by induction on them. -/
theorem arrayFlags_eq_ok {flags : UInt32} (h : arrayFlags r = .ok (flags, rest)) :
    ∃ ws : List String, (∀ w ∈ ws, (ArrayFlags.ofWord? w).isSome) ∧
      r.tokens = ws.map .word ++ rest.tokens := by
  refine loop_induct (motive := fun _ r _ rest => ∃ ws : List String,
    (∀ w ∈ ws, (ArrayFlags.ofWord? w).isSome) ∧ r.tokens = ws.map .word ++ rest.tokens) ?_ ?_ h
  · intro flags r flags' rest h
    obtain ⟨-, rfl⟩ | ⟨_, _, -, -, hout⟩ := arrayFlagStep_eq_ok h
    · exact ⟨[], by simp, rfl⟩
    · cases hout
  · intro flags r flags₁ mid flags' rest h ih
    obtain ⟨hout, -⟩ | ⟨w, bits, hw, htokens, -⟩ := arrayFlagStep_eq_ok h
    · cases hout
    · obtain ⟨ws, hws, hmid⟩ := ih
      have hsome : (ArrayFlags.ofWord? w).isSome := by
        rw [hw]
        rfl
      refine ⟨w :: ws, List.forall_mem_cons.2 ⟨hsome, hws⟩, ?_⟩
      rw [htokens, hmid]
      rfl

/-- **A body is read from its head** and what comes behind. -/
theorem between_head : BodiesHave IsHeadOf fun b => [b] := by
  intro isTagged r b rest h
  obtain ⟨flags, r₁, h₁, h⟩ := bind_eq_ok.1 h
  obtain ⟨aflags, r₂, h₂, h⟩ := bind_eq_ok.1 h
  obtain ⟨word, r₃, h₃, h⟩ := bind_eq_ok.1 h
  obtain ⟨hword, rfl⟩ := eq_cons_of_symbolHere h₃
  obtain ⟨schema, r₄, h₄, h⟩ := bind_eq_ok.1 h
  obtain ⟨hschema, rfl⟩ := orFail_eq_ok.1 h₄
  split at h
  · cases h
  · obtain ⟨d, r₅, h₅, h⟩ := bind_eq_ok.1 h
    obtain ⟨rfl, rfl⟩ := pure_eq_ok.1 h
    obtain ⟨ts, hflags, haccepted⟩ := callFlags_eq_ok h₁
    obtain ⟨ws, hws, harray⟩ := arrayFlags_eq_ok h₂
    have hsuffix := (reaches_definition h₅ (of_arrayFlags h₂).2).suffix_tail hword
      (takes_definition _ _ _ _ _ _ _ h₅)
    let k : BodyHead := ⟨ts, ws, hws, word⟩
    have htokens : r.tokens = k.tokens ++ r₂.tokens.tail := by
      rw [hflags, harray, hword]
      simp [k, BodyHead.tokens]
    intro bs hbs
    rw [htokens]
    exact .passage ⟨k, rfl, BodyHead.gives_of_areAccepted hschema haccepted⟩
      (hbs.of_suffix hsuffix)

end Parser

/-- **Fields of flags hold what the words of a body say.**  The bodies of a text that can be read
have heads in the text, in order and each of its own.  A field holds all the codes that flags of
the head say, so that it holds one of them, or nothing, where they agree; and then that is what
the catalog has.  Of the words for stepping and rearing there is one at most, and the word for
class 2 stands behind no word of a class whose code has a bit in common with its own. -/
theorem flags_of_parse {tokens : List Token} {failure : Option LexError} {b : CallBook}
    {tags : TagTable Nat} (h : parse tokens failure = .ok (b, tags)) :
    StandIn IsHeadOf tokens (b.calls.flatMap (·.bodies)) := by
  have hall := standIn_of_parse Parser.between_head h
  simpa using hall

/-- A text with one call and one body, which has nothing behind its head. -/
def headTokens (k : BodyHead) : List Token :=
  [.word "version", .text "1", .word "call", .text "tag", .word "plus"] ++ k.tokens

/-- A head with a flag of each field. -/
def plainHead : BodyHead where
  flags := ["step_to_qtag", "need_two_numbers", "base_tag_call_2", "visible_fractions"].filterMap
    FlagText.ofWord?
  arrayWords := []
  areArrayFlags := by simp
  schema := "nulldefine"

/-- A head with one word for each field gives what the words say. -/
theorem flags_of_parse_plainHead : ∃ b tags c,
    parse (headTokens plainHead) none = .ok (b, tags) ∧ b.calls = [c] ∧ c.continuations = [] ∧
      (c.body.flags.flags1 = 0x6013007 ∧ (CatalogCall.ofCall c).numberCount = 2 ∧
        (CatalogCall.ofCall c).taggerClass? = some 2) ∧
        StandIn IsHeadOf (headTokens plainHead) [c.body] := by
  obtain ⟨b, tags, c, hparse, hc, hfields⟩ := exists_of_parse (headTokens plainHead) (·.calls)
    (p := fun c => c.continuations = [] ∧
      c.body.flags.flags1 = 0x6013007 ∧ (CatalogCall.ofCall c).numberCount = 2 ∧
        (CatalogCall.ofCall c).taggerClass? = some 2) (by decide +kernel)
  obtain ⟨hnil, hfields⟩ := of_decide_eq_true hfields
  have hstand := flags_of_parse hparse
  simp only [hc, List.flatMap_singleton, Call.bodies, hnil] at hstand
  exact ⟨b, tags, c, hparse, hc, hnil, hfields, hstand⟩

/-- A head with two flags of each field but that for stepping and rearing. -/
def mixedHead : BodyHead where
  flags := ["first_part_visible", "first_two_parts_visible", "neednumber", "need_two_numbers",
    "base_tag_call_0", "base_tag_call_1"].filterMap FlagText.ofWord?
  arrayWords := []
  areArrayFlags := by simp
  schema := "nulldefine"

/-- **Different words of a field make what neither says.**  The first part and the first two make
the last one, the numbers 1 and 2 make 3, and the classes 0 and 1 make 2. -/
theorem flags_mixedHead : ∃ b tags c,
    parse (headTokens mixedHead) none = .ok (b, tags) ∧ b.calls = [c] ∧
      (∀ f ∈ [visibleFractions, numbers, taggers],
        ¬ f.Holds (f.said mixedHead.flags) c.body.flags.flags1) ∧
        (CatalogCall.ofCall c).numberCount = 3 ∧ (CatalogCall.ofCall c).taggerClass? = some 2 := by
  obtain ⟨b, tags, c, hparse, hc, hfields⟩ := exists_of_parse (headTokens mixedHead) (·.calls)
    (p := fun c =>
      (∀ f ∈ [visibleFractions, numbers, taggers],
        ¬ f.Holds (f.said mixedHead.flags) c.body.flags.flags1) ∧
        (CatalogCall.ofCall c).numberCount = 3 ∧ (CatalogCall.ofCall c).taggerClass? = some 2)
    (by decide +kernel)
  exact ⟨b, tags, c, hparse, hc, of_decide_eq_true hfields⟩

end CallText
end SquareDance
