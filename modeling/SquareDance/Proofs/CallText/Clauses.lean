/-
# The clauses of an array definition

An array definition is read from its setups, any number of clauses, and the word that its
destinations begin with:

    setup 1x4 1x4
       qualifier tbone num 2 wave_only
       restriction unusual couples_only
       array ...

Clauses come in any order, and the same kind of clause may come again.  `ArrayBlock` is such a
passage as a text has it.

The strength of a restriction, the number of a qualifier and its name are codes, so that a field
is to hold one of them and no mixture.  `ArrayBlock.Gives` says what the fields of a definition
hold.  T-bone signs do not mix, as a second one is refused.  Strengths and numbers are put into
their fields bit by bit, so that two of them make a third one, while of the names of restrictions
only the last is kept.  A qualifier is refused where the bits of one are there already, and a bare
`none` has no bits.
-/

import SquareDance.CallText.Arrays
import SquareDance.Proofs.Bits
import SquareDance.Proofs.CallText.Entries

namespace SquareDance

/-! ### Signs of qualifiers -/

namespace Qualifier

/-- The bits of T-bone signs. -/
def tBoneMask : UInt32 := tBone ||| notTBone

/-- The T-bone bits of a sign, if it has any. -/
def Sign.tBone? : Sign → Option UInt32
  | .tBone => some Qualifier.tBone
  | .notTBone => some Qualifier.notTBone
  | .explicit => some tBoneMask
  | _ => none

/-- The bits of a sign that stands alone. -/
def Sign.bits : Sign → UInt32
  | .left => Qualifier.left
  | .right => Qualifier.right
  | .live => Qualifier.live
  | .tBone => Qualifier.tBone
  | .notTBone => Qualifier.notTBone
  | .explicit => tBoneMask
  | .number => 0

/-- A sign that stands alone has bits. -/
theorem Sign.bits_ne_zero {s : Sign} (h : s ≠ .number) : s.bits ≠ 0 := by
  cases s <;> first | decide | exact absurd rfl h

/-- The T-bone bits of a sign are those that it has, if any. -/
theorem Sign.bits_and_tBoneMask (s : Sign) : s.bits &&& tBoneMask = s.tBone?.getD 0 := by
  cases s <;> decide

/-- A sign that stands alone has no bits of a number. -/
theorem Sign.bits_and_numberMask (s : Sign) : s.bits &&& numberMask = 0 := by cases s <;> decide

/-- The bits for a number. -/
def numberBits (n : UInt32) : UInt32 := (n + 1) * numberUnit

/-- **A sign is added to others**, a T-bone sign only where there is none. -/
theorem addSign_eq_ok {bits bits' : UInt32} {s : Sign} (h : addSign bits s = .ok bits') :
    bits' = bits ||| s.bits ∧ (s.tBone?.isSome → bits &&& tBoneMask = 0) := by
  cases s <;> unfold addSign at h
  case left | right | live =>
    cases h
    exact ⟨rfl, fun hs => absurd hs (by decide)⟩
  case number =>
    cases h
    exact ⟨UInt32.or_zero.symm, fun hs => absurd hs (by decide)⟩
  all_goals
    simp only at h
    split at h
    · cases h
    · rename_i hbits
      cases h
      exact ⟨rfl, fun _ => not_not.1 hbits⟩

/-- A number is added if it is not too big, whatever was added before. -/
theorem addNumber_eq_ok {bits bits' n : UInt32} (h : addNumber bits n = .ok bits') :
    n ≤ maxNumber ∧ bits' = bits ||| numberBits n := by
  unfold addNumber at h
  split at h
  · cases h
  · rename_i hn
    cases h
    exact ⟨UInt32.not_lt.1 hn, rfl⟩

end Qualifier

namespace ArrayFlags

/-- The bits for the strength of a restriction. -/
def strengthMask : UInt32 := 0x70

end ArrayFlags

namespace CallText

open Qualifier (Sign tBoneMask numberMask numberBits)
open ArrayFlags (strengthMask)

/-- A sign of a qualifier as a text has it. -/
inductive SignText where
  | word (word : String) (sign : Sign) (isSign : Sign.ofWord? word = some sign)
    (alone : sign ≠ .number)
  | number (n : UInt32) (le_max : n ≤ Qualifier.maxNumber)

namespace SignText

/-- The tokens of a sign. -/
def tokens : SignText → List Token
  | word w _ _ _ => [.word w]
  | number n _ => [.word "num", .number n]

/-- The bits of a sign, with those of its number. -/
def bits : SignText → UInt32
  | word _ s _ _ => s.bits
  | number n _ => numberBits n

/-- The T-bone bits of a sign as a text has it. -/
def tBone? : SignText → Option UInt32
  | word _ s _ _ => s.tBone?
  | number _ _ => none

/-- The number of a sign, if it has one. -/
def number? : SignText → Option UInt32
  | word _ _ _ _ => none
  | number n _ => some n

/-- What is so of all numbers that a qualifier may carry, by trying them. -/
theorem of_le_maxNumber {p : UInt32 → Bool}
    (hp : (List.range 15).all (fun i => p (.ofNat i)) = true) {n : UInt32}
    (hn : n ≤ Qualifier.maxNumber) : p n = true := by
  have hlt : n.toNat < 15 := Nat.lt_succ_of_le (UInt32.le_iff_toNat_le.1 hn)
  have h := List.all_eq_true.1 hp n.toNat (List.mem_range.2 hlt)
  rwa [UInt32.ofNat_toNat] at h

/-- Every sign has bits. -/
theorem bits_ne_zero (s : SignText) : s.bits ≠ 0 := by
  cases s with
  | word w s _ alone => exact Sign.bits_ne_zero alone
  | number n hn =>
    exact of_decide_eq_true (of_le_maxNumber (p := fun n => numberBits n ≠ 0) (by decide) hn)

/-- The T-bone bits of a sign are those that it has, if any, numbers included. -/
theorem bits_and_tBoneMask (s : SignText) : s.bits &&& tBoneMask = s.tBone?.getD 0 := by
  cases s with
  | word w s _ _ => exact s.bits_and_tBoneMask
  | number n hn =>
    exact of_decide_eq_true
      (of_le_maxNumber (p := fun n => numberBits n &&& tBoneMask = 0) (by decide) hn)

/-- The bits of a number are those of the sign that has one. -/
theorem bits_and_numberMask (s : SignText) :
    s.bits &&& numberMask = (s.number?.map numberBits).getD 0 := by
  cases s with
  | word w s _ _ => exact s.bits_and_numberMask
  | number n hn =>
    exact of_decide_eq_true
      (of_le_maxNumber (p := fun n => numberBits n &&& numberMask = numberBits n) (by decide) hn)

/-- A T-bone sign has bits. -/
theorem ne_zero_of_tBone? {s : SignText} {x : UInt32} (h : s.tBone? = some x) : x ≠ 0 := by
  cases s with
  | word w s _ _ => cases s <;> cases h <;> decide
  | number n hn => cases h

end SignText

/-- The T-bone bits of signs. -/
def tBones (signs : List SignText) : List UInt32 := signs.filterMap (·.tBone?)

/-- The T-bone bits of signs are those of the T-bone signs among them. -/
theorem orAll_bits_and_tBoneMask (signs : List SignText) :
    orAll (signs.map (·.bits)) &&& tBoneMask = orAll (tBones signs) :=
  orAll_map_and SignText.bits_and_tBoneMask signs

/-- Signs without T-bone bits have no T-bone sign. -/
theorem tBones_eq_nil {signs : List SignText}
    (h : orAll (signs.map (·.bits)) &&& tBoneMask = 0) : tBones signs = [] := by
  rw [orAll_bits_and_tBoneMask, orAll_eq_zero_iff] at h
  refine List.eq_nil_iff_forall_not_mem.2 fun x hx => ?_
  obtain ⟨s, -, hs⟩ := List.mem_filterMap.1 hx
  exact SignText.ne_zero_of_tBone? hs (h x hx)

/-! ### Clauses -/

/-- The name of a qualifier, and its number. -/
structure QualifierName where
  word : String
  code : Nat
  isNamed : Qualifier.index? word = some code

namespace QualifierName

/-- The number of a name fits a byte. -/
theorem code_lt (n : QualifierName) : n.code < 256 := by
  have hlen : Qualifier.table.length ≤ 256 := by decide +kernel
  exact Nat.lt_of_lt_of_le (Vocabulary.lt_of_index? n.isNamed) hlen

/-- A name has no bits but those for names. -/
theorem code_and (n : QualifierName) {m : UInt32} (hm : Qualifier.codeMask &&& m = 0) :
    UInt32.ofNat n.code &&& m = 0 := by
  have hlt := n.code_lt
  have hcode : UInt32.ofNat n.code &&& Qualifier.codeMask = UInt32.ofNat n.code := by
    refine UInt32.toNat_inj.1 ?_
    rw [UInt32.toNat_and, UInt32.toNat_ofNat_of_lt' (show n.code < 4294967296 by omega)]
    exact (Nat.and_two_pow_sub_one_eq_mod n.code 8).trans (Nat.mod_eq_of_lt hlt)
  rw [← hcode, UInt32.and_assoc, hm, UInt32.and_zero]

/-- Only the name `none` has no bits. -/
theorem word_of_code {n : QualifierName} (h : UInt32.ofNat n.code = 0) : n.word = "none" := by
  have hlt := n.code_lt
  have hzero : n.code = 0 := by
    have hnat := congrArg UInt32.toNat h
    rwa [UInt32.toNat_ofNat_of_lt' (show n.code < 4294967296 by omega)] at hnat
  have hword := Vocabulary.getElem?_of_index? n.isNamed
  rw [hzero] at hword
  exact (Option.some.inj hword).symm

end QualifierName

/-- A qualifier as a text has it. -/
structure QualifierClause where
  signs : List SignText
  name : QualifierName

namespace QualifierClause

/-- The tokens of a qualifier: its signs and its name. -/
def tokens (q : QualifierClause) : List Token :=
  .word "qualifier" :: (q.signs.flatMap (·.tokens) ++ [.word q.name.word])

/-- The bits of a qualifier, those of its name among them. -/
def bits (q : QualifierClause) : UInt32 := orAll (q.signs.map (·.bits)) ||| .ofNat q.name.code

/-- A qualifier that is nothing but `none`. -/
def IsBare (q : QualifierClause) : Prop := q.signs = [] ∧ q.name.word = "none"

/-- **Only a bare qualifier has no bits.** -/
theorem isBare_of_bits {q : QualifierClause} (h : q.bits = 0) : q.IsBare := by
  obtain ⟨hsigns, hcode⟩ := UInt32.or_eq_zero_iff.1 h
  refine ⟨List.eq_nil_iff_forall_not_mem.2 fun s hs => s.bits_ne_zero ?_,
    QualifierName.word_of_code hcode⟩
  exact orAll_eq_zero_iff.1 hsigns _ (List.mem_map_of_mem hs)

/-- The T-bone bits of a qualifier are those of its signs. -/
theorem bits_and_tBoneMask (q : QualifierClause) :
    q.bits &&& tBoneMask = orAll (tBones q.signs) := by
  rw [bits, UInt32.or_and_distrib, orAll_bits_and_tBoneMask, q.name.code_and (by decide),
    UInt32.or_zero]

/-- The number bits of a qualifier are those of its numbers. -/
theorem bits_and_numberMask (q : QualifierClause) :
    q.bits &&& numberMask = orAll (q.signs.filterMap fun s => s.number?.map numberBits) := by
  rw [bits, UInt32.or_and_distrib, orAll_map_and SignText.bits_and_numberMask,
    q.name.code_and (by decide), UInt32.or_zero]

end QualifierClause

/-- A restriction as a text has it. -/
structure RestrictionClause where
  strength : Option String
  isStrength : ∀ w ∈ strength, (ArrayFlags.strengthOfWord? w).isSome
  name : QualifierName

namespace RestrictionClause

/-- The tokens of a restriction: its strength, if it has one, and its name. -/
def tokens (c : RestrictionClause) : List Token :=
  .word "restriction" :: (c.strength.toList ++ [c.name.word]).map .word

/-- The bits for its strength. -/
def bits (c : RestrictionClause) : UInt32 := (c.strength.bind ArrayFlags.strengthOfWord?).getD 0

/-- The number of its name. -/
def code (c : RestrictionClause) : UInt8 := .ofNat c.name.code

/-- A restriction has no bits but those of its strength. -/
theorem bits_and_strengthMask (c : RestrictionClause) : c.bits &&& strengthMask = c.bits := by
  unfold bits
  cases c.strength with
  | none => rfl
  | some w =>
    rw [Option.bind_some]
    unfold ArrayFlags.strengthOfWord?
    split <;> rfl

end RestrictionClause

/-- A clause of an array definition as a text has it. -/
inductive ArrayClause where
  | qualifier (q : QualifierClause)
  | restriction (c : RestrictionClause)
  | concentricEnd (inner outer : String) (n : UInt32)
  | flag (word : String) (isOption : (ArrayFlags.ofOption? word).isSome)

namespace ArrayClause

/-- The tokens of a clause. -/
def tokens : ArrayClause → List Token
  | qualifier q => q.tokens
  | restriction c => c.tokens
  | concentricEnd inner outer n => [.word "concendsetup", .word inner, .word outer, .number n]
  | flag w _ => [.word w]

/-- The qualifier that a clause is, if it is one. -/
def qualifier? : ArrayClause → Option QualifierClause
  | qualifier q => some q
  | _ => none

/-- The restriction that a clause is, if it is one. -/
def restriction? : ArrayClause → Option RestrictionClause
  | restriction c => some c
  | _ => none

/-- The qualifiers among some clauses. -/
def qualifiers (cs : List ArrayClause) : List QualifierClause := cs.filterMap (·.qualifier?)

/-- The restrictions among some clauses. -/
def restrictions (cs : List ArrayClause) : List RestrictionClause := cs.filterMap (·.restriction?)

/-- One clause more may be one qualifier more. -/
theorem qualifiers_concat (cs : List ArrayClause) (c : ArrayClause) :
    qualifiers (cs ++ [c]) = qualifiers cs ++ c.qualifier?.toList := by
  rw [qualifiers, List.filterMap_append, ← qualifiers]
  cases c <;> rfl

/-- One clause more may be one restriction more. -/
theorem restrictions_concat (cs : List ArrayClause) (c : ArrayClause) :
    restrictions (cs ++ [c]) = restrictions cs ++ c.restriction?.toList := by
  rw [restrictions, List.filterMap_append, ← restrictions]
  cases c <;> rfl

end ArrayClause

/-! ### Blocks -/

/-- A word that destinations begin with. -/
def IsEnding (word : String) : Prop :=
  word ∈ ["array", "preds", "predscantdo", "predscantdocallinsetup", "predsnoselect"]

instance (word : String) : Decidable (IsEnding word) := inferInstanceAs (Decidable (word ∈ _))

/-- An array definition as a text has it, up to the word that its destinations begin with. -/
structure ArrayBlock where
  start : String
  finish : String
  clauses : List ArrayClause
  ending : String
  isEnding : IsEnding ending

namespace ArrayBlock

/-- The tokens of a block. -/
def tokens (k : ArrayBlock) : List Token :=
  .word "setup" :: .word k.start :: .word k.finish ::
    (k.clauses.flatMap (·.tokens) ++ [.word k.ending])

/-- The qualifiers of a block. -/
def qualifiers (k : ArrayBlock) : List QualifierClause := ArrayClause.qualifiers k.clauses

/-- The restrictions of a block. -/
def restrictions (k : ArrayBlock) : List RestrictionClause := ArrayClause.restrictions k.clauses

/-- The signs of all qualifiers. -/
def signs (k : ArrayBlock) : List SignText := k.qualifiers.flatMap (·.signs)

/-- The numbers of all qualifiers. -/
def numbers (k : ArrayBlock) : List UInt32 := k.signs.filterMap (·.number?)

/-- A definition has the strength and the name of one restriction, or none. -/
def RestrictionIsIn (k : ArrayBlock) (d : ArrayDef) : Prop :=
  (k.restrictions = [] ∧ d.flags &&& strengthMask = 0 ∧ d.restriction = 0) ∨
    ∃ c ∈ k.restrictions, d.flags &&& strengthMask = c.bits ∧ d.restriction = c.code

/-- A definition has the number of a qualifier, or none. -/
def NumberIsIn (k : ArrayBlock) (d : ArrayDef) : Prop :=
  d.qualifier &&& numberMask = 0 ∨ ∃ n ∈ k.numbers, d.qualifier &&& numberMask = numberBits n

/-- There is one T-bone sign at most, and a definition has that one. -/
def TBoneIsIn (k : ArrayBlock) (d : ArrayDef) : Prop :=
  (tBones k.signs).length ≤ 1 ∧ d.qualifier &&& tBoneMask = (tBones k.signs).head?.getD 0

instance (k : ArrayBlock) (d : ArrayDef) : Decidable (k.RestrictionIsIn d) :=
  inferInstanceAs (Decidable (_ ∨ _))

instance (k : ArrayBlock) (d : ArrayDef) : Decidable (k.NumberIsIn d) :=
  inferInstanceAs (Decidable (_ ∨ _))

/-- What the fields of a definition hold. -/
structure Gives (k : ArrayBlock) (d : ArrayDef) : Prop where
  /-- A qualifier follows a bare one, if any. -/
  bare : ∀ q ∈ k.qualifiers.dropLast, q.IsBare
  one_qualifier : (∀ q ∈ k.qualifiers, ¬ q.IsBare) → k.qualifiers.length ≤ 1
  strengths : d.flags &&& strengthMask = orAll (k.restrictions.map (·.bits))
  restriction : d.restriction = (k.restrictions.getLast?.map (·.code)).getD 0
  one_restriction : k.restrictions.length ≤ 1 → k.RestrictionIsIn d
  numbers : d.qualifier &&& numberMask = orAll (k.numbers.map numberBits)
  one_number : k.numbers.length ≤ 1 → k.NumberIsIn d
  tBone : k.TBoneIsIn d

end ArrayBlock

/-- A passage is a block that gives a definition. -/
def IsBlockOf (d : ArrayDef) (ts : List Token) : Prop :=
  ∃ k : ArrayBlock, ts = k.tokens ∧ k.Gives d

/-! ### Options -/

/-- What a clause does to the options before it. -/
def ArrayClause.Adds (o o' : Parser.ArrayOptions) : ArrayClause → Prop
  | qualifier q =>
    o.qualifier = 0 ∧ (tBones q.signs).length ≤ 1 ∧ o' = { o with qualifier := q.bits }
  | restriction c => o' = { o with flags := o.flags ||| c.bits, restriction := c.code }
  | concentricEnd _ _ _ | flag _ _ =>
    ∃ finish bits, bits &&& strengthMask = 0 ∧ o' = { o with finish, flags := o.flags ||| bits }

/-- Options are those that clauses make. -/
structure AreMade (cs : List ArrayClause) (o : Parser.ArrayOptions) : Prop where
  bare : ∀ q ∈ (ArrayClause.qualifiers cs).dropLast, q.IsBare
  oneTBone : ∀ q ∈ ArrayClause.qualifiers cs, (tBones q.signs).length ≤ 1
  qualifier : o.qualifier = ((ArrayClause.qualifiers cs).getLast?.map (·.bits)).getD 0
  strengths : o.flags &&& strengthMask = orAll ((ArrayClause.restrictions cs).map (·.bits))
  restriction : o.restriction = ((ArrayClause.restrictions cs).getLast?.map (·.code)).getD 0

namespace AreMade

open ArrayClause (qualifiers restrictions qualifiers_concat restrictions_concat)

variable {cs : List ArrayClause} {o o' : Parser.ArrayOptions}

/-- **All qualifiers so far are bare if they leave no bits.** -/
theorem bare_of_eq_zero (h : AreMade cs o) (ho : o.qualifier = 0) :
    ∀ q ∈ qualifiers cs, q.IsBare := by
  obtain ⟨hbare, -, hqualifier, -, -⟩ := h
  obtain hnil | ⟨before, last, hlast⟩ := List.eq_nil_or_concat (qualifiers cs)
  · simp [hnil]
  · rw [List.concat_eq_append] at hlast
    rw [hlast, List.dropLast_concat] at hbare
    rw [ho, hlast, List.getLast?_concat] at hqualifier
    rw [hlast]
    exact List.forall_mem_append.2 ⟨hbare,
      List.forall_mem_singleton.2 (QualifierClause.isBare_of_bits hqualifier.symm)⟩

/-- A clause that is neither a qualifier nor a restriction. -/
theorem concat_other {c : ArrayClause} {finish : EndPlace} {bits : UInt32} (h : AreMade cs o)
    (hq : c.qualifier? = none) (hr : c.restriction? = none) (hbits : bits &&& strengthMask = 0) :
    AreMade (cs ++ [c]) { o with finish, flags := o.flags ||| bits } := by
  have hqs : qualifiers (cs ++ [c]) = qualifiers cs := by
    rw [qualifiers_concat, hq]
    exact List.append_nil _
  have hrs : restrictions (cs ++ [c]) = restrictions cs := by
    rw [restrictions_concat, hr]
    exact List.append_nil _
  refine ⟨by rw [hqs]; exact h.bare, by rw [hqs]; exact h.oneTBone, by rw [hqs]; exact h.qualifier,
    ?_, by rw [hrs]; exact h.restriction⟩
  rw [hrs, UInt32.or_and_distrib, h.strengths, hbits, UInt32.or_zero]

/-- **One more clause.** -/
theorem concat {c : ArrayClause} (h : AreMade cs o) (hc : c.Adds o o') :
    AreMade (cs ++ [c]) o' := by
  cases c with
  | qualifier q =>
    obtain ⟨ho, hone, rfl⟩ := hc
    have hqs : qualifiers (cs ++ [.qualifier q]) = qualifiers cs ++ [q] := qualifiers_concat cs _
    have hrs : restrictions (cs ++ [.qualifier q]) = restrictions cs :=
      (restrictions_concat cs _).trans (List.append_nil _)
    refine ⟨?_, ?_, ?_, by rw [hrs]; exact h.strengths, by rw [hrs]; exact h.restriction⟩
    · rw [hqs, List.dropLast_concat]
      exact h.bare_of_eq_zero ho
    · rw [hqs]
      exact List.forall_mem_append.2 ⟨h.oneTBone, List.forall_mem_singleton.2 hone⟩
    · rw [hqs, List.getLast?_concat]
      rfl
  | restriction c =>
    obtain rfl := hc
    have hqs : qualifiers (cs ++ [.restriction c]) = qualifiers cs :=
      (qualifiers_concat cs _).trans (List.append_nil _)
    have hrs : restrictions (cs ++ [.restriction c]) = restrictions cs ++ [c] :=
      restrictions_concat cs _
    refine ⟨by rw [hqs]; exact h.bare, by rw [hqs]; exact h.oneTBone,
      by rw [hqs]; exact h.qualifier, ?_, ?_⟩
    · rw [hrs, List.map_append, orAll_append, UInt32.or_and_distrib, h.strengths,
        c.bits_and_strengthMask]
      exact congrArg (_ ||| ·) UInt32.or_zero.symm
    · rw [hrs, List.getLast?_concat]
      rfl
  | concentricEnd _ _ _ | flag _ _ =>
    obtain ⟨finish, bits, hbits, rfl⟩ := hc
    exact h.concat_other rfl rfl hbits

/-! ### Definitions -/

variable {k : ArrayBlock} {d : ArrayDef}

/-- All signs are those of the last qualifier. -/
theorem signs_eq (h : AreMade k.clauses o) :
    k.signs = (k.qualifiers.getLast?.map (·.signs)).getD [] := by
  have hbare : ∀ q ∈ k.qualifiers.dropLast, q.IsBare := h.bare
  unfold ArrayBlock.signs
  obtain hnil | ⟨before, last, hlast⟩ := List.eq_nil_or_concat k.qualifiers
  · rw [hnil]
    rfl
  · rw [List.concat_eq_append] at hlast
    rw [hlast, List.dropLast_concat] at hbare
    have hbefore : before.flatMap (·.signs) = [] :=
      List.flatMap_eq_nil_iff.2 fun q hq => (hbare q hq).1
    rw [hlast, List.flatMap_append, hbefore, List.getLast?_concat]
    exact List.append_nil _

/-- Bits of a qualifier under a mask are those of all signs. -/
theorem qualifier_and (h : AreMade k.clauses o) {m : UInt32} {g : SignText → Option UInt32}
    (hm : ∀ q : QualifierClause, q.bits &&& m = orAll (q.signs.filterMap g)) :
    o.qualifier &&& m = orAll (k.signs.filterMap g) := by
  have hqualifier : o.qualifier = (k.qualifiers.getLast?.map (·.bits)).getD 0 := h.qualifier
  rw [h.signs_eq, hqualifier]
  cases k.qualifiers.getLast? with
  | none => exact UInt32.zero_and
  | some q => exact hm q

/-- There is one T-bone sign at most. -/
theorem length_tBones_le (h : AreMade k.clauses o) : (tBones k.signs).length ≤ 1 := by
  rw [h.signs_eq]
  cases hq : k.qualifiers.getLast? with
  | none => exact Nat.zero_le 1
  | some q => exact h.oneTBone q (List.mem_of_getLast? hq)

/-- **Clauses that make options give a definition.** -/
theorem gives (h : AreMade k.clauses o) (hq : d.qualifier = o.qualifier) (hf : d.flags = o.flags)
    (hr : d.restriction = o.restriction) : k.Gives d := by
  have hstrengths : d.flags &&& strengthMask = orAll (k.restrictions.map (·.bits)) :=
    hf ▸ h.strengths
  have hcode : d.restriction = (k.restrictions.getLast?.map (·.code)).getD 0 :=
    hr.trans h.restriction
  have hnumbers : d.qualifier &&& numberMask = orAll (k.numbers.map numberBits) := by
    rw [hq, ArrayBlock.numbers, List.map_filterMap]
    exact h.qualifier_and QualifierClause.bits_and_numberMask
  refine ⟨h.bare, fun hnone => ?_, hstrengths, hcode, fun hone => ?_, hnumbers, fun hone => ?_,
    h.length_tBones_le, ?_⟩
  · have hdrop : k.qualifiers.dropLast = [] := List.eq_nil_iff_forall_not_mem.2 fun q hq =>
      hnone q (List.dropLast_subset _ hq) (h.bare q hq)
    have hlength := congrArg List.length hdrop
    rw [List.length_dropLast, List.length_nil] at hlength
    omega
  · rw [orAll_of_length_le_one (by rwa [List.length_map])] at hstrengths
    match hl : k.restrictions, hone with
    | [], _ =>
      rw [hl] at hstrengths hcode
      exact .inl ⟨hl, hstrengths, hcode⟩
    | [c], _ =>
      rw [hl] at hstrengths hcode
      exact .inr ⟨c, hl ▸ List.mem_singleton_self c, hstrengths, hcode⟩
  · rw [orAll_of_length_le_one (by rwa [List.length_map]), List.head?_map] at hnumbers
    cases hn : k.numbers.head? with
    | none =>
      rw [hn] at hnumbers
      exact .inl hnumbers
    | some n =>
      rw [hn] at hnumbers
      exact .inr ⟨n, List.mem_of_head? hn, hnumbers⟩
  · rw [hq, h.qualifier_and QualifierClause.bits_and_tBoneMask]
    exact orAll_of_length_le_one h.length_tBones_le

end AreMade

end CallText
end SquareDance
