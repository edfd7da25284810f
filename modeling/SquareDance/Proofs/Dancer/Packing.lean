/-
# Packing dancers

A word of a packed dancer is made of fields, each within a mask of its own.  As no two masks have a
bit in common, a word is known by what it has in each mask, once it has nothing outside of them
(`PackedDancer.eq_gather_iff`).  The first word is made of the fields of `PackedDancer.Field`, the
second of one bit for each role.

| read | agrees with what is packed |
| --- | --- |
| a field of the first word | `PackedDancer.fields_iff` |
| the roles | `PackedDancer.unpackRoles_eq_iff` |
| the identity, which the first and the third word both tell | `PackedDancer.identity?_eq_some_iff` |

So three words are read as a dancer just if that dancer is packed into them, and has roles only that
there are: `Dancer.unpack_iff_pack`.
-/

import Mathlib.Tactic.Tauto
import SquareDance.Dancer.Packed
import SquareDance.Proofs.CallBook.Words
import SquareDance.Proofs.Formation.DerivedRoles

namespace SquareDance

/-- Nothing stands outside a mask that takes the whole word out. -/
theorem and_not_eq_zero_iff {w m : UInt32} : w &&& ~~~m = 0 ↔ w &&& m = w := by
  constructor
  · intro h
    calc w &&& m = w &&& ~~~~~~m := by rw [UInt32.not_not]
      _ = w := and_not_eq_self h
  · intro h
    rw [← h, UInt32.and_assoc, UInt32.and_not_self, UInt32.and_zero]

/-- A number is that of one dancer at most. -/
theorem Identity.ofNumber?_eq_some_iff {n : Nat} {p : Identity} :
    ofNumber? n = some p ↔ n = p.number := by
  constructor
  · intro h
    unfold ofNumber? at h
    split at h
    · cases h
      unfold number isGirl
      dsimp only
      rcases Nat.mod_two_eq_zero_or_one n with hn | hn <;> simp [hn] <;> omega
    · cases h
  · rintro rfl
    exact ofNumber?_number p

namespace RoleSet

/-- Only bits of roles are set. -/
def IsDeclared (s : RoleSet) : Prop := s.bits.toNat < 2 ^ Role.all.length

/-- A role that is put in sets no other bits. -/
theorem isDeclared_insert {s : RoleSet} (h : s.IsDeclared) (r : Role) :
    (s.insert r).IsDeclared := by
  have hbit : (bit r).toNat < 2 ^ Role.all.length := by cases r <;> decide
  unfold IsDeclared insert
  rw [UInt32.toNat_or]
  exact Nat.or_lt_two_pow h hbit

/-- Roles that are listed set no other bits. -/
theorem isDeclared_ofList (rs : List Role) : (ofList rs).IsDeclared := by
  unfold ofList
  have hempty : empty.IsDeclared := Nat.two_pow_pos _
  generalize empty = s at hempty
  induction rs generalizing s with
  | nil => exact hempty
  | cons r rs ih => exact ih _ (isDeclared_insert hempty r)

/-- **A set with bits of roles only is known by its roles.** -/
theorem eq_of_contains {s t : RoleSet} (hs : s.IsDeclared) (ht : t.IsDeclared)
    (h : ∀ r, s.contains r = t.contains r) : s = t := by
  obtain ⟨a⟩ := s
  obtain ⟨b⟩ := t
  congr 1
  rw [← UInt32.toNat_inj]
  apply Nat.eq_of_testBit_eq
  intro i
  by_cases hi : i < Role.all.length
  · have hindex : Role.all[i].index = i := by
      revert i
      decide
    have hr := h Role.all[i]
    rwa [contains_eq_testBit, contains_eq_testBit, hindex] at hr
  · have hbeyond : ∀ n < 2 ^ Role.all.length, n.testBit i = false := fun n hn =>
      Nat.testBit_lt_two_pow (Nat.lt_of_lt_of_le hn (Nat.pow_le_pow_right (by decide) (by omega)))
    rw [hbeyond _ hs, hbeyond _ ht]

end RoleSet

namespace PackedDancer

/-! ### Words made of fields -/

section Fields

variable {ι : Type} {mask field : ι → UInt32} {w : UInt32}

/-- A word with all the fields of a list. -/
def gather (l : List ι) (field : ι → UInt32) : UInt32 :=
  l.foldr (fun i w => field i ||| w) 0

/-- A word with one field more has its bits in addition. -/
theorem gather_cons (i : ι) (l : List ι) (field : ι → UInt32) :
    gather (i :: l) field = field i ||| gather l field := rfl

/-- **A mask takes its field out**, where no two masks have a bit in common. -/
theorem gather_and [DecidableEq ι] (hdisjoint : ∀ i j, i ≠ j → mask i &&& mask j = 0)
    (hfits : ∀ i, field i &&& mask i = field i) (l : List ι) (i : ι) :
    gather l field &&& mask i = if i ∈ l then field i else 0 := by
  induction l with
  | nil => exact UInt32.zero_and
  | cons j l ih =>
    rw [gather_cons, UInt32.or_and_distrib, ih]
    by_cases hij : i = j
    · subst hij
      rw [hfits, if_pos List.mem_cons_self]
      split
      · exact UInt32.or_self
      · exact UInt32.or_zero
    · have hother : field j &&& mask i = 0 := by
        rw [← hfits j, UInt32.and_assoc, hdisjoint j i (Ne.symm hij), UInt32.and_zero]
      simp only [hother, UInt32.zero_or, List.mem_cons, hij, false_or]

/-- What a word has in some masks makes up what it has in all of them. -/
theorem gather_and_masks (l : List ι) (mask : ι → UInt32) (w : UInt32) :
    gather l (fun i => w &&& mask i) = w &&& gather l mask := by
  induction l with
  | nil => exact UInt32.and_zero.symm
  | cons i l ih =>
    rw [gather_cons, gather_cons, ih, UInt32.and_comm w, UInt32.and_comm w, UInt32.and_comm w,
      UInt32.or_and_distrib]

/-- **A word is made of fields** if it has each of them in its mask and nothing outside. -/
theorem eq_gather_iff [DecidableEq ι] (hdisjoint : ∀ i j, i ≠ j → mask i &&& mask j = 0)
    (hfits : ∀ i, field i &&& mask i = field i) {l : List ι} (hmem : ∀ i, i ∈ l) :
    w = gather l field ↔ w &&& ~~~gather l mask = 0 ∧ ∀ i, w &&& mask i = field i := by
  rw [and_not_eq_zero_iff, ← gather_and_masks]
  constructor
  · rintro rfl
    have htake : ∀ i, gather l field &&& mask i = field i := fun i => by
      rw [gather_and hdisjoint hfits, if_pos (hmem i)]
    exact ⟨congrArg (gather l) (funext htake), htake⟩
  · rintro ⟨hwhole, htake⟩
    rw [← hwhole, funext htake]

/-- A bit is a field. -/
theorem flag_and {bit : UInt32} (b : Bool) : flag bit b &&& bit = flag bit b := by
  cases b
  · exact UInt32.zero_and
  · exact UInt32.and_self

/-- **A bit is read** as set or not. -/
theorem and_eq_flag_iff {bit : UInt32} {k : Nat} (hbit : bit.toNat = 2 ^ k) {b : Bool} :
    w &&& bit = flag bit b ↔ b = (w &&& bit != 0) := by
  have hne : bit ≠ 0 := by
    rintro rfl
    exact absurd hbit.symm (Nat.two_pow_pos k).ne'
  have hcases : w &&& bit = 0 ∨ w &&& bit = bit := by
    simp only [← UInt32.toNat_inj, UInt32.toNat_and, hbit, Nat.and_two_pow]
    cases w.toNat.testBit k <;> simp
  rcases hcases with h | h <;> rw [h] <;> cases b <;> simp [flag, hne, Ne.symm hne]

/-- Bits that are added one after another are fields, too. -/
theorem foldl_filter (bit : ι → UInt32) (q : ι → Bool) (l : List ι) (w : UInt32) :
    (l.filter q).foldl (fun w i => w ||| bit i) w
      = w ||| gather l fun i => flag (bit i) (q i) := by
  induction l generalizing w with
  | nil => exact UInt32.or_zero.symm
  | cons i l ih =>
    rw [gather_cons]
    cases hq : q i with
    | true =>
      rw [List.filter_cons_of_pos hq, List.foldl_cons, ih, flag, if_pos rfl, UInt32.or_assoc]
    | false =>
      rw [List.filter_cons_of_neg (Bool.eq_false_iff.1 hq), ih, flag, if_neg Bool.false_ne_true,
        UInt32.zero_or]

end Fields

/-! ### The first word -/

/-- What the first word holds. -/
inductive Field where
  | person
  | direction
  | activePhantom
  | virtual
  | number
  | roll
  | moved
  | slide
  deriving DecidableEq

namespace Field

/-- All the fields, in the order in which the first word is put together. -/
def all : List Field := [person, direction, activePhantom, virtual, number, roll, moved, slide]

/-- The bits of a field. -/
def mask : Field → UInt32
  | person => 0x800
  | direction => 0xB
  | activePhantom => 0x400
  | virtual => 0x200
  | number => 0x1C0
  | roll => 0x06000000
  | moved => 0x08000000
  | slide => 0x30000000

/-- Every field is among them. -/
theorem mem_all (k : Field) : k ∈ all := by
  cases k <;> decide

/-- No two fields have a bit in common. -/
theorem mask_and_mask (i j : Field) (h : i ≠ j) : i.mask &&& j.mask = 0 := by
  cases i <;> cases j <;> first | rfl | exact absurd rfl h

/-- The bits that have a meaning are those of the fields. -/
theorem gather_mask : gather all mask = knownBits := rfl

end Field

/-- What a dancer has in a field. -/
def fieldOf (p : Dancer) : Field → UInt32
  | .person => 0x800
  | .direction => directionBits p.direction
  | .activePhantom => flag 0x400 p.activePhantom
  | .virtual => flag 0x200 p.virtual
  | .number => numberBits p.identity
  | .roll => rollBits p.roll
  | .moved => flag 0x08000000 p.moved
  | .slide => slideBits p.slide

/-- A direction lies in its field. -/
theorem directionBits_and (d : Direction) : directionBits d &&& 0xB = directionBits d := by
  cases d <;> decide

/-- The number of a dancer begins at the sixth bit. -/
theorem numberBits_toNat (i : Option Identity) :
    (numberBits i).toNat = i.elim 0 Identity.number * 2 ^ 6 := by
  cases i with
  | none => rfl
  | some p =>
    obtain ⟨couple, g⟩ := p
    revert couple
    cases g <;> decide

/-- The number of a dancer lies in its field. -/
theorem numberBits_and (i : Option Identity) : numberBits i &&& 0x1C0 = numberBits i := by
  cases i with
  | none => decide
  | some p =>
    obtain ⟨couple, g⟩ := p
    revert couple
    cases g <;> decide

/-- A roll lies in its field. -/
theorem rollBits_and (r : Option Roll) : rollBits r &&& 0x06000000 = rollBits r := by
  cases r with
  | none => decide
  | some r => cases r <;> decide

/-- A slide lies in its field. -/
theorem slideBits_and (s : Option Slide) : slideBits s &&& 0x30000000 = slideBits s := by
  cases s with
  | none => decide
  | some s => cases s <;> decide

/-- **What a dancer has in a field** fits into it. -/
theorem fieldOf_and_mask (p : Dancer) (k : Field) : fieldOf p k &&& k.mask = fieldOf p k := by
  cases k with
  | person => exact UInt32.and_self
  | direction => exact directionBits_and p.direction
  | activePhantom | virtual | moved => exact flag_and _
  | number => exact numberBits_and p.identity
  | roll => exact rollBits_and p.roll
  | slide => exact slideBits_and p.slide

/-- The first word has all the fields and nothing else. -/
theorem id1_pack (p : Dancer) : p.pack.id1 = gather Field.all (fieldOf p) := by
  simp only [Dancer.pack, gather, Field.all, List.foldr, fieldOf, UInt32.or_assoc, UInt32.or_zero]

/-- **The first word of a dancer** has bits with a meaning only, and in each field what the dancer
has. -/
theorem id1_pack_eq_iff {p : Dancer} {w : UInt32} :
    p.pack.id1 = w ↔ w &&& ~~~knownBits = 0 ∧ ∀ k, w &&& Field.mask k = fieldOf p k := by
  rw [eq_comm, id1_pack, eq_gather_iff Field.mask_and_mask (fieldOf_and_mask p) Field.mem_all,
    Field.gather_mask]

/-- A direction is read from the bits that are written for it, and from no others. -/
theorem direction?_eq_some_iff {field : UInt32} {d : Direction} :
    direction? field = some d ↔ field = directionBits d := by
  constructor
  · intro h
    unfold direction? at h
    split_ifs at h <;> cases h <;> assumption
  · rintro rfl
    exact direction?_directionBits d

/-- A slide is read from the bits that are written for it, and from no others. -/
theorem slide?_eq_some_iff {field : UInt32} {s : Option Slide} :
    slide? field = some s ↔ field = slideBits s := by
  constructor
  · intro h
    unfold slide? at h
    split_ifs at h <;> cases h <;> assumption
  · rintro rfl
    exact slide?_slideBits s

/-- Two bits next to each other have four values, and each is a roll or none. -/
theorem and_rollMask (w : UInt32) : w &&& 0x06000000 = 0 ∨ w &&& 0x06000000 = 0x02000000 ∨
    w &&& 0x06000000 = 0x04000000 ∨ w &&& 0x06000000 = 0x06000000 := by
  have hfield : (w &&& 0x06000000).toNat = w.toNat / 2 ^ 25 % 4 * 2 ^ 25 :=
    and_eq_field w.toNat 25 2 (by decide)
  have hlt : w.toNat / 2 ^ 25 % 4 < 4 := Nat.mod_lt _ (by decide)
  simp only [← UInt32.toNat_inj, hfield]
  change _ = 0 ∨ _ = 0x02000000 ∨ _ = 0x04000000 ∨ _ = 0x06000000
  omega

/-- A roll is read from the bits that are written for it, and from no others of its field. -/
theorem roll_eq_iff {w : UInt32} {r : Option Roll} :
    roll (w &&& 0x06000000) = r ↔ w &&& 0x06000000 = rollBits r := by
  constructor
  · rintro rfl
    rcases and_rollMask w with h | h | h | h <;> rw [h] <;> decide
  · intro h
    rw [h]
    exact roll_rollBits r

/-- A number is read from the bits that are written for it, and from no others of its field. -/
theorem number_eq_iff {w : UInt32} {i : Option Identity} :
    ((w &&& 0x1C0) >>> 6).toNat = i.elim 0 Identity.number ↔ w &&& 0x1C0 = numberBits i := by
  have hfield : (w &&& 0x1C0).toNat = w.toNat / 2 ^ 6 % 8 * 2 ^ 6 :=
    and_eq_field w.toNat 6 3 (by decide)
  rw [← UInt32.toNat_inj, numberBits_toNat, UInt32.toNat_shiftRight, hfield]
  change _ >>> 6 = _ ↔ _
  rw [Nat.shiftRight_eq_div_pow]
  omega

/-- **The fields are read** as what the dancer has. -/
theorem fields_iff {w : UInt32} {p : Dancer} : (∀ k, w &&& Field.mask k = fieldOf p k) ↔
    w &&& 0x800 ≠ 0 ∧ direction? (w &&& 0xB) = some p.direction ∧
      ((w &&& 0x1C0) >>> 6).toNat = p.identity.elim 0 Identity.number ∧
      slide? (w &&& 0x30000000) = some p.slide ∧ p.virtual = (w &&& 0x200 != 0) ∧
      p.activePhantom = (w &&& 0x400 != 0) ∧ roll (w &&& 0x06000000) = p.roll ∧
      p.moved = (w &&& 0x08000000 != 0) := by
  have hbits : (0x800 : UInt32).toNat = 2 ^ 11 ∧ (0x400 : UInt32).toNat = 2 ^ 10 ∧
      (0x200 : UInt32).toNat = 2 ^ 9 ∧ (0x08000000 : UInt32).toNat = 2 ^ 27 := by decide
  obtain ⟨hperson, hphantom, hvirtual, hmoved⟩ := hbits
  have hlive : w &&& 0x800 ≠ 0 ↔ w &&& 0x800 = fieldOf p .person := by
    rw [← bne_iff_ne, eq_comm (b := true), ← and_eq_flag_iff hperson]
    rfl
  rw [hlive, direction?_eq_some_iff, number_eq_iff, slide?_eq_some_iff, roll_eq_iff,
    ← and_eq_flag_iff hphantom, ← and_eq_flag_iff hvirtual, ← and_eq_flag_iff hmoved]
  constructor
  · intro h
    exact ⟨h .person, h .direction, h .number, h .slide, h .virtual, h .activePhantom, h .roll,
      h .moved⟩
  · rintro ⟨hperson, hdirection, hnumber, hslide, hvirtual, hphantom, hroll, hmoved⟩ k
    cases k <;> assumption

/-! ### The second and the third word -/

/-- The bits of roles come from the highest one down. -/
theorem roleBit_toNat (r : Role) : (roleBit r).toNat = 2 ^ (31 - r.index) := by
  cases r <;> decide

/-- No two roles have a bit in common. -/
theorem roleBit_and_roleBit (q r : Role) (h : q ≠ r) : roleBit q &&& roleBit r = 0 := by
  revert h
  cases q <;> cases r <;> decide

/-- The bits of all roles are those of the second word. -/
theorem gather_roleBit : gather Role.all roleBit = roleBits := by decide

/-- Every role is listed. -/
theorem mem_allRoles (r : Role) : r ∈ Role.all := List.mem_of_getElem? (Role.all_index r)

/-- **The second word** has bits of roles only, and that of each role in the set. -/
theorem packRoles_eq_iff {s : RoleSet} {w : UInt32} : packRoles s = w ↔
    w &&& ~~~roleBits = 0 ∧ ∀ r, s.contains r = (w &&& roleBit r != 0) := by
  have hpack : packRoles s = gather Role.all fun r => flag (roleBit r) (s.contains r) := by
    rw [packRoles, RoleSet.toList, foldl_filter, UInt32.zero_or]
  rw [hpack, eq_comm, eq_gather_iff roleBit_and_roleBit (fun r => flag_and _) mem_allRoles,
    gather_roleBit]
  exact and_congr_right fun _ => forall_congr' fun r => and_eq_flag_iff (roleBit_toNat r)

/-- Roles that are read set no other bits. -/
theorem isDeclared_unpackRoles (w : UInt32) : (unpackRoles w).IsDeclared :=
  RoleSet.isDeclared_ofList _

/-- A role is read where its bit is set. -/
theorem contains_unpackRoles (w : UInt32) (r : Role) :
    (unpackRoles w).contains r = (w &&& roleBit r != 0) := by
  rw [unpackRoles, RoleSet.contains_ofList, List.contains_eq_mem, Bool.eq_iff_iff,
    decide_eq_true_iff, List.mem_filter]
  exact and_iff_right (mem_allRoles r)

/-- **The roles are read** as those packed, if they are roles that there are. -/
theorem unpackRoles_eq_iff {s : RoleSet} {w : UInt32} :
    w &&& ~~~roleBits = 0 ∧ s = unpackRoles w ↔ s.IsDeclared ∧ packRoles s = w := by
  rw [packRoles_eq_iff]
  constructor
  · rintro ⟨hw, rfl⟩
    exact ⟨isDeclared_unpackRoles w, hw, contains_unpackRoles w⟩
  · rintro ⟨hs, hw, hcontains⟩
    refine ⟨hw, RoleSet.eq_of_contains hs (isDeclared_unpackRoles w) fun r => ?_⟩
    rw [hcontains, contains_unpackRoles]

/-- The bits of a known dancer are not those of nobody. -/
theorem identityBits_ne_zero (p : Identity) : identityBits p ≠ 0 := by
  obtain ⟨couple, g⟩ := p
  revert couple
  cases g <;> decide

/-- **The number and the third word** agree on an identity, or on nobody. -/
theorem identity?_eq_some_iff {number id3 : UInt32} {i : Option Identity} :
    identity? number id3 = some i ↔
      number.toNat = i.elim 0 Identity.number ∧ i.elim 0 identityBits = id3 := by
  unfold identity?
  by_cases hnobody : id3 = 0
  · rw [if_pos hnobody]
    cases i with
    | none => simp [hnobody, ← UInt32.toNat_inj]
    | some p =>
      simp only [Option.elim_some, hnobody, identityBits_ne_zero, and_false, iff_false]
      split <;> nofun
  · rw [if_neg hnobody]
    cases i with
    | none =>
      simp only [Option.elim_none, Ne.symm hnobody, and_false, iff_false]
      repeat' split
      all_goals nofun
    | some p =>
      simp only [Option.elim_some, ← Identity.ofNumber?_eq_some_iff]
      cases hq : Identity.ofNumber? number.toNat with
      | none => simp
      | some q =>
        simp only [Option.ite_none_right_eq_some, Option.some.injEq, and_comm, and_congr_right_iff]
        rintro rfl
        rfl

end PackedDancer

/-! ### Dancers -/

namespace Dancer

open PackedDancer

/-- A fault ends the reading. -/
theorem throw_bind {ε α β : Type} (e : ε) (k : α → Except ε β) :
    ((throw e : Except ε α) >>= k) = .error e := rfl

/-- To stop is to give an error. -/
theorem throw_eq_error {ε α : Type} (e : ε) : (throw e : Except ε α) = .error e := rfl

/-- **What is checked** before a dancer is read, and what is then read. -/
theorem unpack_eq_ok {w : PackedDancer} {p : Dancer} : unpack w = .ok p ↔
    w.id1 &&& 0x800 ≠ 0 ∧ w.id1 &&& ~~~knownBits = 0 ∧
      direction? (w.id1 &&& 0xB) = some p.direction ∧
      identity? ((w.id1 &&& 0x1C0) >>> 6) w.id3 = some p.identity ∧
      w.id2 &&& ~~~roleBits = 0 ∧ slide? (w.id1 &&& 0x30000000) = some p.slide ∧
      p.virtual = (w.id1 &&& 0x200 != 0) ∧ p.activePhantom = (w.id1 &&& 0x400 != 0) ∧
      PackedDancer.roll (w.id1 &&& 0x06000000) = p.roll ∧
      p.moved = (w.id1 &&& 0x08000000 != 0) ∧ p.roles = unpackRoles w.id2 := by
  by_cases hperson : w.id1 &&& 0x800 = 0
  · simp [unpack, throw_bind, hperson]
  by_cases hknown : w.id1 &&& ~~~knownBits = 0
  swap
  · simp [unpack, throw_bind, hperson, hknown]
  cases hdirection : direction? (w.id1 &&& 0xB) with
  | none => simp [unpack, throw_eq_error, hperson, hknown, hdirection]
  | some direction =>
    cases hidentity : identity? ((w.id1 &&& 0x1C0) >>> 6) w.id3 with
    | none => simp [unpack, throw_eq_error, hperson, hknown, hdirection, hidentity]
    | some identity =>
      by_cases hroles : w.id2 &&& ~~~roleBits = 0
      swap
      · simp [unpack, throw_bind, hperson, hknown, hdirection, hidentity, hroles]
      cases hslide : slide? (w.id1 &&& 0x30000000) with
      | none =>
        simp [unpack, throw_eq_error, hperson, hknown, hdirection, hidentity, hroles, hslide]
      | some slide =>
        have hok : unpack w = .ok {
            identity, direction, slide
            virtual := w.id1 &&& 0x200 != 0
            activePhantom := w.id1 &&& 0x400 != 0
            roll := PackedDancer.roll (w.id1 &&& 0x06000000)
            moved := w.id1 &&& 0x08000000 != 0
            roles := unpackRoles w.id2 } := by
          simp [unpack, hperson, hknown, hdirection, hidentity, hroles, hslide, pure, Except.pure]
        rw [hok]
        constructor
        · rintro ⟨⟩
          exact ⟨hperson, hknown, rfl, rfl, hroles, rfl, rfl, rfl, rfl, rfl, rfl⟩
        · obtain ⟨_, _, _, _, _, _, _, _⟩ := p
          rintro ⟨-, -, ⟨⟩, ⟨⟩, -, ⟨⟩, rfl, rfl, rfl, rfl, rfl⟩
          rfl

/-- **A dancer is read** from the words that the dancer is packed into. -/
theorem unpack_eq_ok_iff {w : PackedDancer} {p : Dancer} :
    unpack w = .ok p ↔ p.roles.IsDeclared ∧ p.pack = w := by
  have hwords : p.pack = w ↔ p.pack.id1 = w.id1 ∧ packRoles p.roles = w.id2 ∧
      p.identity.elim 0 identityBits = w.id3 := by
    obtain ⟨id1, id2, id3⟩ := w
    exact PackedDancer.mk.injEq .. ▸ Iff.rfl
  have hroles := unpackRoles_eq_iff (s := p.roles) (w := w.id2)
  rw [unpack_eq_ok, hwords, id1_pack_eq_iff, fields_iff, identity?_eq_some_iff]
  tauto

/-- Bits beyond the last role are not packed. -/
theorem exists_pack_eq (p : Dancer) : ∃ q : Dancer, q.roles.IsDeclared ∧ q.pack = p.pack := by
  refine ⟨{ p with roles := unpackRoles (packRoles p.roles) }, isDeclared_unpackRoles _, ?_⟩
  have hword : packRoles p.roles &&& ~~~roleBits = 0 := (packRoles_eq_iff.1 rfl).1
  unfold pack
  rw [(unpackRoles_eq_iff.1 ⟨hword, rfl⟩).2]

/-- **Packing is a bijection.**  Three words are read as a dancer just if the dancer has roles only
that there are and is packed into these words.  So words are read just if some dancer is packed
into them, and no others are read as the same dancer. -/
theorem unpack_iff_pack (w : PackedDancer) (p : Dancer) :
    (unpack w = .ok p ↔ p.roles.IsDeclared ∧ p.pack = w) ∧
      ((∃ q, unpack w = .ok q) ↔ ∃ q : Dancer, q.pack = w) ∧
        ∀ w', unpack w = .ok p → unpack w' = .ok p → w' = w := by
  refine ⟨unpack_eq_ok_iff, ⟨?_, ?_⟩, fun w' h h' => ?_⟩
  · rintro ⟨q, hq⟩
    exact ⟨q, (unpack_eq_ok_iff.1 hq).2⟩
  · rintro ⟨q, rfl⟩
    obtain ⟨q', hdeclared, hpack⟩ := exists_pack_eq q
    exact ⟨q', unpack_eq_ok_iff.2 ⟨hdeclared, hpack⟩⟩
  · rw [← (unpack_eq_ok_iff.1 h).2, (unpack_eq_ok_iff.1 h').2]

end Dancer
end SquareDance
