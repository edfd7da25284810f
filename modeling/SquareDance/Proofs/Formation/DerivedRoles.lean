/-
# Where the roles of a person come from

Each role has one source (`Role.source`):

| source | roles |
| --- | --- |
| the slot | the positional ones |
| the slot at the side | beau, belle |
| the slot in front or behind | lead, trailer, facing, not facing |
| the wall | the four of facing a wall |

The roles of a place are listed source by source, and the list of a source has roles of that source
only (`Formation.source_of_mem`).  So one list tells whether a person has a role:
`Formation.contains_rolesOf`.
-/

import Mathlib.Data.Nat.Bitwise
import SquareDance.Formation.Roles

namespace SquareDance

/-! ### Sets of roles -/

namespace Role

/-- What a role goes by. -/
inductive Source where
  | slot
  | side
  | file
  | wall
  deriving DecidableEq

/-- What each role goes by. -/
def source : Role → Source
  | beau | belle => .side
  | lead | trailer | facing | notFacing => .file
  | faceFront | faceBack | faceLeft | faceRight => .wall
  | _ => .slot

end Role

namespace RoleSet

/-- A role belongs to a set by its bit. -/
theorem contains_eq_testBit (s : RoleSet) (r : Role) :
    s.contains r = s.bits.toNat.testBit r.index := by
  have hbit : (bit r).toNat = 2 ^ r.index := by cases r <;> rfl
  rw [contains, bne, Bool.eq_iff_iff, Bool.not_eq_true', beq_eq_false_iff_ne, ne_eq,
    ← UInt32.toNat_inj, UInt32.toNat_and, hbit, Nat.and_two_pow]
  cases s.bits.toNat.testBit r.index <;> simp

/-- A set with one role more has this role and its own. -/
theorem contains_insert (s : RoleSet) (q r : Role) :
    (s.insert q).contains r = (s.contains r || q == r) := by
  have hbit : (bit q).toNat.testBit r.index = (q == r) := by
    rw [← contains_eq_testBit ⟨bit q⟩ r]
    cases q <;> cases r <;> rfl
  rw [contains_eq_testBit, contains_eq_testBit, insert, UInt32.toNat_or, Nat.testBit_or, hbit]

/-- Two sets have in common the roles that both have. -/
theorem contains_inter (s t : RoleSet) (r : Role) :
    (s.inter t).contains r = (s.contains r && t.contains r) := by
  simp only [contains_eq_testBit, inter, UInt32.toNat_and, Nat.testBit_and]

/-- Roles may be put in one after the other. -/
theorem contains_foldl_insert (rs : List Role) (s : RoleSet) (r : Role) :
    (rs.foldl insert s).contains r = (s.contains r || rs.contains r) := by
  induction rs generalizing s with
  | nil => simp
  | cons q rs ih =>
    rw [List.foldl_cons, ih, contains_insert, List.contains_cons, Bool.or_assoc, BEq.comm (a := q)]

/-- **The set of the listed roles has just those.** -/
theorem contains_ofList (rs : List Role) (r : Role) : (ofList rs).contains r = rs.contains r := by
  rw [ofList, contains_foldl_insert, contains_empty, Bool.false_or]

/-- The positional roles are those that go by the slot. -/
theorem contains_positional (r : Role) : positional.contains r = (r.source == .slot) := by
  cases r <;> rfl

end RoleSet

/-! ### Tables of a setup -/

namespace Setup

variable {s : Setup} {slot : Nat} {r : Role}

/-- The roles that a slot has of itself, as a list; none outside the setup. -/
def rolesOfSlot (s : Setup) (slot : Nat) : List Role := s.slotRoles[slot]?.getD []

/-- What holds of every row of the table, and of no roles at all, holds of every slot. -/
theorem rolesOfSlot_of_forall {P : List Role → Prop} (hnone : P [])
    (hrows : ∀ rs ∈ s.slotRoles, P rs) (slot : Nat) : P (s.rolesOfSlot slot) := by
  unfold rolesOfSlot
  cases hrs : s.slotRoles[slot]? with
  | none => exact hnone
  | some rs => exact hrows rs (List.mem_of_getElem? hrs)

/-- The set of the roles of a slot has those of its list. -/
theorem contains_positionalRoles (s : Setup) (slot : Nat) (r : Role) :
    (s.positionalRoles slot).contains r = (s.rolesOfSlot slot).contains r :=
  RoleSet.contains_ofList _ r

/-- The roles of a slot go by the slot. -/
theorem source_of_mem_rolesOfSlot (h : r ∈ s.rolesOfSlot slot) : r.source = .slot := by
  refine rolesOfSlot_of_forall (P := fun rs => ∀ r ∈ rs, r.source = .slot) ?_ ?_ slot r h
  · exact fun _ hr => absurd hr List.not_mem_nil
  · cases s <;> decide

/-- No slot is a center and an end. -/
theorem not_center_and_atEnd (s : Setup) (slot : Nat) :
    ¬(.center ∈ s.rolesOfSlot slot ∧ .atEnd ∈ s.rolesOfSlot slot) := by
  refine rolesOfSlot_of_forall (P := fun rs => ¬(.center ∈ rs ∧ .atEnd ∈ rs)) (by decide) ?_ slot
  cases s <;> decide

/-- The pair of a slot and its partner, the first one first. -/
def pairOf (slot partner : Nat) (first : Bool) : Nat × Nat :=
  if first then (slot, partner) else (partner, slot)

/-- The pair is the same from the other side. -/
theorem pairOf_not (slot partner : Nat) (first : Bool) :
    pairOf partner slot (!first) = pairOf slot partner first := by
  cases first <;> rfl

/-- Who is found as a partner is in a pair with the slot. -/
theorem mem_of_partnerIn {pairs : List (Nat × Nat)} {partner : Nat} {first : Bool}
    (h : partnerIn pairs slot = some (partner, first)) : pairOf slot partner first ∈ pairs := by
  obtain ⟨⟨a, b⟩, hmem, hpair⟩ := List.exists_of_findSome?_eq_some h
  dsimp only at hpair
  split at hpair
  · rename_i ha
    cases hpair
    exact ha ▸ hmem
  · split at hpair
    · rename_i hb
      cases hpair
      exact hb ▸ hmem
    · cases hpair

/-- A partner in a list of pairs is named in it. -/
theorem partnerIn_lt {pairs : List (Nat × Nat)} {n partner : Nat} {first : Bool}
    (hpairs : ∀ p ∈ pairs, p.1 < n ∧ p.2 < n) (h : partnerIn pairs slot = some (partner, first)) :
    partner < n := by
  have hlt := hpairs _ (mem_of_partnerIn h)
  cases first
  · exact hlt.1
  · exact hlt.2

/-- The slots that a list of pairs names. -/
def namedIn (pairs : List (Nat × Nat)) : List Nat := pairs.flatMap fun p => [p.1, p.2]

/-- **Partners are the slots of a pair**, in a list that names no slot twice. -/
theorem partnerIn_eq_some_iff {pairs : List (Nat × Nat)} (hnodup : (namedIn pairs).Nodup)
    {partner : Nat} {first : Bool} :
    partnerIn pairs slot = some (partner, first) ↔ pairOf slot partner first ∈ pairs := by
  refine ⟨mem_of_partnerIn, fun hmem => ?_⟩
  induction pairs with
  | nil => cases hmem
  | cons p pairs ih =>
    obtain ⟨a, b⟩ := p
    have hnames : (a ≠ b ∧ a ∉ namedIn pairs) ∧ b ∉ namedIn pairs ∧ (namedIn pairs).Nodup := by
      simpa [namedIn] using hnodup
    obtain ⟨⟨hab, ha⟩, hb, htail⟩ := hnames
    unfold partnerIn
    rw [List.findSome?_cons]
    obtain hhead | hrest := List.mem_cons.1 hmem
    · cases first with
      | true =>
        cases hhead
        simp
      | false =>
        cases hhead
        simp [hab]
    · -- The slot is named in the rest, so that the first pair is not its own.
      have hslot : slot ∈ namedIn pairs :=
        List.mem_flatMap.2 ⟨_, hrest, by cases first <;> simp [pairOf]⟩
      have hne : a ≠ slot ∧ b ≠ slot :=
        ⟨fun h => ha (h ▸ hslot), fun h => hb (h ▸ hslot)⟩
      simp only [hne.1, hne.2, if_false]
      exact ih htail hrest

/-- **Partners are each other's partners**, and one of them comes first. -/
theorem partnerIn_comm {pairs : List (Nat × Nat)} (hnodup : (namedIn pairs).Nodup)
    {partner : Nat} {first : Bool} (h : partnerIn pairs slot = some (partner, first)) :
    partnerIn pairs partner = some (slot, !first) := by
  rw [partnerIn_eq_some_iff hnodup] at h ⊢
  rwa [pairOf_not]

/-- No setup has a slot in two of its lateral pairs, or in two of its tandem pairs. -/
theorem nodup_namedIn (s : Setup) :
    (namedIn s.lateralPairs).Nodup ∧ (namedIn s.tandemPairs).Nodup := by
  cases s <;> decide

end Setup

/-! ### The roles of a place, source by source -/

namespace Formation

variable {f : Formation} {slot : Nat} {d : Direction} {r : Role} {source : Role.Source}

/-- The roles of a place from one source. -/
def rolesFrom (f : Formation) (slot : Nat) (d : Direction) : Role.Source → List Role
  | .slot => f.setup.rolesOfSlot slot
  | .side => handRoles f.setup slot d
  | .file => f.fileRoles slot d
  | .wall => f.wallRoles d

/-- The list of a source has roles of that source only. -/
theorem source_of_mem (h : r ∈ f.rolesFrom slot d source) : r.source = source := by
  cases source with
  | slot => exact Setup.source_of_mem_rolesOfSlot h
  | side =>
    simp only [rolesFrom, handRoles] at h
    split at h
    · cases h
    · split at h <;> cases List.mem_singleton.1 h <;> rfl
  | file =>
    simp only [rolesFrom, fileRoles] at h
    split at h
    · cases h
    · obtain h | h := List.mem_cons.1 h
      · split at h <;> cases h <;> rfl
      · split at h <;> cases List.mem_singleton.1 h <;> rfl
  | wall =>
    simp only [rolesFrom, wallRoles] at h
    split at h
    · cases h
    · split at h <;> cases List.mem_singleton.1 h <;> rfl

/-- The roles of a place are those from all sources. -/
theorem mem_rolesAt : r ∈ f.rolesAt slot d ↔ ∃ source, r ∈ f.rolesFrom slot d source := by
  constructor
  · intro h
    simp only [rolesAt, List.mem_append] at h
    obtain ((h | h) | h) | h := h
    exacts [⟨.slot, h⟩, ⟨.side, h⟩, ⟨.file, h⟩, ⟨.wall, h⟩]
  · rintro ⟨source, h⟩
    simp only [rolesAt, List.mem_append]
    cases source with
    | slot => exact .inl (.inl (.inl h))
    | side => exact .inl (.inl (.inr h))
    | file => exact .inl (.inr h)
    | wall => exact .inr h

/-- **A place has a role** just if the list from the role's source has it. -/
theorem contains_rolesAt (f : Formation) (slot : Nat) (d : Direction) (r : Role) :
    (f.rolesAt slot d).contains r = (f.rolesFrom slot d r.source).contains r := by
  rw [Bool.eq_iff_iff, List.contains_iff_mem, List.contains_iff_mem, mem_rolesAt]
  constructor
  · rintro ⟨source, h⟩
    rwa [source_of_mem h]
  · exact fun h => ⟨_, h⟩

/-- **Somebody has a role** just if the list from the role's source has it. -/
theorem contains_rolesOf {q : Dancer} (hq : f.updateRoles.dancer? slot = some q) (r : Role) :
    q.roles.contains r = (f.rolesFrom slot q.direction r.source).contains r := by
  rw [dancer?_updateRoles, Option.map_eq_some_iff] at hq
  obtain ⟨p, -, rfl⟩ := hq
  rw [RoleSet.contains_ofList, contains_rolesAt]

end Formation
end SquareDance
