/-
# Turning a formation half around

A setup that is turned half around in the hall looks as before, with every slot at the place of
another one: slot `i` at `i + size / 2`, counted around, and in a 1x3 at `2 - i`.  Everybody then
faces the other way in the frame of the formation, and the frame is turned by two quarter turns.

The tables of a setup do not see the difference (`Setup.slotRoles_halfTurn`, `Setup.turnsAt_iff`),
except for the 4x4: there the slots 2, 4 and 5 do not lie across from 10, 12 and 13, so that these
slots and their partners have other partners after half a turn.  Everybody else keeps their roles:
`Formation.roles_halfTurn_iff`.
-/

import SquareDance.Proofs.Formation.DerivedRoles

namespace SquareDance

/-! ### Directions -/

namespace Direction

/-- Four quarter turns are none. -/
theorem ofBits_add_four (b : UInt8) : ofBits (b + 4) = ofBits b := by
  have hand : (b + 4) &&& 3 = b &&& 3 := by
    rw [← UInt8.toNat_inj, UInt8.toNat_and, UInt8.toNat_and, UInt8.toNat_add]
    change (b.toNat + 4) % 2 ^ 8 &&& (2 ^ 2 - 1) = b.toNat &&& (2 ^ 2 - 1)
    rw [Nat.and_two_pow_sub_one_eq_mod, Nat.and_two_pow_sub_one_eq_mod]
    omega
  rw [ofBits, ofBits, hand]

/-- Two half turns are none. -/
theorem rotate_opposite (d : Direction) (turns : UInt8) :
    d.opposite.rotate (turns + 2) = d.rotate turns := by
  have hadd : d.opposite.code + (turns + 2) = d.opposite.code + 2 + turns := by
    rw [UInt8.add_comm turns, UInt8.add_assoc]
  have hfour : d.code + 4 + turns = d.code + turns + 4 := by
    rw [UInt8.add_assoc, UInt8.add_comm 4, UInt8.add_assoc]
  have hcode : d.opposite.code + 2 = d.code ∨ d.opposite.code + 2 = d.code + 4 := by
    cases d <;> decide
  rw [rotate, rotate, hadd]
  obtain hcode | hcode := hcode
  · rw [hcode]
  · rw [hcode, hfour, ofBits_add_four]

/-- Two opposites are the same if the directions are. -/
theorem opposite_inj {d e : Direction} : d.opposite = e.opposite ↔ d = e := by
  cases d <;> cases e <;> decide

/-- The code of the direction behind. -/
theorem code_opposite (d : Direction) : d.opposite.code.toNat = (d.code.toNat + 2) % 4 := by
  cases d <;> rfl

end Direction

/-! ### Slots -/

namespace Setup

/-- The slot at whose place a slot is after half a turn. -/
def halfTurn (s : Setup) (slot : Nat) : Nat :=
  if s = .line3 then 2 - slot else (slot + s.size / 2) % s.size

/-- A setup of two halves exchanges them. -/
theorem halfTurn_of_halves {s : Setup} {half : Nat} (h : s.size = 2 * half) (slot : Nat) :
    s.halfTurn slot = (slot + half) % (2 * half) := by
  have hrow : s ≠ .line3 := by
    rintro rfl
    change 3 = 2 * half at h
    omega
  rw [halfTurn, if_neg hrow, h, Nat.mul_div_cancel_left _ (by decide)]

/-- Half a turn stays within the setup. -/
theorem halfTurn_lt {s : Setup} {slot : Nat} (h : slot < s.size) : s.halfTurn slot < s.size := by
  revert slot
  cases s <;> decide

/-- **Two half turns** bring every slot back. -/
theorem halfTurn_halfTurn {s : Setup} {slot : Nat} (h : slot < s.size) :
    s.halfTurn (s.halfTurn slot) = slot := by
  revert slot
  cases s <;> decide

/-- A slot has the roles of the one across. -/
theorem slotRoles_halfTurn {s : Setup} {slot : Nat} (h : slot < s.size) :
    s.slotRoles[s.halfTurn slot]? = s.slotRoles[slot]? := by
  revert slot
  cases s <;> decide

/-- The partners of a slot turn along: after half a turn they are partners again, the first one
second. -/
structure TurnsAt (s : Setup) (slot : Nat) : Prop where
  lateral : s.lateralPartner (s.halfTurn slot)
    = (s.lateralPartner slot).map fun p => (s.halfTurn p.1, !p.2)
  tandem : s.tandemPartner (s.halfTurn slot)
    = (s.tandemPartner slot).map fun p => (s.halfTurn p.1, !p.2)

instance (s : Setup) (slot : Nat) : Decidable (s.TurnsAt slot) :=
  decidable_of_iff (_ ∧ _) ⟨fun h => ⟨h.1, h.2⟩, fun h => ⟨h.lateral, h.tandem⟩⟩

/-- The slots of a 4x4 whose partners turn along. -/
def turningSlots : List Nat := [0, 1, 3, 6, 8, 9, 11, 14]

/-- **Partners turn along** in all setups but the 4x4, where they do for half of the slots. -/
theorem turnsAt_iff {s : Setup} {slot : Nat} (h : slot < s.size) :
    s.TurnsAt slot ↔ s ≠ .grid4x4 ∨ slot ∈ turningSlots := by
  revert slot
  cases s <;> decide

end Setup

/-! ### Formations -/

/-- The person facing the other way. -/
def Dancer.reversed (p : Dancer) : Dancer := { p with direction := p.direction.opposite }

namespace Formation

variable {f f' : Formation} {slot : Nat} {d : Direction}

/-- The formation turned half around: each slot has the person of the slot whose place it is at,
reversed. -/
def halfTurn (f : Formation) : Formation :=
  { f with
    slots := .ofFn fun slot => (f.dancer? (f.setup.halfTurn slot)).map Dancer.reversed
    rotation := f.rotation + 2 }

/-- A formation is another one turned half around, whatever is assumed about it. -/
structure TurnsTo (f f' : Formation) : Prop where
  setup : f'.setup = f.setup
  rotation : f'.rotation = f.rotation + 2
  rotationImprecise : f'.rotationImprecise = f.rotationImprecise
  dancer? : ∀ slot < f.size, f'.dancer? (f.setup.halfTurn slot) =
    (f.dancer? slot).map Dancer.reversed

/-- A formation that is turned half around is so turned. -/
theorem turnsTo_halfTurn (f : Formation) : f.TurnsTo f.halfTurn where
  setup := rfl
  rotation := rfl
  rotationImprecise := rfl
  dancer? slot hslot := by
    have hget : f.halfTurn.slots[f.setup.halfTurn slot]?
        = some ((f.dancer? (f.setup.halfTurn (f.setup.halfTurn slot))).map Dancer.reversed) := by
      change (Vector.ofFn _)[f.setup.halfTurn slot]? = _
      rw [Vector.getElem?_ofFn, dif_pos (Setup.halfTurn_lt hslot)]
    rw [Formation.dancer?, hget, Option.join_some, Setup.halfTurn_halfTurn hslot]

namespace TurnsTo

/-- The size stays. -/
theorem size (h : f.TurnsTo f') : f'.size = f.size := congrArg Setup.size h.setup

/-- Half a turn leads back, as far as people are concerned. -/
theorem dancer?_eq (h : f.TurnsTo f') (hslot : slot < f.size) :
    f'.dancer? slot = (f.dancer? (f.setup.halfTurn slot)).map Dancer.reversed := by
  rw [← h.dancer? _ (Setup.halfTurn_lt hslot), Setup.halfTurn_halfTurn hslot]

/-! ### Roles -/

/-- Partners at the side turn along, if those of the setup do. -/
theorem sidePartner (ht : f.setup.TurnsAt slot) :
    sidePartner f.setup (f.setup.halfTurn slot) d.opposite
      = (Formation.sidePartner f.setup slot d).map fun p => (f.setup.halfTurn p.1, !p.2) := by
  unfold Formation.sidePartner
  rw [Direction.isNorthSouth_opposite]
  split
  · exact ht.lateral
  · exact ht.tandem

/-- Partners in front and behind turn along, if those of the setup do. -/
theorem filePartner (ht : f.setup.TurnsAt slot) :
    filePartner f.setup (f.setup.halfTurn slot) d.opposite
      = (Formation.filePartner f.setup slot d).map fun p => (f.setup.halfTurn p.1, !p.2) := by
  unfold Formation.filePartner
  rw [Direction.isNorthSouth_opposite]
  split
  · exact ht.tandem
  · exact ht.lateral

/-- Beaus and belles stay so, where partners turn along. -/
theorem handRoles (ht : f.setup.TurnsAt slot) :
    handRoles f.setup (f.setup.halfTurn slot) d.opposite = Formation.handRoles f.setup slot d := by
  have hright : ∀ first, partnerOnRight d.opposite (!first) = partnerOnRight d first := by
    cases d <;> decide
  unfold Formation.handRoles
  rw [sidePartner ht]
  cases Formation.sidePartner f.setup slot d with
  | none => rfl
  | some p => simp only [Option.map_some, hright]

/-- Whoever faced back faces back. -/
theorem facesBack (h : f.TurnsTo f') (hslot : slot < f.size) :
    f'.facesBack (f.setup.halfTurn slot) d.opposite = f.facesBack slot d := by
  unfold Formation.facesBack
  rw [h.dancer? slot hslot]
  cases f.dancer? slot with
  | none => rfl
  | some q =>
    simp only [Option.map_some, Option.any_some, Dancer.reversed, Bool.beq_eq_decide_eq,
      Direction.opposite_inj]

/-- A partner stands on a slot of the setup. -/
theorem filePartner_lt {partner : Nat} {first : Bool}
    (hpartner : Formation.filePartner f.setup slot d = some (partner, first)) :
    partner < f.size := by
  have hpairs := f.setup.pairs_lt
  unfold Formation.filePartner at hpartner
  split at hpartner
  · exact Setup.partnerIn_lt (fun p hp => hpairs p (List.mem_append_right _ hp)) hpartner
  · exact Setup.partnerIn_lt (fun p hp => hpairs p (List.mem_append_left _ hp)) hpartner

/-- Leads and trailers stay so, and who is facing, where partners turn along. -/
theorem fileRoles (h : f.TurnsTo f') (ht : f.setup.TurnsAt slot) :
    f'.fileRoles (f.setup.halfTurn slot) d.opposite = f.fileRoles slot d := by
  have hbehind : ∀ first, partnerBehind d.opposite (!first) = partnerBehind d first := by
    cases d <;> decide
  unfold Formation.fileRoles
  rw [h.setup, filePartner ht]
  cases hpartner : Formation.filePartner f.setup slot d with
  | none => rfl
  | some p =>
    obtain ⟨partner, first⟩ := p
    simp only [Option.map_some, hbehind, h.facesBack (filePartner_lt hpartner)]

/-- Everybody faces the same wall of the hall, as the formation was turned too. -/
theorem wallRoles (h : f.TurnsTo f') : f'.wallRoles d.opposite = f.wallRoles d := by
  unfold Formation.wallRoles
  rw [h.rotationImprecise, h.rotation, Direction.rotate_opposite]

/-- **The roles of a place** are those it had, where partners turn along. -/
theorem rolesAt (h : f.TurnsTo f') (ht : f.setup.TurnsAt slot) (hslot : slot < f.size) :
    f'.rolesAt (f.setup.halfTurn slot) d.opposite = f.rolesAt slot d := by
  unfold Formation.rolesAt
  rw [h.fileRoles ht, h.wallRoles, h.setup, handRoles ht, Setup.slotRoles_halfTurn hslot]

/-- Whoever stands on a slot where partners turn along has the same roles after half a turn. -/
theorem dancer?_updateRoles (h : f.TurnsTo f') (ht : f.setup.TurnsAt slot) (hslot : slot < f.size) :
    f'.updateRoles.dancer? (f.setup.halfTurn slot)
      = (f.updateRoles.dancer? slot).map Dancer.reversed := by
  rw [Formation.dancer?_updateRoles, Formation.dancer?_updateRoles, h.dancer? slot hslot]
  cases f.dancer? slot with
  | none => rfl
  | some q =>
    have hroles : f'.rolesAt (f.setup.halfTurn slot) q.direction.opposite
        = f.rolesAt slot q.direction := h.rolesAt ht hslot
    simp only [Option.map_some, Dancer.reversed, hroles]

/-- **Giving people their roles** goes along with half a turn. -/
theorem updateRoles (h : f.TurnsTo f') (hs : f.setup ≠ .grid4x4) :
    f.updateRoles.TurnsTo f'.updateRoles where
  setup := h.setup
  rotation := h.rotation
  rotationImprecise := h.rotationImprecise
  dancer? _ hslot := h.dancer?_updateRoles ((Setup.turnsAt_iff hslot).2 (.inl hs)) hslot

end TurnsTo

/-- The roles of the person on a slot. -/
def roles? (f : Formation) (slot : Nat) : Option RoleSet := (f.dancer? slot).map (·.roles)

/-- Roles that are derived after half a turn are those derived before. -/
theorem roles?_halfTurn (ht : f.setup.TurnsAt slot) (hslot : slot < f.size) :
    f.halfTurn.updateRoles.roles? (f.setup.halfTurn slot) = f.updateRoles.roles? slot := by
  rw [roles?, f.turnsTo_halfTurn.dancer?_updateRoles ht hslot, Option.map_map]
  rfl

/-- Half a turn goes half the slots on, in a setup of an even number. -/
theorem halfTurn_of_even {s : Setup} (heven : s.size % 2 = 0) (slot : Nat) :
    s.halfTurn slot = (slot + s.size / 2) % s.size := by
  rw [Setup.halfTurn, if_neg]
  rintro rfl
  cases heven

/-- The slot where somebody would face north is, for who faces south, the one half around. -/
theorem northSlot?_of_south {p : Dancer} (hp : f.dancer? slot = some p)
    (hsouth : p.direction = .south) :
    f.northSlot? slot = some ((slot + f.setup.size / 2) % f.setup.size) := by
  have hoffset : (4 - 2) * f.setup.size / 4 = f.setup.size / 2 := by omega
  rw [northSlot?, hp, Option.map_some, hsouth]
  change some ((slot + if f.setup.isSingleRow then 1 * (f.setup.size / 2)
    else (4 - 2) * f.setup.size / 4) % f.setup.size) = _
  rw [hoffset, Nat.one_mul, ite_self]

/-- A 4x4 with a person on every slot, three of whom face south. -/
def fullGrid : Formation where
  setup := .grid4x4
  slots := .ofFn fun slot =>
    some { direction := if slot.val ∈ [5, 7, 13] then .south else .north }

/-- Where partners do not turn along, somebody's roles change. -/
theorem roles?_halfTurn_fullGrid : ∀ slot < 16, slot ∉ Setup.turningSlots →
    fullGrid.halfTurn.updateRoles.roles? ((slot + 8) % 16) ≠ fullGrid.updateRoles.roles? slot := by
  decide +kernel

/-- **Who keeps their roles when the setup is turned half around.**  People then stand on the slot
that `northSlot?` names for whoever faces south.  In every setup of two halves but the 4x4, and at
half of the slots of a 4x4, they have the roles there that they had before; at each other slot of
a 4x4 there is somebody whose roles change. -/
theorem roles_halfTurn_iff {s : Setup} (heven : s.size % 2 = 0) {slot : Nat}
    (hslot : slot < s.size) :
    (∀ f : Formation, f.setup = s → ∀ p, f.dancer? slot = some p → p.direction = .south →
        f.northSlot? slot = some ((slot + s.size / 2) % s.size)) ∧
      ((∀ f : Formation, f.setup = s →
          f.halfTurn.updateRoles.roles? ((slot + s.size / 2) % s.size) = f.updateRoles.roles? slot)
        ↔ s ≠ .grid4x4 ∨ slot ∈ Setup.turningSlots) := by
  refine ⟨?_, ?_, ?_⟩
  · rintro f rfl p hp hsouth
    exact northSlot?_of_south hp hsouth
  · intro hkeeps
    by_contra hslots
    obtain ⟨hgrid, hturns⟩ := not_or.1 hslots
    obtain rfl := not_not.1 hgrid
    exact roles?_halfTurn_fullGrid slot hslot hturns (hkeeps fullGrid rfl)
  · rintro hturns f rfl
    rw [← halfTurn_of_even heven]
    exact roles?_halfTurn ((Setup.turnsAt_iff hslot).2 hturns) hslot

/-- On slot 14 of a full 4x4 the roles stay. -/
theorem roles_halfTurn_iff_fullGrid : Setup.grid4x4.size % 2 = 0 ∧ 14 < Setup.grid4x4.size ∧
    14 ∈ Setup.turningSlots ∧
      fullGrid.halfTurn.updateRoles.roles? ((14 + Setup.grid4x4.size / 2) % Setup.grid4x4.size)
        = fullGrid.updateRoles.roles? 14 := by
  have heven : Setup.grid4x4.size % 2 = 0 := by decide
  have hslot : 14 < Setup.grid4x4.size := by decide
  have hturns : 14 ∈ Setup.turningSlots := by decide
  exact ⟨heven, hslot, hturns, (roles_halfTurn_iff heven hslot).2.2 (.inr hturns) fullGrid rfl⟩

/-- A 4x4 with one person in it, on the corner slot 12, who faces north. -/
def gridCorner : Formation where
  setup := .grid4x4
  slots := .ofFn fun slot => if slot.val = 12 then some { direction := .north } else none

/-- **A beau is a belle** after half a turn, on a corner of a 4x4. -/
theorem roles_halfTurn_gridCorner :
    gridCorner.updateRoles.roles? 12
        = some (.ofList [.atEnd, .outerPairs, .beau, .lead, .notFacing, .faceBack]) ∧
      gridCorner.halfTurn.updateRoles.roles? ((12 + 16 / 2) % 16)
        = some (.ofList [.atEnd, .outerPairs, .belle, .lead, .notFacing, .faceBack]) := by
  decide +kernel

end Formation
end SquareDance
