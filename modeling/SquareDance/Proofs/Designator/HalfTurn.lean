/-
# Designators after half a turn

A designator picks the same people after the whole formation was turned half around:
`Formation.picks_halfTurn`.  Everybody keeps their roles and who they are, so that most
designators need nothing else.  The others look at the whole formation: ordinals at the words of
directions and live slots, where a row of a 1x4 that faced forward now faces backward and is
counted from its other end; halves of a 2x4 at the rotation of the formation in the hall; and
"some" at pairs of slots.
-/

import SquareDance.Proofs.Designator.Ordinals
import SquareDance.Proofs.Designator.SomeGroups
import SquareDance.Proofs.Designator.Subjects

namespace SquareDance

/-! ### Subjects -/

/-- The subject facing the other way. -/
def Subject.reversed (s : Subject) : Subject := { s with dancer? := s.dancer?.map Dancer.reversed }

namespace Subject

variable (s : Subject)

/-- Who faces the other way keeps their roles. -/
@[simp] theorem roles_reversed : s.reversed.roles = s.roles := rfl

/-- Who faces the other way is as doubtful as before. -/
@[simp] theorem undecided_reversed : s.reversed.undecided = s.undecided := by
  rw [undecided, undecided, reversed, Option.isSome_map]

/-- Who faces the other way is who they were. -/
@[simp] theorem identity_reversed : s.reversed.identity = s.identity := by
  rw [identity, identity, reversed, Option.bind_map]
  rfl

/-- A pair of roles says the same of who faces the other way. -/
@[simp] theorem pair?_reversed (yes no : Role) : s.reversed.pair? yes no = s.pair? yes no := rfl

/-- Two roles decide the same of who faces the other way. -/
@[simp] theorem decide_reversed (yes no : Role) : s.reversed.decide yes no = s.decide yes no := by
  rw [decide, decide, pair?_reversed, undecided_reversed]

/-- Pairs of roles decide the same of who faces the other way. -/
@[simp] theorem decideFirst_reversed (pairs : List (Role × Role)) :
    s.reversed.decideFirst pairs = s.decideFirst pairs := by
  unfold decideFirst
  simp only [pair?_reversed, undecided_reversed]

/-- The wall that somebody faces is told by their roles. -/
@[simp] theorem wall_reversed : s.reversed.wall = s.wall := by
  rw [wall, wall, roles_reversed, undecided_reversed]

end Subject

namespace Formation

variable {f f' : Formation} {slot : Nat} {s : Subject}

/-- Outer pairs are told by roles. -/
@[simp] theorem isOuterPairs_reversed (s : Subject) : isOuterPairs s.reversed = isOuterPairs s := by
  rw [isOuterPairs, isOuterPairs, Subject.roles_reversed, Subject.undecided_reversed]

/-- Mystic beaus are told by roles, and by who somebody is. -/
@[simp] theorem isMysticBeau_reversed (s : Subject) : isMysticBeau s.reversed = isMysticBeau s := by
  rw [isMysticBeau, isMysticBeau, Subject.decide_reversed, Subject.roles_reversed,
    Subject.undecided_reversed]

/-- A real dancer is one whichever way they face. -/
@[simp] theorem realIdentity_reversed (s : Subject) : realIdentity s.reversed = realIdentity s := by
  unfold realIdentity
  rw [Subject.identity_reversed, Subject.reversed]
  cases s.dancer? <;> rfl

namespace TurnsTo

/-- The slot across has the same roles. -/
theorem positionalRoles {setup : Setup} (hslot : slot < setup.size) :
    setup.positionalRoles (setup.halfTurn slot) = setup.positionalRoles slot := by
  rw [Setup.positionalRoles, Setup.positionalRoles, Setup.slotRoles_halfTurn hslot]

/-- **The subject** faces the other way. -/
theorem subject (h : f.TurnsTo f') (d : Designator) (hslot : slot < f.size) :
    f'.subject d (f.setup.halfTurn slot) = (f.subject d slot).map Subject.reversed := by
  unfold Formation.subject
  rw [h.dancer? slot hslot, h.size, h.setup, positionalRoles hslot]
  cases f.dancer? slot with
  | some p => rfl
  | none =>
    have hturned : f.setup.halfTurn slot < f.size := Setup.halfTurn_lt hslot
    simp only [Option.map_none, hslot, hturned, true_and]
    split <;> rfl

end TurnsTo

/-! ### Ordinals -/

/-- Turned half around, a mask of facings is another one: each digit is at the place of another
slot and stands for the direction behind. -/
def TurnsMask (setup : Setup) (mask mask' : UInt32) : Prop :=
  ∀ slot < setup.size, digit mask' (setup.size - 1 - setup.halfTurn slot)
    = (digit mask (setup.size - 1 - slot) + 2) % 4

instance (setup : Setup) (mask mask' : UInt32) : Decidable (TurnsMask setup mask mask') :=
  inferInstanceAs (Decidable (∀ slot < setup.size, _))

/-- Everybody faces as the turned mask says if they faced as the mask says. -/
theorem TurnsTo.faces (h : f.TurnsTo f') {mask mask' : UInt32}
    (hmask : TurnsMask f.setup mask mask') : f'.Faces mask' ↔ f.Faces mask := by
  constructor
  · intro hfaces slot hslot p hp
    have hturned := hfaces (f.setup.halfTurn slot) (h.size ▸ Setup.halfTurn_lt hslot) p.reversed
      (by rw [h.dancer? slot hslot, hp, Option.map_some])
    have hcode : p.direction.code.toNat < 4 := by cases p.direction <;> decide
    have hdigit := digit_lt mask (f.size - 1 - slot)
    rw [h.size] at hturned
    have hback := hturned.symm.trans (Direction.code_opposite _)
    rw [Formation.size, hmask slot hslot, ← Formation.size] at hback
    omega
  · intro hfaces slot hslot p hp
    rw [h.size] at hslot ⊢
    rw [h.dancer?_eq hslot, Option.map_eq_some_iff] at hp
    obtain ⟨q, hq, rfl⟩ := hp
    have hlt := Setup.halfTurn_lt hslot
    have hface := hfaces _ hlt q hq
    have hturned := hmask _ hlt
    rw [Formation.size] at hface
    rw [Setup.halfTurn_halfTurn hslot, ← hface] at hturned
    exact (Direction.code_opposite _).trans hturned.symm

namespace Rows

/-- Half a turn leaves the rows as they are. -/
structure IsFixed (r : Rows) (setup : Setup) (along : Bool) : Prop where
  ahead : TurnsMask setup (r.ahead along) (r.ahead along)
  behind : TurnsMask setup (r.behind along) (r.behind along)
  position : ∀ slot < setup.size, r.position (setup.halfTurn slot) = r.position slot

/-- Half a turn makes the last of a row the first. -/
structure IsReversed (r : Rows) (setup : Setup) (along : Bool) : Prop where
  ahead : TurnsMask setup (r.ahead along) (r.behind along)
  behind : TurnsMask setup (r.behind along) (r.ahead along)
  position : ∀ slot < setup.size,
    r.position (setup.halfTurn slot) = r.length - 1 - r.position slot ∧ r.position slot < r.length
  unlike : ∀ slot < setup.size, digit (r.ahead along) slot ≠ digit (r.behind along) slot

end Rows

/-- **Rows after half a turn**: those of a 1x4 are counted from the other end. -/
theorem rows?_halfTurn {setup : Setup} {r : Rows} (hr : rows? setup = some r) (along : Bool) :
    r.IsFixed setup along ∨ r.IsReversed setup along := by
  cases setup with
  | grid2x4 | line8 | box =>
    cases hr
    exact .inl (by cases along <;> exact ⟨by decide, by decide, by decide⟩)
  | line4 =>
    cases hr
    exact .inr (by cases along <;> exact ⟨by decide, by decide, by decide, by decide⟩)
  | _ => cases hr

/-- **The rank** of a person is the same after half a turn. -/
theorem TurnsTo.rank (h : f.TurnsTo f') (hslot : slot < f.size) (hlive : f.isLive slot = true)
    {r : Rows} (hr : rows? f.setup = some r) (along : Bool) :
    f'.rank r along (f.setup.halfTurn slot) = f.rank r along slot := by
  rw [rank_eq, rank_eq]
  obtain hfixed | hreversed := rows?_halfTurn hr along
  · have hahead := h.faces hfixed.ahead
    have hbehind := h.faces hfixed.behind
    rw [← directionsWord_eq_iff, ← directionsWord_eq_iff] at hahead hbehind
    simp only [hahead, hbehind, hfixed.position slot hslot]
  · obtain ⟨p, hp⟩ := Option.isSome_iff_exists.1 hlive
    obtain ⟨hposition, hlt⟩ := hreversed.position slot hslot
    have hback : r.length - 1 - (r.length - 1 - r.position slot) = r.position slot := by omega
    have hunlike : f.Faces (r.ahead along) → ¬ f.Faces (r.behind along) := fun hahead hbehind =>
      hreversed.unlike (f.size - 1 - slot) (by change _ < f.size; omega)
        ((hahead slot hslot p hp).symm.trans (hbehind slot hslot p hp))
    have hahead := h.faces hreversed.ahead
    have hbehind := h.faces hreversed.behind
    rw [← directionsWord_eq_iff, ← directionsWord_eq_iff] at hahead hbehind hunlike
    simp only [hahead, hbehind, hposition, hback]
    by_cases hyes : f.directionsWord = f.liveWord &&& r.ahead along
    · rw [if_pos hyes, if_pos hyes, if_neg (hunlike hyes)]
    · rw [if_neg hyes, if_neg hyes]

/-- **Ordinals** after half a turn. -/
theorem TurnsTo.isAmong (h : f.TurnsTo f') (hslot : slot < f.size) (hlive : f.isLive slot = true)
    (side : RowEnd) (count : SmallCount) :
    f'.isAmong side count (f.setup.halfTurn slot) = f.isAmong side count slot := by
  unfold Formation.isAmong
  rw [h.setup]
  cases hr : rows? f.setup with
  | none => rfl
  | some r => simp only [h.rank hslot hlive hr]

/-! ### Halves -/

/-- The people of a formation are those on its slots. -/
theorem mem_dancers {p : Dancer} :
    p ∈ f.dancers ↔ ∃ slot < f.size, f.dancer? slot = some p := by
  simp only [dancers, List.mem_filterMap, List.mem_range]

/-- Whether anybody does what half a turn does not change. -/
theorem TurnsTo.any_dancers (h : f.TurnsTo f') {P : Dancer → Bool}
    (hP : ∀ p, P p.reversed = P p) : f'.dancers.any P = f.dancers.any P := by
  rw [Bool.eq_iff_iff, List.any_eq_true, List.any_eq_true]
  constructor
  · rintro ⟨p, hmem, hyes⟩
    obtain ⟨slot, hslot, hp⟩ := mem_dancers.1 hmem
    rw [h.size] at hslot
    rw [h.dancer?_eq hslot, Option.map_eq_some_iff] at hp
    obtain ⟨q, hq, rfl⟩ := hp
    exact ⟨q, mem_dancers.2 ⟨_, Setup.halfTurn_lt hslot, hq⟩, by rwa [hP] at hyes⟩
  · rintro ⟨p, hmem, hyes⟩
    obtain ⟨slot, hslot, hp⟩ := mem_dancers.1 hmem
    have hturned : f'.dancer? (f.setup.halfTurn slot) = some p.reversed := by
      rw [h.dancer? slot hslot, hp, Option.map_some]
    exact ⟨p.reversed, mem_dancers.2 ⟨_, h.size ▸ Setup.halfTurn_lt hslot, hturned⟩,
      (hP p).trans hyes⟩

/-- Half a turn of the hall leaves rows in lines or columns. -/
theorem TurnsTo.rowsAreLines? (h : f.TurnsTo f') : f'.rowsAreLines? = f.rowsAreLines? := by
  unfold Formation.rowsAreLines?
  have hacross : ∀ p : Dancer, p.reversed.direction.isNorthSouth = p.direction.isNorthSouth :=
    fun p => Direction.isNorthSouth_opposite _
  rw [h.any_dancers hacross, h.any_dancers fun p => by rw [hacross]]

/-- The half of a 2x4 on the other side. -/
theorem sideOfPart_halfTurn (part : HalfPart) (hslot : slot < 8) :
    sideOfPart part (Setup.grid2x4.halfTurn slot) = (sideOfPart part slot).opposite := by
  revert slot
  cases part <;> decide

/-- **Halves of a 2x4** after half a turn. -/
theorem TurnsTo.isInHalf (h : f.TurnsTo f') (hslot : slot < f.size) (part : HalfPart)
    (side : HallSide) :
    f'.isInHalf part side (f.setup.halfTurn slot) = f.isInHalf part side slot := by
  unfold Formation.isInHalf
  rw [h.setup, h.rotationImprecise, h.rowsAreLines?, h.rotation]
  by_cases hsetup : f.setup = .grid2x4
  · have hslot8 : slot < 8 := by
      rw [Formation.size, hsetup] at hslot
      exact hslot
    rw [hsetup, sideOfPart_halfTurn part hslot8, Direction.rotate_opposite]
  · rw [if_pos hsetup, if_pos hsetup]

/-! ### Parts with a shape -/

/-- **Parts with a shape** are the same after half a turn. -/
theorem TurnsTo.shapeSlots (h : f.TurnsTo f') (hs : f.setup ≠ .grid4x4) (hslot : slot < f.size)
    (shape : InnerShape) : (f'.shapeSlots shape).map (·.testBit (f.setup.halfTurn slot))
      = (f.shapeSlots shape).map (·.testBit slot) := by
  unfold Formation.shapeSlots
  rw [h.setup]
  rw [Formation.size] at hslot
  generalize f.setup = setup at hs hslot ⊢
  cases setup with
  | grid4x4 => exact absurd rfl hs
  | spindle =>
    have hbits : ∀ slot < 8,
        Nat.testBit 0x77 (Setup.spindle.halfTurn slot) = Nat.testBit 0x77 slot := by decide
    cases shape with
    | grid2x3 => exact congrArg Except.ok (hbits slot hslot)
    | _ => rfl
  | quarterTag =>
    have hbits : ∀ slot < 8,
        Nat.testBit 0xBB (Setup.quarterTag.halfTurn slot) = Nat.testBit 0xBB slot := by decide
    cases shape with
    | grid2x3 => exact congrArg Except.ok (hbits slot hslot)
    | _ => rfl
  | _ => rfl

/-- The diamond may be told by roles, and every shape by its slots. -/
theorem isInShape_eq (f : Formation) (shape : InnerShape) (slot : Nat) (s : Subject) :
    f.isInShape shape slot s = ((if shape = .diamond then s.pair? .ctrDmd .notCtrDmd else none).map
      Except.ok).getD ((f.shapeSlots shape).map (·.testBit slot)) := by
  unfold isInShape
  split <;> rename_i hpair <;> rw [hpair] <;> rfl

/-! ### All designators -/

/-- The slots of the two in the center are across from each other. -/
theorem TurnsTo.isCenter2 (h : f.TurnsTo f') (hs : f.setup ≠ .grid4x4) :
    f'.isCenter2 (f.setup.halfTurn slot) s.reversed = f.isCenter2 slot s := by
  unfold Formation.isCenter2
  rw [h.setup]
  cases hsetup : f.setup with
  | grid4x4 => exact absurd hsetup hs
  | _ => simp only [Subject.decide_reversed, Subject.roles_reversed]

/-- The outer six are told by roles, in the same setup. -/
theorem TurnsTo.isOuter6 (h : f.TurnsTo f') : f'.isOuter6 s.reversed = f.isOuter6 s := by
  unfold Formation.isOuter6
  rw [h.setup, Subject.decide_reversed, Subject.decide_reversed]

/-- The wall that is faced is told by roles, if the rotation is known. -/
theorem TurnsTo.wallFaced (h : f.TurnsTo f') : f'.wallFaced s.reversed = f.wallFaced s := by
  rw [Formation.wallFaced, Formation.wallFaced, h.rotationImprecise, Subject.wall_reversed]

/-- **A designator judges a subject** as before.  A person is needed for ordinals only, since
other designators for the whole formation do not count anybody. -/
theorem TurnsTo.judges (h : f.TurnsTo f') (hs : f.setup ≠ .grid4x4) (hslot : slot < f.size)
    {d : Designator} (hlive : d.isPositional = false → f.isLive slot = true)
    (hfull : d = .someGroup → ∀ slot < f.size, f.isLive slot = true) (mode : Grouping) :
    f'.judges d mode (f.setup.halfTurn slot) s.reversed = f.judges d mode slot s := by
  unfold Formation.judges
  cases d with
  | someGroup => exact h.isInSomeGroup (hfull rfl) hslot
  | ordinal side count => exact h.isAmong hslot (hlive rfl) side count
  | half part side => exact h.isInHalf hslot part side
  | the shape =>
    dsimp only
    rw [isInShape_eq, isInShape_eq, Subject.pair?_reversed, h.shapeSlots hs hslot]
  | _ =>
    simp only [Subject.identity_reversed, Subject.decide_reversed, Subject.decideFirst_reversed,
      isOuterPairs_reversed, isMysticBeau_reversed, realIdentity_reversed, h.setup,
      h.isCenter2 hs, h.isOuter6, h.wallFaced]

/-- A designator picks the same people after half a turn, in any formation that is so turned. -/
theorem TurnsTo.picks (h : f.TurnsTo f') (hs : f.setup ≠ .grid4x4) (hslot : slot < f.size)
    (d : Designator) (mode : Grouping)
    (hfull : d = .someGroup → ∀ slot < f.size, f.isLive slot = true) :
    f'.picks d mode (f.setup.halfTurn slot) = f.picks d mode slot := by
  rw [picks_eq, picks_eq, h.subject d hslot]
  cases hsubject : f.subject d slot with
  | error e => rfl
  | ok s =>
    have hjudges : f'.judges d mode (f.setup.halfTurn slot) s.reversed = f.judges d mode slot s :=
      h.judges hs hslot (isLive_of_subject hsubject) hfull mode
    simp only [Except.map, Except.bind, hjudges]

/-- **Half a turn changes no answer.**  A designator picks whoever it picks, at the slot where
they stand after the formation was turned half around, in any setup but a 4x4; "some" does so
where everybody is there. -/
theorem picks_halfTurn (hs : f.setup ≠ .grid4x4) (hslot : slot < f.size) (d : Designator)
    (mode : Grouping) (hfull : d = .someGroup → ∀ slot < f.size, f.isLive slot = true) :
    f.halfTurn.updateRoles.picks d mode (f.setup.halfTurn slot)
      = f.updateRoles.picks d mode slot := by
  have hturns := f.turnsTo_halfTurn.updateRoles hs
  refine hturns.picks hs hslot d mode fun hd slot hslot => ?_
  rw [isLive, dancer?_updateRoles, Option.isSome_map]
  exact hfull hd slot hslot

/-- A quarter tag in which the pairs outside form triples with the centers of the line. -/
def sampleFormation : Formation where
  setup := .quarterTag
  slots := #v[.north, .south, .east, .south, .south, .north, .west, .north].mapIdx
    fun number direction => some { direction, identity := Identity.ofNumber? number }
  rotation := 1

/-- A triple is found again at the slots across from its own. -/
theorem picks_halfTurn_sampleFormation :
    sampleFormation.setup ≠ .grid4x4 ∧ 4 < sampleFormation.size ∧
      (∀ slot < sampleFormation.size, sampleFormation.isLive slot = true) ∧
      sampleFormation.halfTurn.updateRoles.picks .someGroup .triples 0 = .ok true := by
  have hsetup : sampleFormation.setup ≠ .grid4x4 := by decide
  have hslot : 4 < sampleFormation.size := by decide
  have hfull : ∀ slot < sampleFormation.size, sampleFormation.isLive slot = true := by decide
  have hpicks : sampleFormation.updateRoles.picks .someGroup .triples 4 = .ok true := by decide
  exact ⟨hsetup, hslot, hfull,
    (picks_halfTurn hsetup hslot .someGroup .triples fun _ => hfull).trans hpicks⟩

end Formation
end SquareDance
