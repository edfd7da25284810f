/-
# Designators that always decide

In a 1x4, a 2x2, a diamond or a quarter tag a real dancer is never a doubtful case.  Whatever the
designator, whether it picks the dancer is known, or it has no meaning there; only how the formation
stands in the hall may have to be known.  Main statement: `Formation.picks_decides`.

The proof goes by what a question may be refused for (`RefusesFor`): each question about a real
dancer is refused for want of a meaning only, and what puts such questions together refuses for
nothing else.  It asks nothing of the roles, nor of the other slots.
-/

import SquareDance.Formation.Roles
import SquareDance.Proofs.Designator.Subjects

namespace SquareDance

/-! ### Reasons for a refusal -/

section Refusals

variable {α β : Type} {reasons : DesignatorError → Prop} {x : Except DesignatorError α}

/-- If there is no answer, it is for one of some reasons. -/
def RefusesFor (reasons : DesignatorError → Prop) (x : Except DesignatorError α) : Prop :=
  ∀ e, x = .error e → reasons e

namespace RefusesFor

/-- An answer is no refusal. -/
theorem ok (a : α) : RefusesFor reasons (.ok a : Except DesignatorError α) := nofun

/-- A refusal for a reason is one. -/
theorem error {e : DesignatorError} (h : reasons e) :
    RefusesFor reasons (.error e : Except DesignatorError α) := by
  rintro e' ⟨⟩
  exact h

/-- What is made of an answer is refused for the same reasons. -/
theorem map (h : RefusesFor reasons x) (g : α → β) : RefusesFor reasons (x.map g) := by
  cases x with
  | error e => exact error (h e rfl)
  | ok a => exact ok _

/-- A second question may add its reasons. -/
theorem bind (h : RefusesFor reasons x) {k : α → Except DesignatorError β}
    (hk : ∀ a, RefusesFor reasons (k a)) : RefusesFor reasons (x >>= k) := by
  cases x with
  | error e => exact error (h e rfl)
  | ok a => exact hk a

/-- A condition chooses between two questions. -/
theorem ite {c : Prop} [Decidable c] {y : Except DesignatorError α} (hx : RefusesFor reasons x)
    (hy : RefusesFor reasons y) : RefusesFor reasons (if c then x else y) := by
  split
  · exact hx
  · exact hy

/-- More reasons may be allowed. -/
theorem mono (h : RefusesFor reasons x) {reasons' : DesignatorError → Prop}
    (hr : ∀ e, reasons e → reasons' e) : RefusesFor reasons' x :=
  fun e he => hr e (h e he)

end RefusesFor

/-- If there is no answer, the question has no meaning. -/
abbrev RefusesAsIllegal (x : Except DesignatorError α) : Prop :=
  RefusesFor (· = .illegalDesignator) x

end Refusals

/-! ### Questions about a person -/

/-- A real person whose identity is known. -/
def Dancer.IsKnown (p : Dancer) : Prop := p.isReal = true ∧ p.identity.isSome = true

instance (p : Dancer) : Decidable p.IsKnown := inferInstanceAs (Decidable (_ ∧ _))

section People

variable {p : Dancer} {roles : RoleSet} {f : Formation} {slot : Nat}

namespace Subject

/-- Two roles refuse a real person only as illegal. -/
theorem decide_refuses {yes no : Role} : RefusesAsIllegal (decide ⟨some p, roles⟩ yes no) := by
  unfold decide
  split
  · exact .ok _
  · exact .error rfl

/-- Pairs of roles refuse a real person only as illegal. -/
theorem decideFirst_refuses {pairs : List (Role × Role)} :
    RefusesAsIllegal (decideFirst ⟨some p, roles⟩ pairs) := by
  unfold decideFirst
  split
  · exact .ok _
  · exact .error rfl

/-- The wall faced refuses a real person only as illegal. -/
theorem wall_refuses : RefusesAsIllegal (wall ⟨some p, roles⟩) :=
  .ite (.ok _) (.ite (.ok _) (.ite (.ok _) (.ite (.ok _) (.error rfl))))

/-- Who a known person is can always be told. -/
theorem identity_refuses (hp : p.IsKnown) : RefusesAsIllegal (identity ⟨some p, roles⟩) := by
  obtain ⟨i, hi⟩ := Option.isSome_iff_exists.mp hp.2
  have h : identity ⟨some p, roles⟩ = .ok i := by simp only [identity, Option.bind_some, hi]
  rw [h]
  exact .ok i

end Subject

namespace Formation

open Subject

/-- Outer pairs refuse a real person only as illegal. -/
theorem isOuterPairs_refuses : RefusesAsIllegal (isOuterPairs ⟨some p, roles⟩) :=
  .ite (.ok _) (.ite (.ok _) (.error rfl))

/-- Mystic beaus refuse a real person only as illegal. -/
theorem isMysticBeau_refuses : RefusesAsIllegal (isMysticBeau ⟨some p, roles⟩) :=
  decide_refuses.bind fun _ => .ite (.ok _) (.ite (.ok _) (.ite (.ok _) (.error rfl)))

/-- A known dancer is real, so that nothing is refused. -/
theorem realIdentity_refuses (hp : p.IsKnown) :
    RefusesAsIllegal (realIdentity ⟨some p, roles⟩) := by
  have h : realIdentity ⟨some p, roles⟩ = identity ⟨some p, roles⟩ := if_pos hp.1
  rw [h]
  exact identity_refuses hp

/-- Only a 4x4 is judged by which of its centers are there. -/
theorem isCenter2_refuses (hsetup : f.setup ≠ .grid4x4) :
    RefusesAsIllegal (f.isCenter2 slot ⟨some p, roles⟩) := by
  unfold isCenter2
  split
  · exact .ok _
  · exact absurd ‹_› hsetup
  · exact decide_refuses
  · exact decide_refuses

/-- The outer six refuse a real person only as illegal. -/
theorem isOuter6_refuses : RefusesAsIllegal (f.isOuter6 ⟨some p, roles⟩) := by
  unfold isOuter6
  split
  · exact decide_refuses.map _
  · exact decide_refuses.map _

/-- Only a 4x4 holds its shapes in more than one way. -/
theorem shapeSlots_refuses (hsetup : f.setup ≠ .grid4x4) {shape : InnerShape} :
    RefusesAsIllegal (f.shapeSlots shape) := by
  unfold shapeSlots
  split
  case h_1 | h_2 => exact .ok _
  case h_3 | h_4 | h_5 => exact absurd ‹_› hsetup
  case h_6 => exact .error rfl

/-- A shape that a setup does not have is illegal, outside the 4x4. -/
theorem isInShape_refuses (hsetup : f.setup ≠ .grid4x4) {shape : InnerShape} {s : Subject} :
    RefusesAsIllegal (f.isInShape shape slot s) := by
  unfold isInShape
  split
  · exact .ok _
  · exact (shapeSlots_refuses hsetup).map _

/-- The wall that a person faces is known in a formation that stands precisely. -/
theorem wallFaced_refuses : RefusesFor
    (fun e => e = .illegalDesignator ∨ e = .rotationImprecise ∧ f.rotationImprecise = true)
    (f.wallFaced ⟨some p, roles⟩) := by
  unfold wallFaced
  split
  · exact .error (.inr ⟨rfl, ‹_›⟩)
  · exact wall_refuses.mono fun _ => .inl

end Formation
end People

/-! ### Shapes of four and the quarter tag -/

/-- The shapes in which no real dancer is a doubtful case. -/
def Setup.isCanonical : Setup → Bool
  | .line4 | .box | .diamond | .quarterTag => true
  | _ => false

namespace Formation

open Subject

variable {f : Formation} {slot : Nat} {p : Dancer} {roles : RoleSet} {d : Designator}

/-- In a row or a box of four a facing that does not fit leaves nothing to count. -/
theorem mismatch_of_rows? (hsetup : f.setup.isCanonical = true) {r : Rows}
    (hrows : rows? f.setup = some r) : r.mismatch = .illegalDesignator := by
  revert hsetup hrows
  cases f.setup <;> rintro ⟨⟩ <;> rintro ⟨⟩ <;> rfl

/-- Ordinals are illegal where people do not face along rows or across them. -/
theorem isAmong_refuses (hsetup : f.setup.isCanonical = true) {side : RowEnd}
    {count : SmallCount} : RefusesAsIllegal (f.isAmong side count slot) := by
  unfold isAmong
  split
  · exact .error rfl
  · refine .ite (.error rfl) (RefusesFor.map ?_ _)
    exact .ite (.ok _) (.ite (.ok _) (.error (mismatch_of_rows? hsetup ‹_›)))

/-- Halves are illegal in setups that have none. -/
theorem isInHalf_refuses (hsetup : f.setup.isCanonical = true) {part : HalfPart}
    {side : HallSide} : RefusesAsIllegal (f.isInHalf part side slot) := by
  have hgrid : f.setup ≠ .grid2x4 := fun h => by rw [h] at hsetup; cases hsetup
  rw [isInHalf, if_pos hgrid]
  exact .error rfl

/-- **A known person is no doubtful case** for a designator that does not look at the hall. -/
theorem judges_refuses (hsetup : f.setup.isCanonical = true) (hp : p.IsKnown)
    (hd : d.needsPreciseRotation = false) :
    RefusesAsIllegal (f.judges d .disallowed slot ⟨some p, roles⟩) := by
  have h4x4 : f.setup ≠ .grid4x4 := fun h => by rw [h] at hsetup; cases hsetup
  cases d with
  | headliners | sideliners | facing | half => cases hd
  | everyone | all | nobody => exact .ok _
  | boys | girls | heads | sides | headCorners | sideCorners | headBoys | headGirls | sideBoys
  | sideGirls => exact (identity_refuses hp).map _
  | boy | girl | couple | couples => exact (realIdentity_refuses hp).map _
  | centers | ends | leads | trailers | beaus | belles | center6 | outer2 | veryEnds | ctrDmd
  | notCtrDmd | ctr1x6 | centerWaveOf6 | centerLineOf6 | outer1x3s | ctr1x4 | centerWave
  | centerLine | centerCol | thoseFacing => exact decide_refuses
  | leadEnds | leadCenters | trailEnds | trailCenters | leadBeaus | leadBelles | trailBeaus
  | trailBelles => exact decide_refuses.bind fun _ => decide_refuses.bind fun _ => .ok _
  | endBoys | endGirls | centerBoys | centerGirls =>
    exact decide_refuses.bind fun _ => (identity_refuses hp).bind fun _ => .ok _
  | mysticBeaus => exact isMysticBeau_refuses
  | mysticBelles => exact isMysticBeau_refuses.map _
  | center2 | veryCenters => exact isCenter2_refuses h4x4
  | outer6 => exact isOuter6_refuses
  | center4 | centerBox => exact decideFirst_refuses
  | centerColOf6 =>
    simp only [judges]
    split <;> exact decide_refuses
  | outerPairs =>
    simp only [judges]
    split
    · exact decide_refuses
    · exact isOuterPairs_refuses
  | the => exact isInShape_refuses h4x4
  | ordinal => exact isAmong_refuses hsetup
  | triangles | someGroup => exact .error rfl

/-- A designator that looks at the hall may have to know how the formation stands in it. -/
theorem judges_refuses_of_needsPreciseRotation (hsetup : f.setup.isCanonical = true)
    (hd : d.needsPreciseRotation = true) :
    RefusesFor
      (fun e => e = .illegalDesignator ∨ e = .rotationImprecise ∧ f.rotationImprecise = true)
      (f.judges d .disallowed slot ⟨some p, roles⟩) := by
  cases d with
  | headliners | sideliners | facing => exact wallFaced_refuses.map _
  | half => exact (isInHalf_refuses hsetup).mono fun _ => .inl
  | _ => cases hd

/-! ### Whom a designator picks -/

/-- A designator refuses somebody for no other reasons than its judgement. -/
theorem picks_refuses (hlive : f.dancer? slot = some p) {reasons : DesignatorError → Prop}
    {mode : Grouping} (h : RefusesFor reasons (f.judges d mode slot ⟨some p, p.roles⟩)) :
    RefusesFor reasons (f.picks d mode slot) := by
  rw [picks_eq, subject_of_live hlive]
  exact .ite (.ok _) (.ite (.ok _) h)

/-- **Every designator decides** about a real dancer in a 1x4, a 2x2, a diamond or a quarter tag:
it picks them or not, or has no meaning there.  Only a designator that looks at the hall may fail
for a formation that does not stand precisely in it. -/
theorem picks_decides (f : Formation) (hsetup : f.setup.isCanonical = true) {slot : Nat}
    {p : Dancer} (hlive : f.dancer? slot = some p) (hp : p.IsKnown) (d : Designator) :
    f.picks d .disallowed slot ≠ .error .cannotDetermine
      ∧ (f.picks d .disallowed slot = .error .rotationImprecise →
        d.needsPreciseRotation = true ∧ f.rotationImprecise = true) := by
  cases hd : d.needsPreciseRotation with
  | false =>
    have h := picks_refuses hlive (judges_refuses hsetup hp hd)
    exact ⟨fun he => absurd (h _ he) nofun, fun he => absurd (h _ he) nofun⟩
  | true =>
    have h := picks_refuses hlive (judges_refuses_of_needsPreciseRotation hsetup hd)
    refine ⟨fun he => ?_, fun he => ⟨rfl, ?_⟩⟩
    · rcases h _ he with h | ⟨h, -⟩ <;> cases h
    · rcases h _ he with h | ⟨-, h⟩
      · cases h
      · exact h

/-- A diamond of four dancers that does not stand precisely in the hall. -/
def tiltedDiamond : Formation :=
  updateRoles
    { setup := .diamond
      slots := #v[.north, .east, .south, .west].mapIdx
        fun number direction => some { direction, identity := Identity.ofNumber? number }
      rotationImprecise := true }

/-- The point of the diamond that faces south. -/
def southPoint : Dancer :=
  { direction := .south, identity := Identity.ofNumber? 2,
    roles := .ofList (tiltedDiamond.rolesAt 2 .south) }

/-- Where the rotation is imprecise headliners are refused for it, and leads are decided. -/
theorem picks_decides_tiltedDiamond :
    tiltedDiamond.setup.isCanonical = true ∧ tiltedDiamond.dancer? 2 = some southPoint ∧
      southPoint.IsKnown ∧
      tiltedDiamond.picks .headliners .disallowed 2 = .error .rotationImprecise ∧
      Designator.headliners.needsPreciseRotation = true ∧
      tiltedDiamond.picks .leads .disallowed 2 ≠ .error .cannotDetermine := by
  have hsetup : tiltedDiamond.setup.isCanonical = true := by decide
  have hlive : tiltedDiamond.dancer? 2 = some southPoint := by decide
  have hknown : southPoint.IsKnown := by decide
  have himprecise :
      tiltedDiamond.picks .headliners .disallowed 2 = .error .rotationImprecise := rfl
  have hprecise := ((picks_decides _ hsetup hlive hknown .headliners).2 himprecise).1
  exact ⟨hsetup, hlive, hknown, himprecise, hprecise,
    (picks_decides _ hsetup hlive hknown .leads).1⟩

end Formation
end SquareDance
