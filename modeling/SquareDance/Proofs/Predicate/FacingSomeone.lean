/-
# Facing someone

That a person of a 2x2 or a 2x4 faces someone is told twice.  The role of facing goes by the
pairs of the setup: the partner in the file is in front and faces back.  The predicates
`2x2_facing_someone` and `2x4_facing_someone` go by the number of the slot: the partner differs
in some of its bits, and two bits for each slot, added to the facing, tell who has the back to
the partner.

The two agree in a 2x2 and in the western half of a 2x4.  In the eastern half, slots 2 to 5, the
bits are those of the slots two on, where back and front are exchanged: there the predicate is
true of people who stand back to back.  Main statement: `facingSomeone_iff`.
-/

import SquareDance.Predicate.Evaluate
import SquareDance.Proofs.Formation.DerivedRoles

namespace SquareDance

/-! ### The role of facing -/

namespace Formation

variable {f : Formation} {slot : Nat} {d : Direction}

/-- The partner in the file of a person is there and faces the other way: in front of the person
or, if `behind` says so, behind. -/
def Opposes (f : Formation) (slot : Nat) (d : Direction) (behind : Bool) : Prop :=
  ∃ partner first p, filePartner f.setup slot d = some (partner, first) ∧
    partnerBehind d first = behind ∧ f.dancer? partner = some p ∧ p.direction = d.opposite

/-- Who faces back stands on the slot and faces the other way. -/
theorem facesBack_iff : f.facesBack slot d = true ↔
    ∃ p, f.dancer? slot = some p ∧ p.direction = d.opposite := by
  rw [facesBack, Option.any_eq_true]
  simp only [beq_iff_eq]

/-- Where the partner in the file is known, it is the partner who is asked. -/
theorem opposes_iff {partner : Nat} {first behind : Bool}
    (h : filePartner f.setup slot d = some (partner, first)) :
    f.Opposes slot d behind ↔ partnerBehind d first = behind ∧ f.facesBack partner d = true := by
  rw [facesBack_iff]
  unfold Opposes
  rw [h]
  constructor
  · rintro ⟨_, _, p, hpair, hbehind, hp, hfaces⟩
    cases hpair
    exact ⟨hbehind, p, hp, hfaces⟩
  · rintro ⟨hbehind, p, hp, hfaces⟩
    exact ⟨_, _, p, rfl, hbehind, hp, hfaces⟩

/-- **The role of facing**: the partner in front faces back. -/
theorem contains_facing_iff (f : Formation) (slot : Nat) (d : Direction) :
    (RoleSet.ofList (f.rolesAt slot d)).contains .facing = true ↔ f.Opposes slot d false := by
  rw [RoleSet.contains_ofList, contains_rolesAt]
  change (f.fileRoles slot d).contains .facing = true ↔ _
  rw [fileRoles]
  cases hpartner : filePartner f.setup slot d with
  | none => simp [Opposes, hpartner]
  | some pair =>
    obtain ⟨partner, first⟩ := pair
    rw [opposes_iff hpartner]
    cases hbehind : partnerBehind d first <;> cases hfaces : f.facesBack partner d <;>
      simp [hbehind, hfaces]

end Formation

/-! ### The predicates -/

namespace BoxSpan

/-- The setup that a box goes across. -/
def setup : BoxSpan → Setup
  | box2x2 => .box
  | box2x4 => .grid2x4

/-- The slots where the table of a box takes front for back: the eastern half of a 2x4. -/
def takesFrontForBack : BoxSpan → Nat → Bool
  | box2x2, _ => false
  | box2x4, slot => 2 ≤ slot && slot ≤ 5

/-- The slot of the partner in the file, by its number. -/
def partnerSlot (span : BoxSpan) (slot : Nat) (d : Direction) : Nat :=
  let across := match span with
    | box2x2 => 3
    | box2x4 => 7
  if d.isNorthSouth then slot ^^^ across else slot ^^^ 1

end BoxSpan

namespace Formation

variable {f : Formation} {slot : Nat} {q : Dancer}

/-- **The numbers of the slots tell the pairs of the setup**, and the bits of the table who is
behind, but for the slots where they take front for back. -/
theorem filePartner_box {span : BoxSpan} (h : slot < span.setup.size) (d : Direction) :
    ∃ first, filePartner span.setup slot d = some (span.partnerSlot slot d, first) ∧
      backToBox span slot d = (partnerBehind d first != span.takesFrontForBack slot) := by
  have hpairs : (filePartner span.setup slot d).map
      (fun p => (p.1, partnerBehind d p.2 != span.takesFrontForBack slot))
        = some (span.partnerSlot slot d, backToBox span slot d) := by
    revert slot
    cases span <;> cases d <;> decide
  obtain ⟨⟨partner, first⟩, hpartner, hpair⟩ := Option.map_eq_some_iff.1 hpairs
  obtain ⟨rfl, hback⟩ := Prod.mk.inj hpair
  exact ⟨first, hpartner, hback.symm⟩

/-- To be opposite to somebody is that they face back. -/
theorem relationTo_eq_opposite {other : Nat} :
    f.relationTo q other = some .opposite ↔ f.facesBack other q.direction = true := by
  rw [facesBack, relationTo, Dancer.relation]
  cases f.dancer? other with
  | none => simp
  | some p => cases hq : q.direction <;> cases hp : p.direction <;> simp [hp] <;> decide

/-- **Whom the predicate holds of**: the partner faces the other way, in front of the person or,
where the table takes front for back, behind. -/
theorem neighborIs_facing {span : BoxSpan} (hs : f.setup = span.setup)
    (hq : f.dancer? slot = some q) : ∃ answer, f.neighborIs slot span .facing = .ok answer ∧
      (answer = true ↔ f.Opposes slot q.direction (span.takesFrontForBack slot)) := by
  have hslot : slot < span.setup.size := by
    rw [← hs]
    refine Nat.lt_of_not_le fun hle => ?_
    rw [dancer?_eq_none_of_le hle] at hq
    cases hq
  obtain ⟨first, hpartner, hback⟩ := filePartner_box hslot q.direction
  rw [← hs] at hpartner
  have hdancer : f.dancer slot = .ok q := by rw [dancer, hq]
  have hanswer : f.neighborIs slot span .facing = .ok (!backToBox span slot q.direction &&
      f.relationTo q (span.partnerSlot slot q.direction) == some .opposite) := by
    unfold neighborIs
    rw [hdancer]
    cases hb : backToBox span slot q.direction <;> simp [bind, Except.bind, hb] <;> rfl
  have hbehind : partnerBehind q.direction first = span.takesFrontForBack slot ↔
      backToBox span slot q.direction = false := by rw [hback, bne_eq_false_iff_eq]
  refine ⟨_, hanswer, ?_⟩
  rw [opposes_iff hpartner, hbehind, ← relationTo_eq_opposite, Bool.and_eq_true,
    Bool.not_eq_true', beq_iff_eq]

/-- Roles do not matter to who faces whom. -/
theorem opposes_updateRoles {d : Direction} {behind : Bool} :
    f.updateRoles.Opposes slot d behind ↔ f.Opposes slot d behind := by
  unfold Opposes
  simp only [dancer?_updateRoles, Option.map_eq_some_iff]
  constructor
  · rintro ⟨partner, first, p, hpair, hbehind, ⟨p', hp, rfl⟩, hfaces⟩
    exact ⟨partner, first, p', hpair, hbehind, hp, hfaces⟩
  · rintro ⟨partner, first, p, hpair, hbehind, hp, hfaces⟩
    exact ⟨partner, first, _, hpair, hbehind, ⟨p, hp, rfl⟩, hfaces⟩

/-- **Facing someone, as a predicate and as a role.**  In a 2x2 and in the western half of a 2x4
the predicate holds of just the people with the role, whose partner in front faces back.  In the
eastern half of a 2x4 it holds of the people whose partner stands behind them, facing the other
way. -/
theorem facingSomeone_iff {span : BoxSpan} (hs : f.setup = span.setup)
    (hq : f.updateRoles.dancer? slot = some q) (c : EvalContext) :
    (q.roles.contains .facing = true ↔ f.Opposes slot q.direction false) ∧
      ∃ answer,
        ((Predicate.place (.neighbor span .facing)).evaluate c f.updateRoles slot).1
          = .ok answer ∧
        (span.takesFrontForBack slot = false →
          (answer = true ↔ q.roles.contains .facing = true)) ∧
        (span.takesFrontForBack slot = true →
          (answer = true ↔ f.Opposes slot q.direction true)) := by
  have hlt : ¬ f.updateRoles.size ≤ slot := fun hle => by
    rw [dancer?_eq_none_of_le hle] at hq
    cases hq
  obtain ⟨answer, hanswer, hiff⟩ := neighborIs_facing (f := f.updateRoles) hs hq
  rw [opposes_updateRoles] at hiff
  rw [dancer?_updateRoles, Option.map_eq_some_iff] at hq
  obtain ⟨p, -, rfl⟩ := hq
  have hrole := contains_facing_iff f slot p.direction
  refine ⟨hrole, answer, ?_, fun hsees => ?_, fun htakes => by rwa [htakes] at hiff⟩
  · unfold Predicate.evaluate Predicate.judge
    rw [if_neg hlt]
    exact hanswer
  · rw [hsees] at hiff
    exact hiff.trans hrole.symm

/-- Two lines of a 2x4 that face each other; the western end of the southern one is empty. -/
def facingLines : Formation where
  setup := .grid2x4
  slots := #v[some { direction := .south }, some { direction := .south },
    some { direction := .south }, some { direction := .south }, some { direction := .north },
    some { direction := .north }, some { direction := .north }, none]

/-- In two lines that face each other, for somebody on the western half. -/
theorem facingSomeone_iff_facingLines : ∃ q, facingLines.setup = BoxSpan.box2x4.setup ∧
    facingLines.updateRoles.dancer? 1 = some q ∧
      (q.roles.contains .facing = true ↔ facingLines.Opposes 1 q.direction false) ∧
        ∃ answer, ((Predicate.place (.neighbor .box2x4 .facing)).evaluate {}
            facingLines.updateRoles 1).1 = .ok answer ∧
          (BoxSpan.box2x4.takesFrontForBack 1 = false →
            (answer = true ↔ q.roles.contains .facing = true)) ∧
          (BoxSpan.box2x4.takesFrontForBack 1 = true →
            (answer = true ↔ facingLines.Opposes 1 q.direction true)) := by
  obtain ⟨q, hq⟩ : ∃ q, facingLines.updateRoles.dancer? 1 = some q :=
    Option.isSome_iff_exists.1 (by decide +kernel)
  have hsetup : facingLines.setup = BoxSpan.box2x4.setup := rfl
  exact ⟨q, hsetup, hq, facingSomeone_iff hsetup hq {}⟩

/-- **The predicate and the role disagree** on the eastern half of facing lines. -/
theorem facingSomeone_ne_facing : ∃ q, facingLines.updateRoles.dancer? 2 = some q ∧
    q.roles.contains .facing = true ∧
      ((Predicate.place (.neighbor .box2x4 .facing)).evaluate {} facingLines.updateRoles 2).1
        = .ok false := by
  have hroles : (facingLines.updateRoles.dancer? 2).any (·.roles.contains .facing) = true := by
    decide +kernel
  obtain ⟨q, hq, hfacing⟩ := (Option.any_eq_true _ _).1 hroles
  exact ⟨q, hq, hfacing, rfl⟩

end Formation
end SquareDance
