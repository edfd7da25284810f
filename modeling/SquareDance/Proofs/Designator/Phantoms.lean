/-
# Empty slots judged as if somebody stood there

A positional designator asks for roles that go by the slot, and for nothing else but the setup.  So
it answers for two subjects alike that have the same roles of this kind: `Formation.alike_judges`.
An empty slot of a small setup has them of itself, and whoever stands on the slot has them for
standing there.

Main statement: `Formation.picks_vacantSlot`.  Where the question does not describe the slot, it is
refused with one error for an empty slot and with another one for a person.
-/

import SquareDance.Proofs.Designator.Subjects
import SquareDance.Proofs.Formation.DerivedRoles

namespace SquareDance

/-! ### Subjects with the same roles of their slots -/

namespace Subject

variable {s t : Subject} {setup : Setup} {slot : Nat} {x y : Except DesignatorError Bool}

/-- The subject has the roles of a slot, among the roles that go by the slot. -/
def StandsOn (s : Subject) (setup : Setup) (slot : Nat) : Prop :=
  ∀ r : Role, r.source = .slot → s.roles.contains r = (setup.rolesOfSlot slot).contains r

/-- Two subjects get the same answer, or each of them the error of one whom the question does not
describe. -/
inductive Alike (s t : Subject) : Except DesignatorError Bool → Except DesignatorError Bool → Prop
  | answer (b : Bool) : Alike s t (.ok b) (.ok b)
  | undecided : Alike s t (.error s.undecided) (.error t.undecided)

namespace Alike

/-- What is made of answers that are alike is alike. -/
theorem map (h : Alike s t x y) (g : Bool → Bool) : Alike s t (x.map g) (y.map g) := by
  cases h with
  | answer b => exact answer (g b)
  | undecided => exact undecided

/-- One is answered just if the other is, in the same way. -/
theorem ok_iff (h : Alike s t x y) (b : Bool) : x = .ok b ↔ y = .ok b := by
  cases h with
  | answer b' => rfl
  | undecided => simp only [reduceCtorEq]

/-- If one is undecided the other is. -/
theorem of_error (h : Alike s t x y) {e : DesignatorError} (hx : x = .error e) :
    e = s.undecided ∧ y = .error t.undecided := by
  cases h with
  | answer b => cases hx
  | undecided => exact ⟨(Except.error.inj hx).symm, rfl⟩

/-- Two people get the same answer or the same error, and so do two empty slots. -/
theorem eq (h : Alike s t x y) (hsame : s.undecided = t.undecided) : x = y := by
  cases h with
  | answer b => rfl
  | undecided => rw [hsame]

end Alike

variable {yes no : Role}

/-- Two roles that go by the slot say the same of both. -/
theorem pair?_eq (hs : s.StandsOn setup slot) (ht : t.StandsOn setup slot)
    (hyes : yes.source = .slot) (hno : no.source = .slot) : s.pair? yes no = t.pair? yes no := by
  rw [pair?, pair?, hs yes hyes, hs no hno, ht yes hyes, ht no hno]

/-- Two roles that go by the slot decide alike. -/
theorem alike_decide (hs : s.StandsOn setup slot) (ht : t.StandsOn setup slot)
    (hyes : yes.source = .slot) (hno : no.source = .slot) :
    Alike s t (s.decide yes no) (t.decide yes no) := by
  rw [decide, decide, pair?_eq hs ht hyes hno]
  cases t.pair? yes no with
  | none => exact .undecided
  | some b => exact .answer b

/-- The first pair decides if it has one of the roles, and else the others. -/
theorem decideFirst_cons (s : Subject) (pair : Role × Role) (pairs : List (Role × Role)) :
    s.decideFirst (pair :: pairs)
      = (s.pair? pair.1 pair.2).elim (s.decideFirst pairs) Except.ok := by
  obtain ⟨yes, no⟩ := pair
  unfold decideFirst
  rw [List.findSome?_cons]
  dsimp only
  cases s.pair? yes no <;> rfl

/-- Pairs of roles that go by the slot decide alike. -/
theorem alike_decideFirst (hs : s.StandsOn setup slot) (ht : t.StandsOn setup slot)
    {pairs : List (Role × Role)}
    (hpairs : ∀ pair ∈ pairs, pair.1.source = .slot ∧ pair.2.source = .slot) :
    Alike s t (s.decideFirst pairs) (t.decideFirst pairs) := by
  induction pairs with
  | nil => exact .undecided
  | cons pair pairs ih =>
    obtain ⟨⟨hyes, hno⟩, htail⟩ := List.forall_mem_cons.1 hpairs
    rw [decideFirst_cons, decideFirst_cons, pair?_eq hs ht hyes hno]
    cases t.pair? pair.1 pair.2 with
    | none => exact ih htail
    | some b => exact .answer b

end Subject

/-! ### Designators that go by the slot -/

namespace Formation

open Subject

variable {f f' : Formation} {slot : Nat} {s t : Subject}

/-- Outer pairs are told by roles that go by the slot. -/
theorem alike_isOuterPairs {setup : Setup} (hs : s.StandsOn setup slot)
    (ht : t.StandsOn setup slot) : Alike s t (isOuterPairs s) (isOuterPairs t) := by
  have hroles : ∀ r : Role, r.source = .slot → s.roles.contains r = t.roles.contains r :=
    fun r hr => (hs r hr).trans (ht r hr).symm
  have hall : [Role.center4, .center, .ctr1x4].all s.roles.contains
      = [Role.center4, .center, .ctr1x4].all t.roles.contains := by
    simp only [List.all_cons, hroles .center4 rfl, hroles .center rfl, hroles .ctr1x4 rfl]
    rfl
  have hany : [Role.center4, .center, .ctr1x4].any s.roles.contains
      = [Role.center4, .center, .ctr1x4].any t.roles.contains := by
    simp only [List.any_cons, hroles .center4 rfl, hroles .center rfl, hroles .ctr1x4 rfl]
    rfl
  unfold isOuterPairs
  dsimp only
  rw [hroles .outerPairs rfl, hall, hany]
  split_ifs
  · exact .answer true
  · exact .answer false
  · exact .undecided

/-- The two in the center are told by the slot, and by roles that go by it. -/
theorem alike_isCenter2 (hs : s.StandsOn f.setup slot) (ht : t.StandsOn f.setup slot)
    (hsetup : f'.setup = f.setup) (hsize : f.size ≤ phantomLimit) :
    Alike s t (f.isCenter2 slot s) (f'.isCenter2 slot t) := by
  unfold isCenter2
  rw [hsetup]
  unfold Formation.size at hsize
  split
  · rename_i hgrid
    exact absurd (hgrid ▸ hsize) (by decide)
  · rename_i hgrid
    exact absurd (hgrid ▸ hsize) (by decide)
  · exact alike_decide hs ht rfl rfl
  · exact alike_decide hs ht rfl rfl

/-- The outer six are told by roles that go by the slot. -/
theorem alike_isOuter6 (hs : s.StandsOn f.setup slot) (ht : t.StandsOn f.setup slot)
    (hsetup : f'.setup = f.setup) : Alike s t (f.isOuter6 s) (f'.isOuter6 t) := by
  unfold isOuter6
  rw [hsetup]
  split
  · exact (alike_decide hs ht rfl rfl).map _
  · exact (alike_decide hs ht rfl rfl).map _

/-- **Positional designators go by the roles of the slot.**  In a small setup they answer alike for
two subjects with the roles of one slot, whoever else is there. -/
theorem alike_judges (hs : s.StandsOn f.setup slot) (ht : t.StandsOn f.setup slot)
    (hsetup : f'.setup = f.setup) (hsize : f.size ≤ phantomLimit) {d : Designator}
    (hd : d.isPositional = true) (mode : Grouping) :
    Alike s t (f.judges d mode slot s) (f'.judges d mode slot t) := by
  unfold judges
  cases d with
  | center2 | veryCenters => exact alike_isCenter2 hs ht hsetup hsize
  | outer6 => exact alike_isOuter6 hs ht hsetup
  | center4 | centerBox => exact alike_decideFirst hs ht (by decide)
  | centerColOf6 =>
    dsimp only
    rw [hsetup]
    split <;> exact alike_decide hs ht rfl rfl
  | outerPairs =>
    dsimp only
    rw [hsetup]
    split
    · exact alike_decide hs ht rfl rfl
    · exact alike_isOuterPairs hs ht
  | centers | ends | center6 | outer2 | veryEnds | ctrDmd | ctr1x4 | ctr1x6 | outer1x3s
  | centerWave | centerLine | centerCol | centerWaveOf6 | centerLineOf6 =>
    exact alike_decide hs ht rfl rfl
  | _ => cases hd

/-! ### Subjects of the same slot -/

/-- Whoever stands on a slot has the roles of the slot. -/
theorem standsOn_of_live {p : Dancer} (hp : f.updateRoles.dancer? slot = some p) :
    Subject.StandsOn ⟨some p, p.roles⟩ f.setup slot := by
  intro r hr
  rw [contains_rolesOf hp, hr]
  rfl

/-- An empty slot has its own roles. -/
theorem standsOn_of_vacant (setup : Setup) (slot : Nat) :
    Subject.StandsOn ⟨none, (setup.positionalRoles slot).inter .positional⟩ setup slot := by
  intro r hr
  rw [RoleSet.contains_inter, RoleSet.contains_positional, hr, Setup.contains_positionalRoles]
  exact Bool.and_true _

/-- A positional designator judges its subject. -/
theorem picks_eq_judges {d : Designator} (hd : d.isPositional = true)
    (hsubject : f.subject d slot = .ok s) (mode : Grouping) :
    f.picks d mode slot = f.judges d mode slot s := by
  rw [picks_eq_bind (Designator.needsSubject_of_isPositional hd), hsubject]
  rfl

variable {q q' : Dancer} {d : Designator}

/-- An empty slot and a person who stands on it get the same answer. -/
theorem alike_picks (hsetup : f'.setup = f.setup) (hsize : f.size ≤ phantomLimit)
    (hd : d.isPositional = true) (hslot : slot < f.size) (hvacant : f.dancer? slot = none)
    (hq : f'.updateRoles.dancer? slot = some q) (mode : Grouping) :
    Alike ⟨none, (f.setup.positionalRoles slot).inter .positional⟩ ⟨some q, q.roles⟩
      (f.picks d mode slot) (f'.updateRoles.picks d mode slot) := by
  rw [picks_eq_judges hd (subject_of_vacant hvacant hslot hsize hd),
    picks_eq_judges hd (subject_of_live hq d)]
  have hsame : f'.updateRoles.setup = f.setup := hsetup
  have hperson : Subject.StandsOn ⟨some q, q.roles⟩ f.setup slot := hsetup ▸ standsOn_of_live hq
  exact alike_judges (standsOn_of_vacant f.setup slot) hperson hsame hsize hd mode

/-- Two people who stand on the same slot get the same answer or the same error. -/
theorem picks_eq_picks (hsetup : f'.setup = f.setup) (hsize : f.size ≤ phantomLimit)
    (hd : d.isPositional = true) (hq : f.updateRoles.dancer? slot = some q)
    (hq' : f'.updateRoles.dancer? slot = some q') (mode : Grouping) :
    f.updateRoles.picks d mode slot = f'.updateRoles.picks d mode slot := by
  rw [picks_eq_judges hd (subject_of_live hq d), picks_eq_judges hd (subject_of_live hq' d)]
  have hsame : f'.updateRoles.setup = f.updateRoles.setup := hsetup
  have hperson : Subject.StandsOn ⟨some q, q.roles⟩ f.setup slot := standsOn_of_live hq
  have hperson' : Subject.StandsOn ⟨some q', q'.roles⟩ f.setup slot :=
    hsetup ▸ standsOn_of_live hq'
  exact (alike_judges (f := f.updateRoles) hperson hperson' hsame hsize hd mode).eq rfl

/-! ### Placing somebody -/

/-- Whoever stands on a slot stays there when roles are derived. -/
theorem exists_dancer?_updateRoles (hq : f.dancer? slot = some q) :
    ∃ q', f.updateRoles.dancer? slot = some q' := by
  rw [dancer?_updateRoles, hq]
  exact ⟨_, rfl⟩

/-- To put somebody on a slot leaves the setup. -/
theorem setup_place {p : Dancer} (hplace : f.place slot p = .ok f') : f'.setup = f.setup := by
  unfold place at hplace
  split at hplace <;> cases hplace
  rfl

/-- Whoever is placed on a slot is there, and the others stay. -/
theorem dancer?_place {p : Dancer} (hplace : f.place slot p = .ok f') (other : Nat) :
    f'.dancer? other = if other = slot then some p else f.dancer? other := by
  unfold place at hplace
  split at hplace
  · rename_i hslot
    cases hplace
    change ((f.slots.set slot (some p) hslot)[other]?).join = _
    rw [Vector.getElem?_set]
    split_ifs with h h' h'
    · rfl
    · exact absurd h.symm h'
    · exact absurd h'.symm h
    · rfl
  · cases hplace

/-- **An empty slot is judged as if somebody stood there.**  In a setup of at most eight slots,
somebody is put on an empty one and roles are given again.  A positional designator picks the slot
just if it picks the person, whoever that is, and where it cannot be decided for the slot, it has no
meaning for the person.  For everybody else it answers as before. -/
theorem picks_vacantSlot (hsize : f.size ≤ 8) (hslot : slot < f.size)
    (hvacant : f.dancer? slot = none) (p : Dancer) (mode : Grouping) :
    ∃ f', f.updateRoles.place slot p = .ok f' ∧ ∀ d : Designator, d.isPositional = true →
      (∀ b, f.updateRoles.picks d mode slot = .ok b ↔ f'.updateRoles.picks d mode slot = .ok b) ∧
      (∀ e, f.updateRoles.picks d mode slot = .error e →
        e = .cannotDetermine ∧ f'.updateRoles.picks d mode slot = .error .illegalDesignator) ∧
      ∀ other, other ≠ slot → f.isLive other = true →
        f.updateRoles.picks d mode other = f'.updateRoles.picks d mode other := by
  obtain ⟨f', hplace⟩ : ∃ f', f.updateRoles.place slot p = .ok f' := ⟨_, dif_pos hslot⟩
  have hsetup : f'.setup = f.updateRoles.setup := setup_place hplace
  refine ⟨f', hplace, fun d hd => ?_⟩
  have hempty : f.updateRoles.dancer? slot = none := by rw [dancer?_updateRoles, hvacant]; rfl
  have hthere : f'.dancer? slot = some p := by rw [dancer?_place hplace, if_pos rfl]
  obtain ⟨q, hq⟩ := exists_dancer?_updateRoles hthere
  have halike := alike_picks hsetup hsize hd hslot hempty hq mode
  refine ⟨halike.ok_iff, fun e he => halike.of_error he, fun other hne hlive => ?_⟩
  -- Everybody is given roles anew after the placement, so the others are compared as people too.
  obtain ⟨r, hr⟩ := Option.isSome_iff_exists.1 hlive
  obtain ⟨r', hr'⟩ := exists_dancer?_updateRoles hr
  have hstays : f'.dancer? other = some r' := by rw [dancer?_place hplace, if_neg hne, hr']
  obtain ⟨r'', hr''⟩ := exists_dancer?_updateRoles hstays
  exact picks_eq_picks (f := f) hsetup hsize hd hr' hr'' mode

/-- A quarter tag with nobody at one end of its line. -/
def gappedTag : Formation where
  setup := .quarterTag
  slots := #v[some { direction := .south }, some { direction := .south }, none,
    some { direction := .west }, some { direction := .north }, some { direction := .north },
    some { direction := .east }, some { direction := .east }]

/-- A quarter tag with nobody at one end of its line is judged there as if somebody were. -/
theorem picks_vacantSlot_gappedTag :
    gappedTag.size ≤ 8 ∧ 2 < gappedTag.size ∧ gappedTag.dancer? 2 = none ∧
      ∃ f', gappedTag.updateRoles.place 2 { direction := .east } = .ok f' ∧
        f'.updateRoles.picks .center4 .disallowed 2 = .ok true ∧
        f'.updateRoles.picks .ctr1x6 .disallowed 2 = .error .illegalDesignator ∧
        f'.updateRoles.picks .outer6 .disallowed 3 = .ok false := by
  have hsize : gappedTag.size ≤ 8 := by decide
  have hslot : 2 < gappedTag.size := by decide
  have hvacant : gappedTag.dancer? 2 = none := by decide
  obtain ⟨f', hplace, hpicks⟩ :=
    picks_vacantSlot hsize hslot hvacant { direction := .east } .disallowed
  have hcenter : gappedTag.updateRoles.picks .center4 .disallowed 2 = .ok true := by decide +kernel
  have hrefuses : gappedTag.updateRoles.picks .ctr1x6 .disallowed 2 = .error .cannotDetermine := by
    decide +kernel
  have hother : gappedTag.updateRoles.picks .outer6 .disallowed 3 = .ok false := by decide +kernel
  exact ⟨hsize, hslot, hvacant, f', hplace, ((hpicks .center4 rfl).1 true).1 hcenter,
    ((hpicks .ctr1x6 rfl).2.1 _ hrefuses).2,
    ((hpicks .outer6 rfl).2.2 3 (by decide) (by decide)).symm.trans hother⟩

end Formation
end SquareDance
