/-
# The four tests of being near

Somebody is selected or not, and the person beside them is or is not: four tests tell the cases
apart, and a definition of a call may give one clause for each.  Where the designator has an answer
for everybody, just one of them holds of each person: `Formation.near_exactlyOne`.

Two tests look elsewhere in one setup each.  In a 4x4 the test for nobody near asks about the whole
group of four, so that somebody unselected with an unselected neighbour, but with somebody selected
in the group, passes none of the tests (`Formation.IsLeftOut`).  In a 2x2 the test for two selected
people asks those who face sideways about the person across, and the other tests do not; so where
just one of the neighbour and the person across is selected, a selected person passes two of the
tests or none (`Formation.IsTorn`).  Both happen: `Formation.near_notExactlyOne`.
-/

import Mathlib.Data.List.Basic
import SquareDance.Predicate.Evaluate

namespace SquareDance

namespace DesignatorTest

/-- The tests about a person and the one near. -/
def nearTests : List DesignatorTest :=
  [selectNearSelect, selectNearUnselect, unselectNearSelect, unselectNearUnselect]

/-- The test for people who are selected or not, near somebody who is or is not. -/
def nearTest : (selected near : Bool) → DesignatorTest
  | true, true => selectNearSelect
  | true, false => selectNearUnselect
  | false, true => unselectNearSelect
  | false, false => unselectNearUnselect

/-- The test for each of the cases is one of the four. -/
theorem nearTest_mem (selected near : Bool) : nearTest selected near ∈ nearTests := by
  revert selected near
  decide

/-- Each of the four tests is the one for one of the cases. -/
theorem exists_nearTest {test : DesignatorTest} (h : test ∈ nearTests) :
    ∃ selected near, test = nearTest selected near := by
  revert test
  decide

/-- No test is for two of the cases. -/
theorem nearTest_inj {selected near selected' near' : Bool} :
    nearTest selected near = nearTest selected' near' ↔ selected = selected' ∧ near = near' := by
  revert selected near selected' near'
  decide

end DesignatorTest

namespace Formation

open DesignatorTest

variable {f : Formation} {d : Designator} {slot : Nat}

/-- The designator picks the person on a slot; it picks nobody where nobody stands. -/
def isPicked (f : Formation) (d : Designator) (slot : Nat) : Bool :=
  f.isLive slot && (f.picks d .disallowed slot).toOption == some true

/-- The designator has an answer for everybody. -/
def HasAnswers (f : Formation) (d : Designator) : Prop :=
  ∀ slot < f.size, f.isLive slot = true → (f.picks d .disallowed slot).isOk = true

instance (f : Formation) (d : Designator) : Decidable (f.HasAnswers d) :=
  inferInstanceAs (Decidable (∀ slot < f.size, _))

/-! ### Who is picked -/

/-- A call for everyone picks whoever is there. -/
theorem isPicked_of_isEveryone (hd : d.isEveryone = true) (hlive : f.isLive slot = true) :
    f.isPicked d slot = true := by
  cases d <;> cases hd <;> (rw [isPicked, hlive]; rfl)

/-- A call for nobody picks nobody. -/
theorem isPicked_nobody (f : Formation) (slot : Nat) : f.isPicked .nobody slot = false :=
  Bool.and_false _

/-- Somebody is picked of those whom the test for nobody near asks about. -/
def isPickedNear (f : Formation) (d : Designator) (slot : Nat) : Bool :=
  if f.setup = .grid4x4 then (groupOfFour slot).any (f.isPicked d) else f.isPicked d (slot ^^^ 1)

/-- A call for nobody picks nobody near. -/
theorem isPickedNear_nobody (f : Formation) (slot : Nat) :
    f.isPickedNear .nobody slot = false := by
  unfold isPickedNear
  split
  · exact List.any_eq_false.2 fun other _ => Bool.eq_false_iff.1 (isPicked_nobody f other)
  · exact isPicked_nobody f _

namespace HasAnswers

/-- **A person is selected** if they are picked. -/
theorem isSelected (h : f.HasAnswers d) (hlive : f.isLive slot = true) :
    isSelected f (some d) slot = .ok (f.isPicked d slot) := by
  have hok := h slot (lt_size_of_isLive hlive) hlive
  unfold DesignatorTest.isSelected isPicked
  rw [hlive]
  cases hpicks : f.picks d .disallowed slot with
  | error e =>
    rw [hpicks] at hok
    cases hok
  | ok b => exact hpicks.trans (by cases b <;> rfl)

/-- Somebody there is selected if they are picked, and nobody is selected on an empty slot. -/
theorem isLiveAndSelected (h : f.HasAnswers d) (slot : Nat) :
    isLiveAndSelected f (some d) slot = .ok (f.isPicked d slot) := by
  unfold DesignatorTest.isLiveAndSelected
  split
  next hlive => exact h.isSelected hlive
  next hvacant =>
    rw [isPicked, Bool.eq_false_iff.2 hvacant]
    rfl

/-- **Somebody of a group is selected** if somebody there is picked. -/
theorem anyLiveAndSelected (h : f.HasAnswers d) (slots : List Nat) :
    anyLiveAndSelected f (some d) slots = .ok (slots.any (f.isPicked d)) := by
  induction slots with
  | nil => rfl
  | cons slot slots ih =>
    rw [DesignatorTest.anyLiveAndSelected, h.isLiveAndSelected, ih, List.any_cons]
    cases f.isPicked d slot <;> rfl

/-! ### The answers of the tests -/

variable (h : f.HasAnswers d) (hlive : f.isLive slot = true)
include h hlive

/-- The test for two selected people asks about the person on the side, unless everyone is selected.
-/
theorem selectNearSelect : answer f (some d) slot .selectNearSelect
    = .ok (f.isPicked d slot && (d.isEveryone || f.isPicked d (nearSlot f slot))) := by
  have heveryone : picksEveryone (some d) = d.isEveryone := rfl
  rw [answer, h.isSelected hlive, h.isLiveAndSelected, heveryone]
  cases f.isPicked d slot <;> cases d.isEveryone <;> rfl

/-- The test for somebody selected near somebody who is not asks about the neighbour, unless
everyone is selected. -/
theorem selectNearUnselect : answer f (some d) slot .selectNearUnselect
    = .ok (f.isPicked d slot && !(d.isEveryone || f.isPicked d (slot ^^^ 1))) := by
  have heveryone : picksEveryone (some d) = d.isEveryone := rfl
  rw [answer, h.isSelected hlive, h.isLiveAndSelected, heveryone]
  cases f.isPicked d slot <;> cases d.isEveryone <;> rfl

/-- The test for somebody unselected near somebody who is selected asks about the neighbour. -/
theorem unselectNearSelect : answer f (some d) slot .unselectNearSelect
    = .ok (!f.isPicked d slot && f.isPicked d (slot ^^^ 1)) := by
  rw [answer, h.isSelected hlive, h.isLiveAndSelected]
  cases hnobody : picksNobody (some d) with
  | false => cases f.isPicked d slot <;> rfl
  | true =>
    obtain rfl : d = .nobody := Option.some.inj (beq_iff_eq.1 hnobody)
    rw [isPicked_nobody, isPicked_nobody]
    rfl

/-- The test for two unselected people asks about the neighbour, or in a 4x4 about the whole group.
-/
theorem unselectNearUnselect : answer f (some d) slot .unselectNearUnselect
    = .ok (!f.isPicked d slot && !f.isPickedNear d slot) := by
  rw [answer, h.isSelected hlive, h.isLiveAndSelected, h.anyLiveAndSelected, isPickedNear]
  cases hnobody : picksNobody (some d) with
  | false =>
    by_cases hgrid : f.setup = .grid4x4
    · rw [if_pos hgrid, if_pos hgrid]
      cases f.isPicked d slot <;> rfl
    · rw [if_neg hgrid, if_neg hgrid]
      cases f.isPicked d slot <;> rfl
  | true =>
    obtain rfl : d = .nobody := Option.some.inj (beq_iff_eq.1 hnobody)
    have hnear : f.isPickedNear .nobody slot = false := isPickedNear_nobody f slot
    rw [isPickedNear] at hnear
    rw [hnear, isPicked_nobody]
    rfl

end HasAnswers

/-! ### Just one of the four -/

/-- Somebody of a 4x4 is not selected, and the neighbour is not, but somebody of the group is. -/
structure IsLeftOut (f : Formation) (d : Designator) (slot : Nat) : Prop where
  setup : f.setup = .grid4x4
  unselected : f.isPicked d slot = false
  neighbor : f.isPicked d (slot ^^^ 1) = false
  group : ∃ other ∈ groupOfFour slot, f.isPicked d other = true

/-- Somebody of a 2x2 is selected and faces sideways, and of the neighbour and the person across just
one is selected.  The test for two selected people asks about the person across. -/
structure IsTorn (f : Formation) (d : Designator) (slot : Nat) : Prop where
  setup : f.setup = .box
  sideways : (f.facingOrNorth slot).isNorthSouth = false
  selected : f.isPicked d slot = true
  /-- Everyone is selected without a look at neighbours. -/
  notEveryone : d.isEveryone = false
  unlike : f.isPicked d (slot ^^^ 3) ≠ f.isPicked d (slot ^^^ 1)

/-- Whoever is asked about, it is all one to people who are not torn. -/
theorem isPicked_nearSlot (h : ¬f.IsTorn d slot) (hpicked : f.isPicked d slot = true)
    (hd : d.isEveryone = false) : f.isPicked d (nearSlot f slot) = f.isPicked d (slot ^^^ 1) := by
  unfold nearSlot sideSlot
  split
  next hsetup =>
    split
    next => rfl
    next hsideways =>
      by_contra hunlike
      exact h ⟨hsetup, Bool.eq_false_iff.2 hsideways, hpicked, hd, hunlike⟩
  next => rfl

/-- Whoever is left out has somebody selected in the group. -/
theorem isPickedNear_of_isLeftOut (h : f.IsLeftOut d slot) : f.isPickedNear d slot = true := by
  rw [isPickedNear, if_pos h.setup]
  exact List.any_eq_true.2 h.group

/-- Nobody else is asked about but the neighbour, as far as the answer goes. -/
theorem isPickedNear_of_not_isLeftOut (hlive : f.isLive slot = true)
    (hpicked : f.isPicked d slot = false) (h : ¬f.IsLeftOut d slot) :
    f.isPickedNear d slot = f.isPicked d (slot ^^^ 1) := by
  unfold isPickedNear
  split
  next hgrid =>
    have hgroup : ∀ slot < 16, slot ^^^ 1 ∈ groupOfFour slot := by decide
    have hmem := hgroup slot (Nat.lt_of_lt_of_le (lt_size_of_isLive hlive) f.setup.size_le)
    cases hneighbor : f.isPicked d (slot ^^^ 1) with
    | true => exact List.any_eq_true.2 ⟨_, hmem, hneighbor⟩
    | false =>
      rw [List.any_eq_false]
      exact fun other hother hyes => h ⟨hgrid, hpicked, hneighbor, other, hother, hyes⟩
  next => rfl

/-- **Each test holds in its own case only**, but for people who are torn or left out. -/
theorem HasAnswers.answer_nearTest (h : f.HasAnswers d) (hlive : f.isLive slot = true)
    (hwhole : ¬f.IsTorn d slot) (hin : ¬f.IsLeftOut d slot) (selected near : Bool) :
    answer f (some d) slot (nearTest selected near) = .ok (selected == f.isPicked d slot &&
      near == (d.isEveryone || f.isPicked d (slot ^^^ 1))) := by
  have heveryone : f.isPicked d slot = false → d.isEveryone = false := fun hpicked =>
    Bool.eq_false_iff.2 fun hd =>
      Bool.false_ne_true (hpicked.symm.trans (isPicked_of_isEveryone hd hlive))
  have hnear := isPickedNear_of_not_isLeftOut hlive (d := d) (h := hin)
  cases selected with
  | true =>
    cases near with
    | true =>
      rw [nearTest, h.selectNearSelect hlive]
      cases hpicked : f.isPicked d slot with
      | false => rfl
      | true =>
        cases hd : d.isEveryone with
        | true => rfl
        | false => simp [isPicked_nearSlot hwhole hpicked hd]
    | false =>
      rw [nearTest, h.selectNearUnselect hlive]
      simp
  | false =>
    cases near with
    | true =>
      rw [nearTest, h.unselectNearSelect hlive]
      cases hpicked : f.isPicked d slot with
      | true => rfl
      | false => simp [heveryone hpicked]
    | false =>
      rw [nearTest, h.unselectNearUnselect hlive]
      cases hpicked : f.isPicked d slot with
      | true => rfl
      | false => simp [heveryone hpicked, hnear hpicked]

/-- Whoever is left out passes none of the tests. -/
theorem HasAnswers.answer_of_isLeftOut (h : f.HasAnswers d) (hlive : f.isLive slot = true)
    (hout : f.IsLeftOut d slot) {test : DesignatorTest} (htest : test ∈ nearTests) :
    answer f (some d) slot test = .ok false := by
  obtain ⟨selected, near, rfl⟩ := exists_nearTest htest
  cases selected <;> cases near <;> rw [nearTest]
  · rw [h.unselectNearUnselect hlive, isPickedNear_of_isLeftOut hout, Bool.not_true, Bool.and_false]
  · rw [h.unselectNearSelect hlive, hout.neighbor, Bool.and_false]
  · rw [h.selectNearUnselect hlive, hout.unselected, Bool.false_and]
  · rw [h.selectNearSelect hlive, hout.unselected, Bool.false_and]

/-- Where somebody stands, a test is evaluated to its answer. -/
theorem evaluate_designated {c : EvalContext} (hwho : c.options.who = some d)
    (hlive : f.isLive slot = true) (test : DesignatorTest) :
    ((Predicate.designated test).evaluate c f slot).1 = test.answer f (some d) slot := by
  have hslot : ¬f.size ≤ slot := Nat.not_le.2 (lt_size_of_isLive hlive)
  unfold Predicate.evaluate Predicate.judge
  rw [hwho, if_neg hslot]

/-- **Just one of the four tests holds**: the one for whether the person is selected and whether the
neighbour is.  Everyone counts as near somebody selected, and an empty slot as not selected.  In a
4x4 nobody near is selected only if nobody in the group of four is, so that people may be left out. -/
theorem near_exactlyOne {c : EvalContext} (hwho : c.options.who = some d) (h : f.HasAnswers d)
    (hlive : f.isLive slot = true) (hwhole : ¬f.IsTorn d slot) :
    (¬f.IsLeftOut d slot → ∃ chosen ∈ nearTests,
      chosen = nearTest (f.isPicked d slot) (d.isEveryone || f.isPicked d (slot ^^^ 1)) ∧
      ∀ test ∈ nearTests,
        ((Predicate.designated test).evaluate c f slot).1 = .ok (decide (test = chosen))) ∧
    (f.IsLeftOut d slot → ∀ test ∈ nearTests,
      ((Predicate.designated test).evaluate c f slot).1 = .ok false) := by
  refine ⟨fun hin => ⟨_, nearTest_mem _ _, rfl, fun test htest => ?_⟩, fun hout test htest => ?_⟩
  · obtain ⟨selected, near, rfl⟩ := exists_nearTest htest
    rw [evaluate_designated hwho hlive, h.answer_nearTest hlive hwhole hin]
    simp only [nearTest_inj, Bool.decide_and, Bool.beq_eq_decide_eq]
  · rw [evaluate_designated hwho hlive]
    exact h.answer_of_isLeftOut hlive hout htest

/-- A call for the boys. -/
def forBoys : EvalContext := { options := { who := some .boys } }

/-- A 4x4 with three people in one of its corners: two girls, and a boy on the next slot. -/
def cornerGroup : Formation where
  setup := .grid4x4
  slots := .ofFn fun slot => ([1, 3, 0][slot.val]?).map fun number =>
    { identity := Identity.ofNumber? number, direction := .north }

/-- In a corner of a 4x4 the boy passes one test, and a girl passes none. -/
theorem near_exactlyOne_cornerGroup :
    forBoys.options.who = some .boys ∧ cornerGroup.HasAnswers .boys ∧
      (cornerGroup.isLive 2 = true ∧ ¬cornerGroup.IsTorn .boys 2 ∧
        ¬cornerGroup.IsLeftOut .boys 2 ∧
        ((Predicate.designated .selectNearUnselect).evaluate forBoys cornerGroup 2).1 = .ok true) ∧
      cornerGroup.isLive 0 = true ∧ ¬cornerGroup.IsTorn .boys 0 ∧
        cornerGroup.IsLeftOut .boys 0 ∧
        ((Predicate.designated .unselectNearUnselect).evaluate forBoys cornerGroup 0).1
          = .ok false := by
  have hwho : forBoys.options.who = some .boys := rfl
  have hanswers : cornerGroup.HasAnswers .boys := by decide +kernel
  have hlive : ∀ slot < 3, cornerGroup.isLive slot = true := by decide +kernel
  have hwhole : ∀ slot, ¬cornerGroup.IsTorn .boys slot := fun _ htorn => nomatch htorn.setup
  have hpicked : cornerGroup.isPicked .boys 2 = true := by decide +kernel
  have hin : ¬cornerGroup.IsLeftOut .boys 2 := fun hout =>
    Bool.false_ne_true (hout.unselected.symm.trans hpicked)
  have hout : cornerGroup.IsLeftOut .boys 0 :=
    ⟨rfl, by decide +kernel, by decide +kernel, 2, by decide, hpicked⟩
  obtain ⟨chosen, -, rfl, htests⟩ :=
    (near_exactlyOne hwho hanswers (hlive 2 (by decide)) (hwhole 2)).1 hin
  have hnone := (near_exactlyOne hwho hanswers (hlive 0 (by decide)) (hwhole 0)).2 hout
  exact ⟨hwho, hanswers, ⟨hlive 2 (by decide), hwhole 2, hin, htests _ (by decide)⟩,
    hlive 0 (by decide), hwhole 0, hout, hnone _ (by decide)⟩

/-- A 2x2 of people who face sideways, the boys behind the girls. -/
def sidewaysBox : Formation where
  setup := .box
  slots := #v[0, 1, 3, 2].map fun number =>
    some { identity := Identity.ofNumber? number, direction := .east }

/-- **Not just one of the four tests holds** of everybody: none of somebody in a 4x4 with a boy in
the group who is not the neighbour, and two of a boy in a 2x2 of people who face sideways. -/
theorem near_notExactlyOne :
    (cornerGroup.HasAnswers .boys ∧ cornerGroup.isLive 0 = true ∧ ∀ test ∈ nearTests,
      ((Predicate.designated test).evaluate forBoys cornerGroup 0).1 = .ok false) ∧
    sidewaysBox.HasAnswers .boys ∧ sidewaysBox.isLive 0 = true ∧
      ((Predicate.designated .selectNearSelect).evaluate forBoys sidewaysBox 0).1 = .ok true ∧
      ((Predicate.designated .selectNearUnselect).evaluate forBoys sidewaysBox 0).1 = .ok true :=
  ⟨⟨by decide +kernel, by decide +kernel, by decide +kernel⟩, by decide +kernel,
    by decide +kernel, by decide +kernel, by decide +kernel⟩

end Formation
end SquareDance
