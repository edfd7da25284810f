/-
# When a predicate looks at the designator

A test about the designator is an inquiry: it asks whether the person on a slot is selected, and
from the answer goes on to the next question or to its own answer (`DesignatorTest.inquiry`).
Every question marks the designator as looked at.  A call without one has nothing to look at, and
the first question is refused without a mark.

So where no mark is left, either nothing was asked, and the answer is the same for any designator,
or there was none to ask about: `Predicate.evaluate_of_unmarked`.  The second case does happen, and
another designator may give another answer: `Predicate.evaluate_unmarked_select`.
-/

import SquareDance.Proofs.Predicate.Declared

namespace SquareDance

/-! ### Inquiries -/

/-- A question put together from questions whether the person on a slot is selected. -/
inductive Inquiry where
  | done (answer : Bool)
  | ask (slot : Nat) (next : Bool → Inquiry)

namespace Inquiry

open DesignatorTest

section Runs

variable (f : Formation) (who : Option Designator)

/-- The answer, and whether a designator has been looked at before or on the way.  A call without a
designator has none to look at. -/
def run : Inquiry → Bool → Except DesignatorError Bool × Bool
  | done answer, marked => (.ok answer, marked)
  | ask slot next, marked =>
    let marked := marked || who.isSome
    match isSelected f who slot with
    | .error e => (.error e, marked)
    | .ok selected => (next selected).run marked

/-- There is a question to ask. -/
def asks : Inquiry → Bool
  | done _ => false
  | ask .. => true

/-- **The mark tells whether anything was asked** about a designator that there is. -/
theorem run_marked (q : Inquiry) (marked : Bool) :
    (q.run f who marked).2 = (marked || who.isSome && q.asks) := by
  induction q generalizing marked with
  | done answer => simp only [run, asks, Bool.and_false, Bool.or_false]
  | ask slot next ih =>
    simp only [run, asks, Bool.and_true]
    cases isSelected f who slot with
    | error e => rfl
    | ok selected =>
      dsimp only
      rw [ih]
      cases who.isSome <;> simp

/-- What has been looked at before has no effect on the answer. -/
theorem run_answer (q : Inquiry) (marked : Bool) :
    (q.run f who marked).1 = (q.run f who false).1 := by
  induction q generalizing marked with
  | done answer => rfl
  | ask slot next ih =>
    simp only [run]
    cases isSelected f who slot with
    | error e => rfl
    | ok selected => exact (ih selected _).trans (ih selected _).symm

/-- The answer, if the first question gets one, comes from what follows. -/
theorem run_ask (slot : Nat) (next : Bool → Inquiry) :
    ((ask slot next).run f who false).1
      = isSelected f who slot >>= fun selected => ((next selected).run f who false).1 := by
  simp only [run]
  cases isSelected f who slot with
  | error e => rfl
  | ok selected => exact run_answer f who _ _

/-- Where nothing is asked, it does not matter whom the designator picks. -/
theorem run_of_not_asks {q : Inquiry} (h : q.asks = false) (who' : Option Designator) :
    (q.run f who' false).1 = (q.run f who false).1 := by
  cases q with
  | done answer => rfl
  | ask slot next => cases h

/-- **Without a designator** a question is refused. -/
theorem run_of_asks {q : Inquiry} (h : q.asks = true) :
    (q.run f none false).1 = .error .illegalDesignator := by
  cases q with
  | done answer => cases h
  | ask slot next => rfl

end Runs

/-! ### Ways to put questions together -/

/-- The person on a slot is selected. -/
def whether (slot : Nat) : Inquiry := ask slot done

/-- The opposite answer. -/
def not : Inquiry → Inquiry
  | done answer => done !answer
  | ask slot next => ask slot fun selected => (next selected).not

/-- Somebody stands there and is selected. -/
def whetherLive (f : Formation) (slot : Nat) : Inquiry :=
  if f.isLive slot then whether slot else done false

/-- Somebody stands on one of the slots and is selected. -/
def whetherAny (f : Formation) : List Nat → Inquiry
  | [] => done false
  | slot :: rest =>
    if f.isLive slot then
      ask slot fun selected => if selected then done true else whetherAny f rest
    else whetherAny f rest

/-- Everybody on the slots is selected. -/
def whetherAll (f : Formation) : List Nat → Inquiry
  | [] => done true
  | slot :: rest =>
    if f.isLive slot then
      ask slot fun selected => if selected then whetherAll f rest else done false
    else whetherAll f rest

/-- Asks the rest only if the person on a slot is selected, or is not, as `wanted` says, and if the
designator does not settle it for everybody. -/
def first (slot : Nat) (wanted : Bool) (settled : Option Bool) (rest : Inquiry) : Inquiry :=
  ask slot fun selected => if selected = wanted then settled.elim rest done else done false

section Answers

variable {f : Formation} {who : Option Designator}

/-- A single question has the answer for the slot. -/
@[simp] theorem run_whether (slot : Nat) :
    ((whether slot).run f who false).1 = isSelected f who slot := by
  rw [whether, run_ask]
  cases isSelected f who slot <;> rfl

/-- An inquiry for the opposite has the opposite answer, and is refused where the other is. -/
@[simp] theorem run_not (q : Inquiry) :
    (q.not.run f who false).1 = (q.run f who false).1.map (!·) := by
  induction q with
  | done answer => rfl
  | ask slot next ih =>
    rw [not, run_ask, run_ask]
    cases isSelected f who slot with
    | error e => rfl
    | ok selected => exact ih selected

/-- On an empty slot nobody is asked about, and the answer is no. -/
@[simp] theorem run_whetherLive (slot : Nat) :
    ((whetherLive f slot).run f who false).1 = isLiveAndSelected f who slot := by
  unfold whetherLive isLiveAndSelected
  split
  · exact run_whether slot
  · rfl

/-- A question for some slots ends at the first one with somebody who is selected. -/
@[simp] theorem run_whetherAny (slots : List Nat) :
    ((whetherAny f slots).run f who false).1 = anyLiveAndSelected f who slots := by
  induction slots with
  | nil => rfl
  | cons slot slots ih =>
    rw [whetherAny, anyLiveAndSelected, isLiveAndSelected, ← ih]
    cases f.isLive slot with
    | false => rfl
    | true =>
      rw [if_pos rfl, if_pos rfl, run_ask]
      congr 1
      funext selected
      cases selected <;> rfl

/-- A question for all slots ends at the first one with somebody who is not selected. -/
@[simp] theorem run_whetherAll (slots : List Nat) :
    ((whetherAll f slots).run f who false).1 = allLiveSelected f who slots := by
  induction slots with
  | nil => rfl
  | cons slot slots ih =>
    rw [whetherAll, allLiveSelected, ← ih]
    cases f.isLive slot with
    | false => rfl
    | true =>
      rw [if_pos rfl, if_pos rfl, run_ask]
      congr 1
      funext selected
      cases selected <;> rfl

/-- The rest is asked only after the first answer that is wanted, and only if it is not settled. -/
@[simp] theorem run_first (slot : Nat) (wanted : Bool) (settled : Option Bool) (rest : Inquiry) :
    ((first slot wanted settled rest).run f who false).1
      = isSelected f who slot >>= fun selected =>
        if selected = wanted then settled.elim (rest.run f who false).1 .ok else .ok false := by
  rw [first, run_ask]
  congr 1
  funext selected
  split
  · cases settled <;> rfl
  · rfl

end Answers
end Inquiry

/-! ### The tests -/

namespace DesignatorTest

open Inquiry

variable (f : Formation) (who : Option Designator) (slot : Nat)

/-- What a test asks, in order. -/
def inquiry : DesignatorTest → Inquiry
  | select => whether slot
  | unselect => (whether slot).not
  | selectNearSelect => first slot true (everyone true) (whetherLive f (nearSlot f slot))
  | selectNearUnselect => first slot true (everyone false) (whetherLive f (slot ^^^ 1)).not
  | unselectNearSelect => first slot false (nobody false) (whetherLive f (slot ^^^ 1))
  | unselectNearUnselect => first slot false (nobody true)
    (if f.setup = .grid4x4 then whetherAny f (groupOfFour slot) else whetherLive f (slot ^^^ 1)).not
  | selectOnceRemovedFromSelect =>
    first slot true (everyone true) (whetherLive f (onceRemovedSlot f slot))
  | selectOnceRemovedFromUnselect =>
    first slot true (everyone false) (whetherLive f (onceRemovedSlot f slot)).not
  | unselectOnceRemovedFromSelect =>
    first slot false (nobody false) (whetherLive f (onceRemovedSlot f slot))
  | selectNearSelectOrPhantom => first slot true (everyone true) (whetherAll f
    (if f.setup = .grid4x4 then (groupOfFour slot).filter (· != slot) else [slot ^^^ 1]))
  | sum n => whether (Formation.slotSum f.setup slot n)
  | plus n => whether (Formation.slotPlus f.setup slot (f.facingOrNorth slot) n)
  | realPlus n => whetherLive f (Formation.slotPlus f.setup slot (f.facingOrNorth slot) n)
  | selectAndRoll spin => ask slot fun selected =>
    done (selected && (f.dancer? slot).any (·.roll == some spin.roll))
where
  /-- What is known if everyone is selected. -/
  everyone (answer : Bool) : Option Bool := if picksEveryone who then some answer else none
  /-- What is known if nobody is selected. -/
  nobody (answer : Bool) : Option Bool := if picksNobody who then some answer else none

/-- A test asks if it may come to ask at all. -/
theorem asks_inquiry (test : DesignatorTest) :
    (test.inquiry f who slot).asks = test.asks f slot := by
  cases test with
  | realPlus n =>
    simp only [inquiry, whetherLive, asks]
    split
    next hlive => exact hlive.symm
    next hvacant => exact (Bool.eq_false_iff.2 hvacant).symm
  | _ => rfl

/-- **The answer to a test** is that of its inquiry. -/
theorem answer_eq_run (test : DesignatorTest) :
    test.answer f who slot = ((test.inquiry f who slot).run f who false).1 := by
  cases test with
  | select | sum | plus => exact (run_whether _).symm
  | realPlus => exact (run_whetherLive _).symm
  | unselect => rw [inquiry, run_not, run_whether, answer]
  | selectAndRoll => rw [inquiry, run_ask, answer]; rfl
  | selectNearSelect | selectOnceRemovedFromSelect =>
    rw [inquiry, run_first, run_whetherLive, answer, inquiry.everyone]
    congr 1
    funext selected
    cases picksEveryone who <;> cases selected <;> rfl
  | selectNearUnselect | selectOnceRemovedFromUnselect =>
    rw [inquiry, run_first, run_not, run_whetherLive, answer, inquiry.everyone]
    congr 1
    funext selected
    cases picksEveryone who <;> cases selected <;> rfl
  | unselectNearSelect | unselectOnceRemovedFromSelect =>
    rw [inquiry, run_first, run_whetherLive, answer, inquiry.nobody]
    congr 1
    funext selected
    cases picksNobody who <;> cases selected <;> rfl
  | unselectNearUnselect =>
    rw [inquiry, run_first, run_not, answer, inquiry.nobody]
    congr 1
    funext selected
    by_cases hgrid : f.setup = .grid4x4
    · rw [if_pos hgrid, if_pos hgrid, run_whetherAny]
      cases picksNobody who <;> cases selected <;> rfl
    · rw [if_neg hgrid, if_neg hgrid, run_whetherLive]
      cases picksNobody who <;> cases selected <;> rfl
  | selectNearSelectOrPhantom =>
    rw [inquiry, run_first, run_whetherAll, answer, inquiry.everyone]
    congr 1
    funext selected
    by_cases hgrid : f.setup = .grid4x4
    · rw [if_pos hgrid, if_pos hgrid]
      cases picksEveryone who <;> cases selected <;> rfl
    · rw [if_neg hgrid, if_neg hgrid]
      cases picksEveryone who <;> cases selected <;> rfl

variable {f slot} {test : DesignatorTest}

/-- A test that asks nothing goes the same way for any designator. -/
theorem inquiry_of_not_asks (h : test.asks f slot = false) (who who' : Option Designator) :
    test.inquiry f who' slot = test.inquiry f who slot := by
  cases test with
  | realPlus n => rfl
  | _ => cases h

/-- A test that asks nothing has the same answer for any designator. -/
theorem answer_of_not_asks (h : test.asks f slot = false) (who who' : Option Designator) :
    test.answer f who' slot = test.answer f who slot := by
  have hasks : (test.inquiry f who slot).asks = false := (asks_inquiry f who slot test).trans h
  rw [answer_eq_run, answer_eq_run, inquiry_of_not_asks h who]
  exact run_of_not_asks f who hasks who'

/-- A test that asks has no answer without a designator. -/
theorem answer_of_asks (h : test.asks f slot = true) :
    test.answer f none slot = .error .illegalDesignator := by
  rw [answer_eq_run]
  exact run_of_asks f ((asks_inquiry f none slot test).trans h)

end DesignatorTest

/-! ### Predicates -/

namespace Predicate

variable {p : Predicate} {o : CallOptions} {f : Formation} {slot : Nat}

/-- The predicate comes to ask about the designator. -/
def asks (p : Predicate) (f : Formation) (slot : Nat) : Bool :=
  match p with
  | designated test => slot < f.size && test.asks f slot
  | _ => false

/-- On a slot of the setup the test is what comes to ask. -/
theorem asks_designated (hslot : slot < f.size) (test : DesignatorTest) :
    (designated test).asks f slot = test.asks f slot := by
  rw [asks, decide_eq_true hslot, Bool.true_and]

/-- Off the setup nothing is asked. -/
theorem asks_of_size_le (hslot : f.size ≤ slot) (p : Predicate) : p.asks f slot = false := by
  cases p with
  | designated test => rw [asks, decide_eq_false (Nat.not_lt.2 hslot), Bool.false_and]
  | _ => rfl

/-- On a slot of the setup the verdict is the answer of the test, and marks the designator if the
test comes to ask about one. -/
theorem judge_designated (hslot : slot < f.size) (test : DesignatorTest) (o : CallOptions) :
    (designated test).judge o f slot
      = { answer := test.answer f o.who slot
          consulted := { designator := o.who.isSome && test.asks f slot } } :=
  if_neg (Nat.not_le.2 hslot)

/-- Off the setup there is no verdict. -/
theorem judge_of_size_le (hslot : f.size ≤ slot) (p : Predicate) (o : CallOptions) :
    p.judge o f slot = .error .illegalDesignator := if_pos hslot

/-- **The designator is marked** where a predicate comes to ask about one that there is. -/
theorem designator_judge (p : Predicate) (o : CallOptions) (f : Formation) (slot : Nat) :
    (p.judge o f slot).consulted.designator = (o.who.isSome && p.asks f slot) := by
  rcases Nat.lt_or_ge slot f.size with hslot | hslot
  · cases p with
    | designated test => rw [judge_designated hslot, asks_designated hslot]
    | place | direction | onBase =>
      refine (Bool.eq_false_iff.2 fun h => ?_).trans (Bool.and_false _).symm
      exact Bool.false_ne_true ((within_declared _ o f slot).designator h)
  · rw [judge_of_size_le hslot, asks_of_size_le hslot, Bool.and_false]
    rfl

/-- Evaluation marks the designator where the verdict does. -/
theorem designator_evaluate (p : Predicate) (o : CallOptions) (f : Formation) (slot : Nat) :
    (p.evaluate { options := o } f slot).2.consulted.designator
      = (o.who.isSome && p.asks f slot) := by
  unfold evaluate
  rw [EvalContext.consulted_record, ← designator_judge]
  exact Bool.false_or _

/-- **A test is evaluated by its inquiry**: the answer and the mark are those of its run. -/
theorem evaluate_eq_run (hslot : slot < f.size) (test : DesignatorTest) (o : CallOptions) :
    (((designated test).evaluate { options := o } f slot).1,
        ((designated test).evaluate { options := o } f slot).2.consulted.designator)
      = (test.inquiry f o.who slot).run f o.who false := by
  refine Prod.ext ?_ ?_
  · unfold evaluate
    rw [judge_designated hslot]
    exact DesignatorTest.answer_eq_run f o.who slot test
  · rw [designator_evaluate, asks_designated hslot, Inquiry.run_marked,
      DesignatorTest.asks_inquiry]
    rfl

/-- The verdict of a predicate that asks nothing is the same for any designator. -/
theorem judge_of_not_asks (h : p.asks f slot = false) (o : CallOptions) (who : Option Designator) :
    p.judge { o with who } f slot = p.judge o f slot := by
  rcases Nat.lt_or_ge slot f.size with hslot | hslot
  · cases p with
    | designated test =>
      rw [asks_designated hslot] at h
      rw [judge_designated hslot, judge_designated hslot, h,
        DesignatorTest.answer_of_not_asks h o.who who, Bool.and_false, Bool.and_false]
    | place | direction | onBase =>
      refine judge_congr ?_ f slot
      exact ⟨nofun, fun _ => rfl, fun _ => rfl⟩
  · rw [judge_of_size_le hslot, judge_of_size_le hslot]

/-- There is no verdict for a predicate that asks about a designator where there is none. -/
theorem judge_of_asks (h : p.asks f slot = true) (hwho : o.who = none) :
    p.judge o f slot = .error .illegalDesignator := by
  rcases Nat.lt_or_ge slot f.size with hslot | hslot
  · cases p with
    | designated test =>
      rw [asks_designated hslot] at h
      rw [judge_designated hslot, hwho, DesignatorTest.answer_of_asks h]
      rfl
    | place | direction | onBase => cases h
  · exact judge_of_size_le hslot p o

/-- **Where the designator is not marked, it has no effect**: with another designator, or with none,
a predicate has the same answer and warns of the same.  But where there is none, and the predicate
comes to ask about one, it has no answer, although there may be one for a designator, which is
marked then. -/
theorem evaluate_of_unmarked (p : Predicate) (o : CallOptions) (who : Option Designator)
    (f : Formation) (slot : Nat)
    (hunmarked : (p.evaluate { options := o } f slot).2.consulted.designator = false) :
    (¬(o.who = none ∧ p.asks f slot = true) →
      (p.evaluate { options := { o with who } } f slot).1
          = (p.evaluate { options := o } f slot).1 ∧
        (p.evaluate { options := { o with who } } f slot).2.warnings
          = (p.evaluate { options := o } f slot).2.warnings) ∧
    (o.who = none ∧ p.asks f slot = true →
      (p.evaluate { options := o } f slot).1 = .error .illegalDesignator ∧
        (p.evaluate { options := o } f slot).2.warnings = [] ∧
        (p.evaluate { options := { o with who } } f slot).2.consulted.designator = who.isSome) := by
  constructor
  · intro hasked
    have hasks : p.asks f slot = false := by
      rw [designator_evaluate] at hunmarked
      cases hwho : o.who with
      | none => exact Bool.eq_false_iff.2 fun h => hasked ⟨hwho, h⟩
      | some d => rwa [hwho] at hunmarked
    unfold evaluate
    dsimp only
    rw [judge_of_not_asks hasks]
    refine ⟨rfl, (EvalContext.record_congr ?_ ?_ _).2⟩
    · rfl
    · rfl
  · rintro ⟨hwho, hasks⟩
    refine ⟨?_, ?_, ?_⟩
    · exact congrArg Verdict.answer (judge_of_asks hasks hwho)
    · unfold evaluate
      rw [judge_of_asks hasks hwho]
      rfl
    · rw [designator_evaluate, hasks, Bool.and_true]

/-- A line of four with an empty slot. -/
def gappedLine : Formation where
  setup := .line4
  slots := #v[some { identity := Identity.ofNumber? 0, direction := .north },
    some { identity := Identity.ofNumber? 1, direction := .south }, none,
    some { identity := Identity.ofNumber? 3, direction := .north }]

/-- In a line with an empty slot, the boys are not asked about where nobody stands, and a call for
nobody in particular is refused where somebody does. -/
theorem evaluate_of_unmarked_gappedLine :
    ((designated (.realPlus 1)).evaluate { options := { who := some .boys } } gappedLine 1
        ).2.consulted.designator = false ∧
      ((designated (.realPlus 1)).evaluate {} gappedLine 1).1 = .ok false ∧
      ((designated .select).evaluate {} gappedLine 0).2.consulted.designator = false ∧
      ((designated .select).evaluate {} gappedLine 0).1 = .error .illegalDesignator := by
  have hvacant : ((designated (.realPlus 1)).evaluate { options := { who := some .boys } }
      gappedLine 1).2.consulted.designator = false := by decide
  have hunnamed :
      ((designated .select).evaluate {} gappedLine 0).2.consulted.designator = false := by decide
  have hsame := (evaluate_of_unmarked _ { who := some .boys } none _ _ hvacant).1 nofun
  have hrefused := (evaluate_of_unmarked _ {} (some .boys) _ _ hunnamed).2 ⟨rfl, by decide⟩
  exact ⟨hvacant, hsame.1.trans rfl, hunnamed, hrefused.1⟩

/-- **The designator can have an effect without a mark**: with no designator nothing is marked and
there is no answer, but a call for everyone selects the person. -/
theorem evaluate_unmarked_select :
    ((designated .select).evaluate {} gappedLine 0).2.consulted.designator = false ∧
      ((designated .select).evaluate {} gappedLine 0).1 = .error .illegalDesignator ∧
      ((designated .select).evaluate { options := { who := some .everyone } } gappedLine 0).1
        = .ok true :=
  ⟨by decide, rfl, rfl⟩

end Predicate
end SquareDance
