/-
# Predicates look only at what they declare

A predicate declares which parameters of a call it looks at: one about the designator at the
designator, one about the direction at the direction, one about base at the numbers, and one about
places at none.  Two sets of parameters that agree on those are the same to it
(`Predicate.judge_congr`), so that its answer and what it records do not depend on the others, nor
on what was recorded before.  It marks no other parameter as looked at, and what was recorded stays:
`Predicate.evaluate_declared`.
-/

import SquareDance.Predicate.Evaluate

namespace SquareDance

/-! ### What is recorded -/

namespace Consulted

/-- Whatever was looked at in the one was looked at in the other. -/
structure Within (a b : Consulted) : Prop where
  designator : a.designator = true → b.designator = true
  direction : a.direction = true → b.direction = true
  number : a.number = true → b.number = true

/-- What was looked at is among what was looked at in all. -/
theorem within_union (a b : Consulted) : a.Within (a.union b) := by
  constructor <;> simp_all [union]

/-- What was not looked at now is marked as it was before. -/
theorem union_of_within {b declared : Consulted} (h : b.Within declared) (a : Consulted) :
    (declared.designator = false → (a.union b).designator = a.designator) ∧
      (declared.direction = false → (a.union b).direction = a.direction) ∧
      (declared.number = false → (a.union b).number = a.number) := by
  have hmark : ∀ old now may : Bool, (now = true → may = true) → may = false →
      (old || now) = old := by decide
  exact ⟨hmark _ _ _ h.designator, hmark _ _ _ h.direction, hmark _ _ _ h.number⟩

end Consulted

namespace EvalContext

/-- What was recorded is kept, and the parameters of the call are the same. -/
structure Keeps (c after : EvalContext) : Prop where
  options : after.options = c.options
  consulted : c.consulted.Within after.consulted
  warnings : c.warnings <+: after.warnings

/-- A warning marks nothing as looked at. -/
theorem consulted_warn (c : EvalContext) (w : Warning) : (c.warn w).consulted = c.consulted := by
  unfold warn
  split <;> rfl

/-- A warning comes after those that were given before. -/
theorem prefix_warn (c : EvalContext) (w : Warning) : c.warnings <+: (c.warn w).warnings := by
  unfold warn
  split
  · exact List.prefix_rfl
  · exact List.prefix_append _ _

/-- What a verdict looked at is marked in addition. -/
theorem consulted_record (c : EvalContext) (v : Verdict) :
    (c.record v).consulted = c.consulted.union v.consulted := by
  unfold record
  cases v.warning with
  | none => rfl
  | some w => exact consulted_warn _ w

/-- **Recording a verdict keeps what was recorded.** -/
theorem keeps_record (c : EvalContext) (v : Verdict) : c.Keeps (c.record v) where
  options := options_record c v
  consulted := consulted_record c v ▸ c.consulted.within_union _
  warnings := by
    unfold record
    cases v.warning with
    | none => exact List.prefix_rfl
    | some w => exact prefix_warn { c with consulted := c.consulted.union v.consulted } w

/-- Equal records stay equal. -/
theorem record_congr {c c' : EvalContext} (hconsulted : c'.consulted = c.consulted)
    (hwarnings : c'.warnings = c.warnings) (v : Verdict) :
    (c'.record v).consulted = (c.record v).consulted ∧
      (c'.record v).warnings = (c.record v).warnings := by
  refine ⟨by rw [consulted_record, consulted_record, hconsulted], ?_⟩
  unfold record
  cases v.warning with
  | none => exact hwarnings
  | some w =>
    simp only [Option.elim_some, warn, hwarnings]
    split <;> rfl

end EvalContext

/-! ### Verdicts about places -/

namespace Formation

variable (f : Formation) (slot : Nat)

/-- An interlocked cast looks at no parameter. -/
theorem consulted_interlockedCast : (f.interlockedCast slot).consulted = {} := by
  unfold interlockedCast
  repeat' split
  all_goals rfl

/-- A cast looks at no parameter. -/
theorem consulted_castIs (mode : CastMode) : (f.castIs slot mode).consulted = {} := by
  unfold castIs
  dsimp only
  repeat' split
  all_goals rfl

/-- The part of a judge looks at no parameter. -/
theorem consulted_judgeIs (part : JudgePart) (hand : Hand) :
    (f.judgeIs slot part hand).consulted = {} := by
  unfold judgeIs
  dsimp only
  repeat' split
  all_goals rfl

/-- A gender looks at no parameter, in a slide thru or not. -/
theorem consulted_genderIs (g : Gender) (slideThru : Bool) :
    (f.genderIs slot g slideThru).consulted = {} := by
  unfold genderIs
  split <;> rfl

/-- **A place test looks at no parameter** of the call. -/
theorem consulted_judge (test : PlaceTest) : (f.judge slot test).consulted = {} := by
  cases test with
  | interlockedCast => exact f.consulted_interlockedCast slot
  | cast mode => exact f.consulted_castIs slot mode
  | judge part hand => exact f.consulted_judgeIs slot part hand
  | gender g slideThru => exact f.consulted_genderIs slot g slideThru
  | _ => rfl

end Formation

/-! ### Predicates -/

namespace Predicate

variable {p : Predicate} {o o' : CallOptions}

/-- It looks at the numbers of the call. -/
def needsNumber : Predicate → Bool
  | onBase _ => true
  | _ => false

/-- Which parameters a predicate declares that it looks at. -/
def declared (p : Predicate) : Consulted where
  designator := p.needsDesignator
  direction := p.needsDirection
  number := p.needsNumber

/-- Two sets of parameters agree on what a predicate declares.  They may differ in all others, and
always in how many, the tagger and the circulator. -/
structure SeesAlike (p : Predicate) (o o' : CallOptions) : Prop where
  who : p.needsDesignator = true → o'.who = o.who
  direction : p.needsDirection = true → o'.direction = o.direction
  numberFields : p.needsNumber = true → o'.numberFields = o.numberFields

/-- **The verdict is the same** for parameters that agree on what is declared. -/
theorem judge_congr (h : p.SeesAlike o o') (f : Formation) (slot : Nat) :
    p.judge o' f slot = p.judge o f slot := by
  unfold judge
  cases p with
  | designated test => simp only [h.who rfl]
  | place test => rfl
  | direction wanted => simp only [h.direction rfl]
  | onBase spot =>
    have hfirst : o'.firstNumber = o.firstNumber := congrArg (· &&& 63) (h.numberFields rfl)
    have hbase : baseVerdict f slot o' spot = baseVerdict f slot o spot := by
      unfold baseVerdict
      rw [hfirst]
    exact congrArg (ite _ _) hbase

/-- **The verdict tells of nothing that is not declared.** -/
theorem within_declared (p : Predicate) (o : CallOptions) (f : Formation) (slot : Nat) :
    (p.judge o f slot).consulted.Within p.declared := by
  unfold judge
  split
  · exact ⟨nofun, nofun, nofun⟩
  · cases p with
    | designated test => exact ⟨fun _ => rfl, nofun, nofun⟩
    | place test =>
      rw [f.consulted_judge slot test]
      exact ⟨nofun, nofun, nofun⟩
    | direction wanted => exact ⟨nofun, fun _ => rfl, nofun⟩
    | onBase spot =>
      change (baseVerdict f slot o spot).consulted.Within _
      unfold baseVerdict
      split
      · exact ⟨nofun, nofun, nofun⟩
      · exact ⟨nofun, nofun, fun _ => rfl⟩

/-- **Predicates look only at what they declare.**  In two contexts whose parameters agree on that,
a predicate has the same answer, and from equal records it leads to equal ones.  It changes no
parameter and loses nothing that was recorded, and it marks only what it declares. -/
theorem evaluate_declared (p : Predicate) (f : Formation) (slot : Nat) {c c' : EvalContext}
    (h : p.SeesAlike c.options c'.options) :
    (p.evaluate c' f slot).1 = (p.evaluate c f slot).1 ∧
      (c'.consulted = c.consulted → c'.warnings = c.warnings →
        (p.evaluate c' f slot).2.consulted = (p.evaluate c f slot).2.consulted ∧
          (p.evaluate c' f slot).2.warnings = (p.evaluate c f slot).2.warnings) ∧
      c.Keeps (p.evaluate c f slot).2 ∧
      (p.needsDesignator = false →
        (p.evaluate c f slot).2.consulted.designator = c.consulted.designator) ∧
      (p.needsDirection = false →
        (p.evaluate c f slot).2.consulted.direction = c.consulted.direction) ∧
      (p.needsNumber = false →
        (p.evaluate c f slot).2.consulted.number = c.consulted.number) := by
  unfold evaluate
  dsimp only
  rw [judge_congr h]
  refine ⟨rfl, fun hconsulted hwarnings => EvalContext.record_congr hconsulted hwarnings _,
    EvalContext.keeps_record c _, ?_⟩
  rw [EvalContext.consulted_record]
  exact Consulted.union_of_within (p.within_declared c.options f slot) c.consulted

/-- The parameters of a call for the boys, to the left, with the number 2. -/
def leftForBoys : CallOptions := { who := some .boys, direction := .left, numberFields := 2 }

/-- The parameters of a call for nobody in particular, with other numbers and warned before. -/
def leftForAnybody : EvalContext where
  options := { direction := .left, numberFields := 7, tagger := 3 }
  consulted := { number := true }
  warnings := [.phantomJudge]

/-- Calls to the left have one answer to whether they go left, for boys or for nobody in particular.
-/
theorem evaluate_declared_left :
    (direction .left).SeesAlike leftForBoys leftForAnybody.options ∧
      (direction .left).needsDesignator = false ∧
      ((direction .left).evaluate leftForAnybody (.vacant .pair) 1).1
        = ((direction .left).evaluate { options := leftForBoys } (.vacant .pair) 1).1 ∧
      ((direction .left).evaluate { options := leftForBoys } (.vacant .pair) 1).2.consulted.designator
        = false := by
  have halike : (direction .left).SeesAlike leftForBoys leftForAnybody.options :=
    ⟨nofun, fun _ => rfl, nofun⟩
  obtain ⟨hanswer, -, -, hdesignator, -⟩ :=
    evaluate_declared (direction .left) (.vacant .pair) 1 (c := { options := leftForBoys }) halike
  exact ⟨halike, rfl, hanswer, hdesignator rfl⟩

end Predicate
end SquareDance
