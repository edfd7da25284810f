/-
# Verdicts and the context that records them

The answer to a predicate comes as a verdict: the answer itself, the parameters
of the call that were looked at on the way, and at most one warning.  A context
holds the parameters of the call that is being danced and records what the
verdicts report: a parameter once looked at stays marked, and a warning is
recorded once.
-/

import SquareDance.CallDirection
import SquareDance.Designator

namespace SquareDance

/-- An advisory that goes with an answer. -/
inductive Warning where
  | phantomJudge
  | optForNormalCast
  | tastelessSlideThru
  | suspectDestroyLine
  deriving DecidableEq, Inhabited

/-- The text of a warning. -/
def Warning.message : Warning → String
  | phantomJudge => "Judge or socker is a phantom."
  | optForNormalCast => "Opting for normal cast."
  | tastelessSlideThru => "Slide thru from right hand is tasteless."
  | suspectDestroyLine => "Assuming this is a suspect destroy the line."

/-- The parameters that a call was given. -/
structure CallOptions where
  /-- Who does it, if anybody was named. -/
  who : Option Designator := none
  direction : CallDirection := .noDirection
  /-- The numbers, six bits each, the first one lowest. -/
  numberFields : UInt32 := 0
  howMany : UInt32 := 0
  tagger : UInt32 := 0
  circulator : UInt32 := 0
  deriving DecidableEq, Inhabited

/-- The first number. -/
def CallOptions.firstNumber (o : CallOptions) : UInt32 := o.numberFields &&& 63

/-- Which parameters have been looked at. -/
structure Consulted where
  designator : Bool := false
  direction : Bool := false
  number : Bool := false
  deriving DecidableEq, Inhabited

/-- What was looked at by either. -/
def Consulted.union (a b : Consulted) : Consulted :=
  ⟨a.designator || b.designator, a.direction || b.direction, a.number || b.number⟩

/-- The answer to a predicate and what goes with it. -/
structure Verdict where
  answer : Except DesignatorError Bool
  consulted : Consulted := {}
  warning : Option Warning := none

namespace Verdict

/-- A plain answer. -/
def ok (b : Bool) : Verdict := { answer := .ok b }

/-- No answer. -/
def error (e : DesignatorError) : Verdict := { answer := .error e }

end Verdict

/-- The state of one attempt to dance a call. -/
structure EvalContext where
  options : CallOptions := {}
  consulted : Consulted := {}
  /-- The warnings so far, each once, the oldest first. -/
  warnings : List Warning := []
  deriving Inhabited

namespace EvalContext

/-- Record a warning, unless it is there. -/
def warn (c : EvalContext) (w : Warning) : EvalContext :=
  if c.warnings.contains w then c else { c with warnings := c.warnings ++ [w] }

/-- Record what goes with a verdict. -/
def record (c : EvalContext) (v : Verdict) : EvalContext :=
  let c := { c with consulted := c.consulted.union v.consulted }
  v.warning.elim c c.warn

/-- Forget what was recorded, before another attempt. -/
def reset (c : EvalContext) : EvalContext := { options := c.options }

/-- A warning changes no parameter of the call. -/
@[simp] theorem options_warn (c : EvalContext) (w : Warning) : (c.warn w).options = c.options := by
  unfold warn; split <;> rfl

/-- **Recording leaves the parameters of the call alone.** -/
@[simp] theorem options_record (c : EvalContext) (v : Verdict) :
    (c.record v).options = c.options := by
  unfold record
  cases v.warning <;> simp

end EvalContext
end SquareDance
