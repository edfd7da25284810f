/-
# The subject of a designator

Whoever is judged is seen through an identity, which phantoms lack, and a set of
roles.  Most designators ask about two roles that exclude each other: a subject
with exactly one of them gets an answer, and one with both or neither is not
described by the pair.

An empty slot of a setup of at most eight slots stands in for a person as far as
its slot alone decides, for designators whose meaning is fixed by the slot.
-/

import SquareDance.Designator
import SquareDance.Formation

namespace SquareDance

/-- Whoever is judged: a person, or an empty slot seen through its own roles. -/
structure Subject where
  dancer? : Option Dancer
  roles : RoleSet
  deriving DecidableEq

namespace Subject

/-- The error for a subject that the roles in question do not describe. -/
def undecided (s : Subject) : DesignatorError :=
  if s.dancer?.isSome then .illegalDesignator else .cannotDetermine

/-- True with only the first role, false with only the second. -/
def pair? (s : Subject) (yes no : Role) : Option Bool :=
  match s.roles.contains yes, s.roles.contains no with
  | true, false => some true
  | false, true => some false
  | _, _ => none

/-- The answer that an exclusive pair of roles gives. -/
def decide (s : Subject) (yes no : Role) : Except DesignatorError Bool :=
  match s.pair? yes no with
  | some b => .ok b
  | none => .error s.undecided

/-- The first of several pairs of roles that gives an answer. -/
def decideFirst (s : Subject) (pairs : List (Role × Role)) : Except DesignatorError Bool :=
  match pairs.findSome? fun (yes, no) => s.pair? yes no with
  | some b => .ok b
  | none => .error s.undecided

/-- Who it is. -/
def identity (s : Subject) : Except DesignatorError Identity :=
  match s.dancer?.bind (·.identity) with
  | some i => .ok i
  | none => .error .cannotDetermine

/-- The wall that the subject faces. -/
def wall (s : Subject) : Except DesignatorError Wall :=
  if s.roles.contains .faceFront then .ok .front
  else if s.roles.contains .faceBack then .ok .back
  else if s.roles.contains .faceLeft then .ok .left
  else if s.roles.contains .faceRight then .ok .right
  else .error s.undecided

end Subject

namespace Formation

/-- The largest setup whose empty slots can be judged. -/
def phantomLimit : Nat := 8

/-- The subject on a slot, for a designator. -/
def subject (f : Formation) (d : Designator) (slot : Nat) : Except DesignatorError Subject :=
  match f.dancer? slot with
  | some p => .ok ⟨some p, p.roles⟩
  | none =>
    if slot < f.size ∧ f.size ≤ phantomLimit ∧ d.isPositional then
      .ok ⟨none, (f.setup.positionalRoles slot).inter .positional⟩
    else
      .error .cannotDetermine

end Formation
end SquareDance
