/-
# Who is judged

A designator other than everyone and nobody asks for the subject on a slot and judges it:
`Formation.picks_eq`.  The subject is the person there with the roles they have.  On an empty slot
it is the slot itself, in a small setup and for a designator that goes by the slot alone;
otherwise nothing can be said.
-/

import SquareDance.Designator.Picks

namespace SquareDance

/-- Opposite answers, or the same error. -/
theorem map_not {α ε : Type} {g h : α → Bool} (hgh : ∀ a, h a = !g a) (x : Except ε α) :
    x.map h = (x.map g).map (!·) := by
  cases x with
  | error e => rfl
  | ok a => exact congrArg Except.ok (hgh a)

namespace Designator

/-- It asks for a subject and judges it. -/
def needsSubject (d : Designator) : Bool := !d.isEveryone && d != .nobody

/-- A positional designator judges a subject. -/
theorem needsSubject_of_isPositional {d : Designator} (hd : d.isPositional = true) :
    d.needsSubject = true := by
  cases d <;> first | rfl | cases hd

end Designator

namespace Formation

variable {f : Formation} {mode : Grouping} {slot : Nat} {d e : Designator} {s : Subject}

/-- A designator that needs somebody asks for a subject. -/
theorem picks_eq (f : Formation) (d : Designator) (mode : Grouping) (slot : Nat) :
    f.picks d mode slot = if d.isEveryone = true then .ok true else if d = .nobody then .ok false
      else (f.subject d slot).bind (f.judges d mode slot) := by
  cases d <;> rfl

/-- A designator that needs a subject looks for it first. -/
theorem picks_eq_bind (hd : d.needsSubject = true) :
    f.picks d mode slot = (f.subject d slot).bind (f.judges d mode slot) := by
  rw [picks_eq]
  cases d <;> first | rfl | cases hd

/-- Designators that treat empty slots alike judge the same subject. -/
theorem subject_congr (h : d.isPositional = e.isPositional) :
    f.subject d slot = f.subject e slot := by
  rw [subject, subject, h]

/-- Whoever stands on the slot is the subject, with their own roles. -/
theorem subject_of_live {p : Dancer} (hp : f.dancer? slot = some p) (d : Designator) :
    f.subject d slot = .ok ⟨some p, p.roles⟩ := by
  rw [subject, hp]

/-- An empty slot of a small setup has its own roles, for a positional designator. -/
theorem subject_of_vacant (hvacant : f.dancer? slot = none) (hslot : slot < f.size)
    (hsize : f.size ≤ phantomLimit) (hd : d.isPositional = true) :
    f.subject d slot = .ok ⟨none, (f.setup.positionalRoles slot).inter .positional⟩ := by
  rw [subject, hvacant]
  exact if_pos ⟨hslot, hsize, hd⟩

/-- For other designators an empty slot is a doubtful case. -/
theorem subject_of_not_positional (hvacant : f.dancer? slot = none)
    (hd : d.isPositional = false) : f.subject d slot = .error .cannotDetermine := by
  rw [subject, hvacant]
  exact if_neg fun h => Bool.false_ne_true (hd.symm.trans h.2.2)

/-- **The subject is a person** unless the designator is fixed by the slot. -/
theorem isLive_of_subject (hsubject : f.subject d slot = .ok s) (hd : d.isPositional = false) :
    f.isLive slot = true := by
  unfold isLive
  cases hp : f.dancer? slot with
  | none =>
    rw [subject_of_not_positional hp hd] at hsubject
    cases hsubject
  | some p => rfl

end Formation
end SquareDance
