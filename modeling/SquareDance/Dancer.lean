/-
# Dancers

Eight people dance in a square: four couples, a boy and a girl in each.  The
identity of a dancer is permanent; roles are recomputed from the geometry.
Couples 1 and 3 are the heads, 2 and 4 the sides.  The personal number counts
the eight dancers in couple order, boy before girl.
-/

import SquareDance.Direction
import SquareDance.Role

namespace SquareDance

/-- The two genders of the dance. -/
inductive Gender where
  | boy
  | girl
  deriving DecidableEq, Inhabited

namespace Gender

/-- The other gender. -/
def opposite : Gender → Gender
  | boy => girl
  | girl => boy

/-- The word for a dancer of this gender. -/
def noun : Gender → String
  | boy => "boy"
  | girl => "girl"

end Gender

/-- One of the eight dancers of a square.  Couples are counted from zero. -/
structure Identity where
  couple : Fin 4
  gender : Gender
  deriving DecidableEq, Inhabited

namespace Identity

/-- The number of the couple, from 1 to 4. -/
def coupleNumber (p : Identity) : Nat := p.couple.val + 1

/-- The dancer is a boy. -/
def isBoy (p : Identity) : Bool := p.gender == .boy

/-- The dancer is a girl. -/
def isGirl (p : Identity) : Bool := p.gender == .girl

/-- Couples 1 and 3. -/
def isHead (p : Identity) : Bool := p.coupleNumber % 2 == 1

/-- Couples 2 and 4. -/
def isSide (p : Identity) : Bool := !p.isHead

/-- Head boys and side girls. -/
def isHeadCorner (p : Identity) : Bool := p.isHead == p.isBoy

/-- Side boys and head girls. -/
def isSideCorner (p : Identity) : Bool := !p.isHeadCorner

/-- The personal number: boys even, girls odd, couple by couple. -/
def number (p : Identity) : Nat := p.couple.val * 2 + (if p.isGirl then 1 else 0)

/-- There are eight dancers. -/
theorem number_lt (p : Identity) : p.number < 8 := by
  unfold number; split <;> omega

/-- The dancer with a given personal number. -/
def ofNumber? (n : Nat) : Option Identity :=
  if h : n / 2 < 4 then some ⟨⟨n / 2, h⟩, if n % 2 = 0 then .boy else .girl⟩ else none

/-- **A dancer is determined by the personal number.** -/
@[simp] theorem ofNumber?_number (p : Identity) : ofNumber? p.number = some p := by
  obtain ⟨⟨c, hc⟩, g⟩ := p
  cases g <;> simp [number, ofNumber?, isGirl] <;> omega

/-- The dancer of a couple numbered from 1. -/
def ofCouple? (couple : Nat) (g : Gender) : Option Identity :=
  if h : 1 ≤ couple ∧ couple ≤ 4 then some ⟨⟨couple - 1, by omega⟩, g⟩ else none

end Identity

/-- The turning momentum that a dancer carries out of a call. -/
inductive Roll where
  | right
  | left
  | neutral
  deriving DecidableEq, Inhabited

/-- The sideways momentum that a dancer carries out of a call. -/
inductive Slide where
  | right
  | left
  deriving DecidableEq, Inhabited

/-- A person on a slot. -/
structure Dancer where
  /-- Who it is; a phantom has no identity. -/
  identity : Option Identity := none
  /-- A stand-in for several people dancing as one. -/
  virtual : Bool := false
  /-- A phantom that dances. -/
  activePhantom : Bool := false
  direction : Direction
  roll : Option Roll := none
  moved : Bool := false
  slide : Option Slide := none
  roles : RoleSet := .empty
  deriving DecidableEq, Inhabited

namespace Dancer

/-- A dancing phantom with a given facing. -/
def phantom (d : Direction) : Dancer := { direction := d, activePhantom := true }

/-- A real person, neither a stand-in nor a phantom. -/
def isReal (p : Dancer) : Bool := !p.virtual && !p.activePhantom

/-- The gender of a dancer who is known. -/
def gender? (p : Dancer) : Option Gender := p.identity.map (·.gender)

/-- How another dancer, if there is one, faces in relation to this one. -/
def relation (p : Dancer) (other : Option Dancer) : Option Direction.Relation :=
  other.bind fun q => p.direction.relation q.direction

end Dancer
end SquareDance
