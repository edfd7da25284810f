/-
# Roles

A role is what a person is because of the place they hold: a beau or a belle, a
center or an end, facing a wall of the hall.  `Role` lists the roles in their
fixed order and `RoleSet` is a word with one bit for each, role `i` at bit `i`.
Bits above the last role may be set in a word from elsewhere; they are kept and
counted, but no role answers to them.
-/

namespace SquareDance

/-- A role, computed from the geometry of the setup. -/
inductive Role where
  | center2
  | belle
  | beau
  | center6
  | outer2
  | outer6
  | trailer
  | lead
  | ctrDmd
  | notCtrDmd
  | ctr1x4
  | notCtr1x4
  | ctr1x6
  | notCtr1x6
  | outer1x3
  | notOuter1x3
  | facing
  | notFacing
  | center
  | atEnd
  | center4
  | outerPairs
  | faceFront
  | faceBack
  | faceLeft
  | faceRight
  deriving DecidableEq, Inhabited

namespace Role

/-- Every role, in order. -/
def all : List Role :=
  [center2, belle, beau, center6, outer2, outer6, trailer, lead, ctrDmd, notCtrDmd,
   ctr1x4, notCtr1x4, ctr1x6, notCtr1x6, outer1x3, notOuter1x3, facing, notFacing,
   center, atEnd, center4, outerPairs, faceFront, faceBack, faceLeft, faceRight]

/-- The position of a role in `Role.all`. -/
def index : Role → Nat
  | center2 => 0
  | belle => 1
  | beau => 2
  | center6 => 3
  | outer2 => 4
  | outer6 => 5
  | trailer => 6
  | lead => 7
  | ctrDmd => 8
  | notCtrDmd => 9
  | ctr1x4 => 10
  | notCtr1x4 => 11
  | ctr1x6 => 12
  | notCtr1x6 => 13
  | outer1x3 => 14
  | notOuter1x3 => 15
  | facing => 16
  | notFacing => 17
  | center => 18
  | atEnd => 19
  | center4 => 20
  | outerPairs => 21
  | faceFront => 22
  | faceBack => 23
  | faceLeft => 24
  | faceRight => 25

/-- A role stands at its position. -/
theorem all_index (r : Role) : all[r.index]? = some r := by
  cases r <;> rfl

/-- The written name of a role. -/
def name : Role → String
  | center2 => "center2"
  | belle => "belle"
  | beau => "beau"
  | center6 => "center6"
  | outer2 => "outer2"
  | outer6 => "outer6"
  | trailer => "trailer"
  | lead => "lead"
  | ctrDmd => "ctr_dmd"
  | notCtrDmd => "not_ctr_dmd"
  | ctr1x4 => "ctr1x4"
  | notCtr1x4 => "not_ctr1x4"
  | ctr1x6 => "ctr1x6"
  | notCtr1x6 => "not_ctr1x6"
  | outer1x3 => "outer1x3"
  | notOuter1x3 => "not_outer1x3"
  | facing => "facing"
  | notFacing => "not_facing"
  | center => "center"
  | atEnd => "end"
  | center4 => "center4"
  | outerPairs => "outer_pairs"
  | faceFront => "face_front"
  | faceBack => "face_back"
  | faceLeft => "face_left"
  | faceRight => "face_right"

/-- The role with a given written name. -/
def ofName? (s : String) : Option Role :=
  all.find? (·.name == s)

/-- **A role is found by its name.** -/
@[simp] theorem ofName?_name (r : Role) : ofName? r.name = some r := by
  cases r <;> rfl

end Role

/-- A set of roles: one bit for each. -/
structure RoleSet where
  bits : UInt32
  deriving DecidableEq, Inhabited

namespace RoleSet

/-- No role. -/
def empty : RoleSet := ⟨0⟩

/-- The word with the bit of one role set. -/
def bit (r : Role) : UInt32 := 1 <<< UInt32.ofNat r.index

/-- Whether a role belongs to the set. -/
def contains (s : RoleSet) (r : Role) : Bool := s.bits &&& bit r != 0

/-- Add a role. -/
def insert (s : RoleSet) (r : Role) : RoleSet := ⟨s.bits ||| bit r⟩

/-- Take a role away. -/
def erase (s : RoleSet) (r : Role) : RoleSet := ⟨s.bits &&& ~~~bit r⟩

/-- The roles of either set. -/
def union (s t : RoleSet) : RoleSet := ⟨s.bits ||| t.bits⟩

/-- The roles of both sets. -/
def inter (s t : RoleSet) : RoleSet := ⟨s.bits &&& t.bits⟩

/-- The set of the listed roles. -/
def ofList (rs : List Role) : RoleSet := rs.foldl insert empty

/-- The roles of the set, in the order of `Role.all`. -/
def toList (s : RoleSet) : List Role := Role.all.filter s.contains

/-- How many bits are set, those beyond the last role included. -/
def size (s : RoleSet) : Nat :=
  (List.range 32).countP (s.bits.toNat.testBit ·)

/-- No bit is set. -/
def isEmpty (s : RoleSet) : Bool := s.bits == 0

/-- The set as text: the names of its roles between bars. -/
def render (s : RoleSet) : String :=
  "|" ++ " ".intercalate (s.toList.map Role.name) ++ "|"

/-- Nobody has a role before roles are given. -/
@[simp] theorem contains_empty (r : Role) : empty.contains r = false := by
  cases r <;> rfl

/-- The roles that depend on the slot alone, whoever stands on it. -/
def positional : RoleSet :=
  ofList [.center, .atEnd, .center2, .center6, .outer2, .outer6, .ctrDmd, .notCtrDmd,
    .ctr1x4, .notCtr1x4, .ctr1x6, .notCtr1x6, .outer1x3, .notOuter1x3, .center4, .outerPairs]

end RoleSet
end SquareDance
