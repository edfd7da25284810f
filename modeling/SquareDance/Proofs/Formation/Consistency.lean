/-
# The roles of two people agree

Everybody's roles are derived alone, from the pairs of the setup and the own facing; only the role
of facing looks at somebody else.  Yet they fit together: `Formation.updateRoles_isConsistent`.

Partners are each other's partners, one of them first (`Formation.filePartner_comm`,
`Formation.sidePartner_comm`).  Of two partners who face alike, one has the other at the right hand
or behind and one at the left hand or in front; of two who face opposite ways, both have the same:
`Direction.Relation.mirror`.
-/

import SquareDance.Proofs.Formation.DerivedRoles

namespace SquareDance

/-! ### What partners say of each other -/

namespace Direction

/-- What the partner has of two things that exclude each other: the other thing if the two face
alike, and the same if they face opposite ways. -/
def Relation.mirror : Relation → Bool → Bool
  | same, b => !b
  | opposite, b => b

variable {d e : Direction} {rel : Relation}

/-- Two who face alike or opposite ways face along one axis. -/
theorem isNorthSouth_of_relation (h : d.relation e = some rel) :
    e.isNorthSouth = d.isNorthSouth := by
  revert h
  cases d <;> cases e <;> cases rel <;> decide

end Direction

namespace Formation

variable {f : Formation} {slot other : Nat} {d e : Direction} {rel : Direction.Relation}
  {first : Bool}

/-- Partners have each other on the same hand just if they face opposite ways. -/
theorem partnerOnRight_of_relation (h : d.relation e = some rel) (first : Bool) :
    partnerOnRight e (!first) = rel.mirror (partnerOnRight d first) := by
  revert h
  cases d <;> cases e <;> cases rel <;> cases first <;> decide

/-- Partners have each other behind, or both in front, just if they face opposite ways. -/
theorem partnerBehind_of_relation (h : d.relation e = some rel) (first : Bool) :
    partnerBehind e (!first) = rel.mirror (partnerBehind d first) := by
  revert h
  cases d <;> cases e <;> cases rel <;> cases first <;> decide

/-- Whoever of two people sees the other, the other sees them. -/
theorem facing_of_relation (h : d.relation e = some rel) (first : Bool) :
    (!partnerBehind e (!first) && d == e.opposite)
      = (!partnerBehind d first && e == d.opposite) := by
  revert h
  cases d <;> cases e <;> cases rel <;> cases first <;> decide

/-- Partners at the side are each other's, one of them first. -/
theorem sidePartner_comm {s : Setup} (hrel : d.relation e = some rel)
    (h : sidePartner s slot d = some (other, first)) :
    sidePartner s other e = some (slot, !first) := by
  obtain ⟨hlateral, htandem⟩ := s.nodup_namedIn
  rw [sidePartner, Direction.isNorthSouth_of_relation hrel]
  unfold sidePartner at h
  split_ifs at h ⊢
  · exact Setup.partnerIn_comm hlateral h
  · exact Setup.partnerIn_comm htandem h

/-- Partners in front and behind are each other's, one of them first. -/
theorem filePartner_comm {s : Setup} (hrel : d.relation e = some rel)
    (h : filePartner s slot d = some (other, first)) :
    filePartner s other e = some (slot, !first) := by
  obtain ⟨hlateral, htandem⟩ := s.nodup_namedIn
  rw [filePartner, Direction.isNorthSouth_of_relation hrel]
  unfold filePartner at h
  split_ifs at h ⊢
  · exact Setup.partnerIn_comm htandem h
  · exact Setup.partnerIn_comm hlateral h

end Formation

/-! ### Roles that exclude each other -/

/-- Of two roles the set has just one: the first one or the second one. -/
def RoleSet.Tells (roles : RoleSet) (yes no : Role) (answer : Bool) : Prop :=
  roles.contains yes = answer ∧ roles.contains no = !answer

/-- Of two roles that are told apart nobody has both. -/
theorem RoleSet.Tells.not_both {roles : RoleSet} {yes no : Role} {answer : Bool}
    (h : roles.Tells yes no answer) : ¬(roles.contains yes = true ∧ roles.contains no = true) := by
  rw [h.1, h.2]
  cases answer <;> decide

/-- Roles that exclude each other. -/
def Role.opposites : List (Role × Role) :=
  [(.beau, .belle), (.lead, .trailer), (.facing, .notFacing), (.center, .atEnd)]

/-- The roles of facing a wall. -/
def Role.walls : List Role := [.faceFront, .faceBack, .faceLeft, .faceRight]

namespace Formation

variable {f : Formation} {slot other : Nat} {p q : Dancer} {rel : Direction.Relation} {first : Bool}

/-- A set tells of two roles what the list from their source tells. -/
theorem tells_of_source (hp : f.updateRoles.dancer? slot = some p) (source : Role.Source)
    {yes no : Role} {answer : Bool} (hyes : yes.source = source) (hno : no.source = source)
    (h : (f.rolesFrom slot p.direction source).contains yes = answer ∧
      (f.rolesFrom slot p.direction source).contains no = !answer) :
    p.roles.Tells yes no answer := by
  rwa [RoleSet.Tells, contains_rolesOf hp, contains_rolesOf hp, hyes, hno]

/-- Nobody has a role whose source gives none. -/
theorem not_contains_of_nil (hp : f.updateRoles.dancer? slot = some p) {source : Role.Source}
    {r : Role} (h : f.rolesFrom slot p.direction source = []) (hr : r.source = source) :
    ¬p.roles.contains r = true := by
  rw [contains_rolesOf hp, hr, h, List.contains_nil]
  exact Bool.false_ne_true

/-- Who has no partner at the side is neither beau nor belle. -/
theorem rolesFrom_side_of_none {d : Direction} (h : sidePartner f.setup slot d = none) :
    f.rolesFrom slot d .side = [] := by
  change handRoles f.setup slot d = []
  rw [handRoles, h]

/-- Who has a partner on the right is a beau, on the left a belle. -/
theorem rolesFrom_side_of_some {d : Direction}
    (h : sidePartner f.setup slot d = some (other, first)) :
    f.rolesFrom slot d .side = [if partnerOnRight d first then .beau else .belle] := by
  change handRoles f.setup slot d = _
  rw [handRoles, h]

/-- Who has no partner in front or behind neither leads nor trails. -/
theorem rolesFrom_file_of_none {d : Direction} (h : filePartner f.setup slot d = none) :
    f.rolesFrom slot d .file = [] := by
  change f.fileRoles slot d = []
  rw [fileRoles, h]

/-- Who has a partner behind leads, and who faces one in front is facing. -/
theorem rolesFrom_file_of_some {d : Direction}
    (h : filePartner f.setup slot d = some (other, first)) :
    f.rolesFrom slot d .file
      = [if partnerBehind d first then .lead else .trailer,
        if !partnerBehind d first && f.facesBack other d then .facing else .notFacing] := by
  change f.fileRoles slot d = _
  rw [fileRoles, h]

/-- Somebody with a slot at the side is a beau or a belle. -/
theorem tells_beau (hp : f.updateRoles.dancer? slot = some p)
    (h : sidePartner f.setup slot p.direction = some (other, first)) :
    p.roles.Tells .beau .belle (partnerOnRight p.direction first) := by
  refine tells_of_source hp .side rfl rfl ?_
  rw [rolesFrom_side_of_some h]
  generalize partnerOnRight p.direction first = right
  cases right <;> decide

/-- Somebody with a slot in front or behind is a lead or a trailer, and faces the person there or
does not. -/
theorem tells_lead (hp : f.updateRoles.dancer? slot = some p)
    (h : filePartner f.setup slot p.direction = some (other, first)) :
    p.roles.Tells .lead .trailer (partnerBehind p.direction first) ∧
      p.roles.Tells .facing .notFacing
        (!partnerBehind p.direction first && f.facesBack other p.direction) := by
  have hfile := rolesFrom_file_of_some h
  generalize partnerBehind p.direction first = behind at hfile ⊢
  generalize f.facesBack other p.direction = back at hfile ⊢
  refine ⟨tells_of_source hp .file rfl rfl ?_, tells_of_source hp .file rfl rfl ?_⟩
  all_goals
    rw [hfile]
    cases behind <;> cases back <;> decide

/-- Nobody is a beau and a belle. -/
theorem exclusive_side (hp : f.updateRoles.dancer? slot = some p) :
    ¬(p.roles.contains .beau = true ∧ p.roles.contains .belle = true) := by
  cases h : sidePartner f.setup slot p.direction with
  | none =>
    exact fun hboth => not_contains_of_nil hp (rolesFrom_side_of_none h) rfl hboth.1
  | some pair => exact (tells_beau hp h).not_both

/-- Nobody is a lead and a trailer, or facing and not facing. -/
theorem exclusive_file (hp : f.updateRoles.dancer? slot = some p) :
    ¬(p.roles.contains .lead = true ∧ p.roles.contains .trailer = true) ∧
      ¬(p.roles.contains .facing = true ∧ p.roles.contains .notFacing = true) := by
  cases h : filePartner f.setup slot p.direction with
  | none =>
    have hnil := rolesFrom_file_of_none h
    exact ⟨fun hboth => not_contains_of_nil hp hnil rfl hboth.1,
      fun hboth => not_contains_of_nil hp hnil rfl hboth.1⟩
  | some pair => exact ⟨(tells_lead hp h).1.not_both, (tells_lead hp h).2.not_both⟩

/-- No slot is a center and an end. -/
theorem exclusive_slot (hp : f.updateRoles.dancer? slot = some p) :
    ¬(p.roles.contains .center = true ∧ p.roles.contains .atEnd = true) := by
  simp only [contains_rolesOf hp, Role.source, rolesFrom, List.contains_iff_mem]
  exact f.setup.not_center_and_atEnd slot

/-- Somebody faces one wall of the hall, if it is known how the formation stands. -/
theorem countP_walls (hp : f.updateRoles.dancer? slot = some p) :
    Role.walls.countP p.roles.contains = if f.rotationImprecise then 0 else 1 := by
  have hroles : p.roles.contains = fun r => (f.rolesFrom slot p.direction r.source).contains r :=
    funext (contains_rolesOf hp)
  have hwall : f.rolesFrom slot p.direction .wall = f.wallRoles p.direction := rfl
  simp only [Role.walls, hroles, List.countP_cons, List.countP_nil, Role.source, hwall, wallRoles]
  cases f.rotationImprecise with
  | true => rfl
  | false => cases p.direction.rotate f.rotation <;> rfl

/-! ### Two people -/

/-- Somebody on a slot faces back if they face the opposite way. -/
theorem facesBack_eq (hq : f.updateRoles.dancer? slot = some q) (d : Direction) :
    f.facesBack slot d = (q.direction == d.opposite) := by
  rw [dancer?_updateRoles, Option.map_eq_some_iff] at hq
  obtain ⟨q', hq', rfl⟩ := hq
  rw [facesBack, hq', Option.any_some]

/-- The roles of the people in a formation fit together. -/
structure IsConsistent (f : Formation) : Prop where
  /-- Nobody has two roles that exclude each other. -/
  exclusive : ∀ slot p, f.dancer? slot = some p → ∀ pair ∈ Role.opposites,
    ¬(p.roles.contains pair.1 = true ∧ p.roles.contains pair.2 = true)
  /-- Everybody faces one wall of the hall, or no wall if the rotation is imprecise. -/
  walls : ∀ slot p, f.dancer? slot = some p →
    Role.walls.countP p.roles.contains = if f.rotationImprecise then 0 else 1
  /-- Two people who face along one axis and are partners along it are both facing or both not;
  one leads and one trails if they face alike, and both do the same if they face opposite ways. -/
  file : ∀ slot p other q first rel, f.dancer? slot = some p → f.dancer? other = some q →
    p.direction.relation q.direction = some rel →
    filePartner f.setup slot p.direction = some (other, first) →
      p.roles.contains .facing = q.roles.contains .facing ∧
        ∃ lead, p.roles.Tells .lead .trailer lead ∧ q.roles.Tells .lead .trailer (rel.mirror lead)
  /-- Two people who face along one axis and are partners across it are beau and belle if they face
  alike, and both the same if they face opposite ways. -/
  side : ∀ slot p other q first rel, f.dancer? slot = some p → f.dancer? other = some q →
    p.direction.relation q.direction = some rel →
    sidePartner f.setup slot p.direction = some (other, first) →
      ∃ beau, p.roles.Tells .beau .belle beau ∧ q.roles.Tells .beau .belle (rel.mirror beau)

/-- **Derived roles fit together**, in every formation. -/
theorem updateRoles_isConsistent (f : Formation) : f.updateRoles.IsConsistent where
  exclusive slot p hp pair hpair := by
    obtain ⟨hlead, hfacing⟩ := exclusive_file hp
    simp only [Role.opposites, List.mem_cons, List.not_mem_nil, or_false] at hpair
    obtain rfl | rfl | rfl | rfl := hpair
    exacts [exclusive_side hp, hlead, hfacing, exclusive_slot hp]
  walls _ _ hp := countP_walls (f := f) hp
  file slot p other q first rel hp hq hrel hpartner := by
    obtain ⟨hlead, hfacing, -⟩ := tells_lead hp hpartner
    obtain ⟨hlead', hfacing', -⟩ := tells_lead hq (filePartner_comm hrel hpartner)
    rw [partnerBehind_of_relation hrel] at hlead'
    refine ⟨?_, _, hlead, hlead'⟩
    rw [hfacing, hfacing', facesBack_eq hq, facesBack_eq hp]
    exact (facing_of_relation hrel first).symm
  side slot p other q first rel hp hq hrel hpartner := by
    have hbeau := tells_beau hq (sidePartner_comm hrel hpartner)
    rw [partnerOnRight_of_relation hrel] at hbeau
    exact ⟨_, tells_beau hp hpartner, hbeau⟩

/-- Two couples of a 2x2 who face each other. -/
def facingCouples : Formation where
  setup := .box
  slots := #v[some { direction := .south }, some { direction := .south },
    some { direction := .north }, some { direction := .north }]

/-- They all trail and are facing, and beaus and belles take turns. -/
example : ∀ slot < 4, (facingCouples.updateRoles.dancer? slot).any (fun p =>
    p.roles.contains .facing && p.roles.contains .trailer &&
      p.roles.contains .beau == (slot % 2 == 1)) = true := by
  decide +kernel

end Formation
end SquareDance
