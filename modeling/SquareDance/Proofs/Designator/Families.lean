/-
# Families of designators that share the people out

Boys and girls, near line and far line, the four couples: a family of designators shares the people
out, in that just one of them picks whoever is on a slot, or all of them refuse with one error.

Two designators that exclude each other give opposite answers (`Formation.picks_of_excludes`).  A
larger family asks one question of the subject, and each of its members is one of the answers
(`Formation.sharesOut_of_question`).  Main statement: `Formation.sharesOut_of_isFamily`.
-/

import Mathlib.Data.List.Nodup
import SquareDance.Proofs.Designator.Subjects
import SquareDance.Proofs.Formation.DerivedRoles

namespace SquareDance

/-! ### Answers -/

section Answers

variable {α β : Type} {ε : Type}

/-- The answers to two questions, or the error of the first that has none. -/
def bothAnswers (x : Except ε α) (y : Except ε β) : Except ε (α × β) := do
  return (← x, ← y)

/-- What is made of two answers is made of them together. -/
theorem bind_eq_map_bothAnswers (x : Except ε α) (y : Except ε β) (g : α → β → Bool) :
    (do let a ← x; let b ← y; return g a b) = (bothAnswers x y).map fun ab => g ab.1 ab.2 := by
  cases x <;> cases y <;> rfl

end Answers

/-- Whoever is not a boy is a girl. -/
theorem Identity.isGirl_eq (i : Identity) : i.isGirl = !i.isBoy := by
  cases i with
  | mk c g => cases g <;> rfl

namespace Subject

/-- Roles asked for the other way round. -/
theorem decide_comm (s : Subject) (yes no : Role) :
    s.decide no yes = (s.decide yes no).map (!·) := by
  unfold decide pair?
  cases s.roles.contains yes <;> cases s.roles.contains no <;> rfl

/-- Who has neither of two roles is undecided. -/
theorem decide_of_neither {s : Subject} {yes no : Role} (hyes : s.roles.contains yes = false)
    (hno : s.roles.contains no = false) : s.decide yes no = .error s.undecided := by
  rw [decide, pair?, hyes, hno]

end Subject

/-! ### The families -/

namespace Designator

/-- Designators that exclude each other. -/
inductive Excludes : Designator → Designator → Prop
  | gender : Excludes boys girls
  | heads : Excludes heads sides
  | corners : Excludes headCorners sideCorners
  | centers : Excludes centers ends
  | leads : Excludes leads trailers
  | beaus : Excludes beaus belles
  | mysticBeaus : Excludes mysticBeaus mysticBelles
  | center6 : Excludes center6 outer2
  | ctrDmd : Excludes ctrDmd notCtrDmd
  | headliners : Excludes headliners sideliners
  /-- Two couples and the next two. -/
  | couples (first : Fin 4) : Excludes (couples first) (couples (first + 2))
  | nearHalf (part : HalfPart) : Excludes (half part .near) (half part .far)
  | leftHalf (part : HalfPart) : Excludes (half part .left) (half part .right)

/-- Designators that share the people out among them. -/
inductive IsFamily : List Designator → Prop
  | pair {d e : Designator} (h : d.Excludes e) : IsFamily [d, e]
  | headBoys : IsFamily [headBoys, headGirls, sideBoys, sideGirls]
  | leadCenters : IsFamily [leadCenters, leadEnds, trailCenters, trailEnds]
  | leadBeaus : IsFamily [leadBeaus, leadBelles, trailBeaus, trailBelles]
  | centerBoys : IsFamily [centerBoys, centerGirls, endBoys, endGirls]
  | walls : IsFamily [facing .front, facing .back, facing .left, facing .right]
  | couples : IsFamily [couple 0, couple 1, couple 2, couple 3]
  | dancers : IsFamily [boy 0, girl 0, boy 1, girl 1, boy 2, girl 2, boy 3, girl 3]

/-- One of four designators, by two yes-or-no answers. -/
def ofAnswers (yesYes yesNo noYes noNo : Designator) (first second : Bool) : Designator :=
  if first then if second then yesYes else yesNo else if second then noYes else noNo

/-- The designator of one dancer. -/
def ofIdentity : Identity → Designator
  | ⟨c, .boy⟩ => boy c
  | ⟨c, .girl⟩ => girl c

/-- Those that exclude each other treat an empty slot alike, but for the center diamond. -/
theorem subjects_of_excludes {d e : Designator} (h : d.Excludes e) :
    d.needsSubject = true ∧ e.needsSubject = true ∧
      (d.isPositional = e.isPositional ∨ d = ctrDmd ∧ e = notCtrDmd) := by
  cases h with
  | ctrDmd => exact ⟨rfl, rfl, .inr ⟨rfl, rfl⟩⟩
  | _ => exact ⟨rfl, rfl, .inl rfl⟩

/-- No designator excludes itself. -/
theorem ne_of_excludes {d e : Designator} (h : d.Excludes e) : d ≠ e := by
  cases h with
  | couples first =>
    revert first
    decide
  | _ => nofun

end Designator

namespace Formation

variable {f : Formation} {mode : Grouping} {slot : Nat} {d e : Designator}
  {family : List Designator}

/-- Just one designator of the family picks whoever is on the slot, or all refuse with one error. -/
def SharesOut (f : Formation) (mode : Grouping) (slot : Nat) (family : List Designator) : Prop :=
  (∃ error, ∀ d ∈ family, f.picks d mode slot = .error error) ∨
    ∃ chosen ∈ family, ∀ d ∈ family, f.picks d mode slot = .ok (decide (d = chosen))

/-! ### Designators that exclude each other -/

/-- A half and the other one. -/
theorem isInHalf_opposite (f : Formation) (part : HalfPart) {side other : HallSide}
    (h : other.direction = side.direction.opposite) (slot : Nat) :
    f.isInHalf part other slot = (f.isInHalf part side slot).map (!·) := by
  unfold isInHalf
  rw [h]
  dsimp only
  generalize (sideOfPart part slot).rotate f.rotation = mine
  generalize side.direction = d
  -- The two halves lie across one axis of the hall, so that both are refused alike.
  have hacross : (mine ≠ d.opposite ∧ mine ≠ d.opposite.opposite) ↔
      mine ≠ d ∧ mine ≠ d.opposite := by
    rw [Direction.opposite_opposite, and_comm]
  have hanswer : ¬(mine ≠ d ∧ mine ≠ d.opposite) →
      decide (mine = d.opposite) = !decide (mine = d) := by
    cases mine <;> cases d <;> decide
  simp only [hacross]
  split_ifs with hgrid himprecise hline hbox
  · rfl
  · rfl
  · rfl
  · exact congrArg Except.ok (hanswer hline)
  · cases f.rowsAreLines? with
    | none => rfl
    | some lines =>
      dsimp only
      split_ifs
      · exact congrArg Except.ok (hanswer hline)
      · rfl

/-- Designators that exclude each other judge in opposite ways, or refuse with one error. -/
theorem judges_of_excludes (f : Formation) (mode : Grouping) (slot : Nat) (h : d.Excludes e)
    (s : Subject) : f.judges e mode slot s = (f.judges d mode slot s).map (!·) := by
  cases h with
  | gender => exact map_not Identity.isGirl_eq _
  | heads => exact map_not (fun i => rfl) _
  | corners => exact map_not (fun i => rfl) _
  | mysticBeaus => rfl
  | headliners => exact map_not (fun w => by cases w <;> rfl) _
  | couples first =>
    have hcouples : ∀ first c : Fin 4, (c == first + 2 || c == nextCouple (first + 2))
        = !(c == first || c == nextCouple first) := by
      decide
    exact map_not (fun i : Identity => hcouples first i.couple) _
  | nearHalf part => exact isInHalf_opposite f part rfl slot
  | leftHalf part => exact isInHalf_opposite f part rfl slot
  | centers | leads | beaus | center6 | ctrDmd => exact s.decide_comm _ _

/-- The center diamond has no slots of its own, so an empty slot is not told to be in it or out. -/
theorem picks_ctrDmd_of_vacant (hvacant : f.dancer? slot = none) :
    f.picks .ctrDmd mode slot = .error .cannotDetermine := by
  have hneither : (f.setup.rolesOfSlot slot).contains .ctrDmd = false ∧
      (f.setup.rolesOfSlot slot).contains .notCtrDmd = false := by
    refine Setup.rolesOfSlot_of_forall
      (P := fun rs => rs.contains .ctrDmd = false ∧ rs.contains .notCtrDmd = false)
      (by decide) ?_ slot
    cases f.setup <;> decide
  rw [picks_eq_bind rfl, subject, hvacant]
  dsimp only
  split_ifs
  · refine Subject.decide_of_neither ?_ ?_
    · rw [RoleSet.contains_inter, Setup.contains_positionalRoles, hneither.1, Bool.false_and]
    · rw [RoleSet.contains_inter, Setup.contains_positionalRoles, hneither.2, Bool.false_and]
  · rfl

/-- **The one picks whom the other does not**, or both refuse alike. -/
theorem picks_of_excludes (h : d.Excludes e) :
    f.picks e mode slot = (f.picks d mode slot).map (!·) := by
  obtain ⟨hd, he, hsame | ⟨rfl, rfl⟩⟩ := Designator.subjects_of_excludes h
  · rw [picks_eq_bind hd, picks_eq_bind he, subject_congr hsame,
      funext (judges_of_excludes f mode slot h)]
    cases f.subject e slot <;> rfl
  · -- Only one of the two is asked of an empty slot, which it does not describe.
    cases hp : f.dancer? slot with
    | none =>
      rw [picks_ctrDmd_of_vacant hp, picks_eq_bind he, subject_of_not_positional hp rfl]
      rfl
    | some p =>
      rw [picks_eq_bind hd, picks_eq_bind he, subject_of_live hp, subject_of_live hp]
      exact judges_of_excludes f mode slot h _

/-- Designators that exclude each other share the people out. -/
theorem sharesOut_of_excludes (h : d.Excludes e) :
    f.SharesOut mode slot [d, e] := by
  have hne : d ≠ e := Designator.ne_of_excludes h
  have hboth : ∀ {P : Designator → Prop}, P d → P e → ∀ x ∈ [d, e], P x := fun hd he =>
    List.forall_mem_cons.2 ⟨hd, List.forall_mem_singleton.2 he⟩
  have he : f.picks e mode slot = (f.picks d mode slot).map (!·) := picks_of_excludes h
  cases hd : f.picks d mode slot with
  | error error =>
    rw [hd] at he
    exact .inl ⟨error, hboth hd he⟩
  | ok picked =>
    rw [hd] at he
    cases picked with
    | false =>
      refine .inr ⟨e, .tail _ (.head _), hboth ?_ ?_⟩
      · rw [hd, decide_eq_false hne]
      · rw [he, decide_eq_true rfl]
        rfl
    | true =>
      refine .inr ⟨d, .head _, hboth ?_ ?_⟩
      · rw [hd, decide_eq_true rfl]
      · rw [he, decide_eq_false hne.symm]
        rfl

/-! ### Families that answer a question -/

/-- **A family whose members are the answers to one question shares the people out.** -/
theorem sharesOut_of_question {α : Type} [DecidableEq α] (answers : List α)
    (named : α → Designator) (question : Subject → Except DesignatorError α)
    (hanswers : ∀ a, a ∈ answers) (hnodup : (answers.map named).Nodup)
    (hperson : ∀ d ∈ answers.map named, d.needsSubject = true ∧ d.isPositional = false)
    (hjudges : ∀ a s, f.judges (named a) mode slot s = (question s).map fun b => decide (b = a)) :
    f.SharesOut mode slot (answers.map named) := by
  -- Each member judges the same subject, so it has the answer to the question or fails with it.
  have hpicks : ∀ a, f.picks (named a) mode slot
      = ((f.subject .boys slot).bind question).map fun b => decide (b = a) := by
    intro a
    have ⟨hsubject, hpositional⟩ := hperson _ (List.mem_map_of_mem (hanswers a))
    rw [picks_eq_bind hsubject, subject_congr (e := .boys) hpositional, funext (hjudges a)]
    cases f.subject .boys slot <;> rfl
  unfold SharesOut
  simp only [List.forall_mem_map, hpicks]
  cases (f.subject .boys slot).bind question with
  | error e => exact .inl ⟨e, fun a _ => rfl⟩
  | ok b =>
    refine .inr ⟨named b, List.mem_map_of_mem (hanswers b), fun a ha => ?_⟩
    have hiff : named a = named b ↔ b = a :=
      ⟨fun h => (List.inj_on_of_nodup_map hnodup ha (hanswers b) h).symm, fun h => h ▸ rfl⟩
    simp only [hiff]
    rfl

/-- A family with a designator for each pair of answers to two yes-or-no questions shares the people
out. -/
theorem sharesOut_of_two_questions {α : Type} {yesYes yesNo noYes noNo : Designator}
    (question : Subject → Except DesignatorError α) (p q : α → Bool)
    (hnodup : [yesYes, yesNo, noYes, noNo].Nodup)
    (hperson : ∀ d ∈ [yesYes, yesNo, noYes, noNo], d.needsSubject = true ∧ d.isPositional = false)
    (hjudges : ∀ x y s, f.judges (.ofAnswers yesYes yesNo noYes noNo x y) mode slot s
      = (question s).map fun a => p a == x && q a == y) :
    f.SharesOut mode slot [yesYes, yesNo, noYes, noNo] := by
  refine sharesOut_of_question [(true, true), (true, false), (false, true), (false, false)]
    (fun answers => .ofAnswers yesYes yesNo noYes noNo answers.1 answers.2)
    (fun s => (question s).map fun a => (p a, q a)) ?_ hnodup hperson fun answers s => ?_
  · rintro ⟨x, y⟩
    cases x <;> cases y <;> decide
  · rw [hjudges]
    cases question s with
    | error e => rfl
    | ok a => exact congrArg Except.ok (Bool.eq_iff_iff.2 (by simp [Prod.ext_iff]))

/-- Heads or sides, boys or girls: who somebody is decides both. -/
theorem sharesOut_headBoys :
    f.SharesOut mode slot [.headBoys, .headGirls, .sideBoys, .sideGirls] := by
  refine sharesOut_of_two_questions Subject.identity (·.isHead) (·.isBoy) (by decide) (by decide)
    fun head boy s => ?_
  cases head <;> cases boy <;>
    exact congrArg (Except.map · s.identity)
      (funext fun i => by simp [Identity.isSide, Identity.isGirl_eq])

/-- Leads and trailers, centers and ends: two roles decide. -/
theorem sharesOut_leadCenters :
    f.SharesOut mode slot [.leadCenters, .leadEnds, .trailCenters, .trailEnds] := by
  refine sharesOut_of_two_questions
    (fun s => bothAnswers (s.decide .lead .trailer) (s.decide .center .atEnd)) (·.1) (·.2)
    (by decide) (by decide) fun lead center s => ?_
  cases lead <;> cases center <;>
    exact (bind_eq_map_bothAnswers _ _ _).trans
      (congrArg (Except.map · _) (funext fun a => by simp))

/-- Leads and trailers, beaus and belles: two roles decide. -/
theorem sharesOut_leadBeaus :
    f.SharesOut mode slot [.leadBeaus, .leadBelles, .trailBeaus, .trailBelles] := by
  refine sharesOut_of_two_questions
    (fun s => bothAnswers (s.decide .lead .trailer) (s.decide .beau .belle)) (·.1) (·.2)
    (by decide) (by decide) fun lead beau s => ?_
  cases lead <;> cases beau <;>
    exact (bind_eq_map_bothAnswers _ _ _).trans
      (congrArg (Except.map · _) (funext fun a => by simp))

/-- Centers or ends by their roles, boys or girls by who they are. -/
theorem sharesOut_centerBoys :
    f.SharesOut mode slot [.centerBoys, .centerGirls, .endBoys, .endGirls] := by
  refine sharesOut_of_two_questions
    (fun s => bothAnswers (s.decide .center .atEnd) s.identity) (·.1) (·.2.isBoy)
    (by decide) (by decide) fun center boy s => ?_
  cases center <;> cases boy <;>
    exact (bind_eq_map_bothAnswers _ _ _).trans
      (congrArg (Except.map · _) (funext fun a => by simp [Identity.isGirl_eq]))

/-- Everybody faces one wall, by their roles. -/
theorem sharesOut_walls :
    f.SharesOut mode slot [.facing .front, .facing .back, .facing .left, .facing .right] :=
  sharesOut_of_question [.front, .back, .left, .right] .facing f.wallFaced
    (fun w => by cases w <;> decide) (by decide) (by decide) fun _ _ => rfl

/-- Everybody known is of one couple. -/
theorem sharesOut_couples : f.SharesOut mode slot [.couple 0, .couple 1, .couple 2, .couple 3] := by
  refine sharesOut_of_question [0, 1, 2, 3] .couple (fun s => (realIdentity s).map (·.couple))
    (by decide) (by decide) (by decide) fun c s => ?_
  cases h : realIdentity s with
  | error e => rw [judges, h]; rfl
  | ok i => rw [judges, h]; rfl

/-- Everybody known is one dancer. -/
theorem sharesOut_dancers :
    f.SharesOut mode slot
      [.boy 0, .girl 0, .boy 1, .girl 1, .boy 2, .girl 2, .boy 3, .girl 3] := by
  refine sharesOut_of_question
    [⟨0, .boy⟩, ⟨0, .girl⟩, ⟨1, .boy⟩, ⟨1, .girl⟩, ⟨2, .boy⟩, ⟨2, .girl⟩, ⟨3, .boy⟩, ⟨3, .girl⟩]
    Designator.ofIdentity realIdentity ?_ (by decide) (by decide) ?_
  · rintro ⟨c, g⟩
    revert c
    cases g <;> decide
  · rintro ⟨c, g⟩ s
    cases g <;>
      exact congrArg (Except.map · (realIdentity s)) (funext fun i => by
        cases i with
        | mk c' g' => cases g' <;> simp [Identity.isBoy, Identity.isGirl, beq_eq_decide])

/-- **Families of designators share the people out**, whatever roles people have, on any place of any
formation. -/
theorem sharesOut_of_isFamily (f : Formation) (mode : Grouping) (slot : Nat)
    (h : Designator.IsFamily family) : f.SharesOut mode slot family := by
  cases h with
  | pair h => exact sharesOut_of_excludes h
  | headBoys => exact sharesOut_headBoys
  | leadCenters => exact sharesOut_leadCenters
  | leadBeaus => exact sharesOut_leadBeaus
  | centerBoys => exact sharesOut_centerBoys
  | walls => exact sharesOut_walls
  | couples => exact sharesOut_couples
  | dancers => exact sharesOut_dancers

/-- A 2x2 with an empty slot, a dancer without roles and one with roles that exclude each other. -/
def patchyBox : Formation where
  setup := .box
  slots := #v[none, some { direction := .north, identity := Identity.ofNumber? 0 },
    some { direction := .east, roles := .ofList [.lead, .beau, .belle] },
    some { direction := .south, roles := .ofList [.trailer, .center] }]

/-- Roles that exclude each other are shared out like any others, by the first that is there. -/
theorem sharesOut_of_isFamily_patchyBox :
    Designator.IsFamily [.leadCenters, .leadEnds, .trailCenters, .trailEnds] ∧
      patchyBox.SharesOut .disallowed 3 [.leadCenters, .leadEnds, .trailCenters, .trailEnds] :=
  ⟨.leadCenters, sharesOut_of_isFamily patchyBox .disallowed 3 .leadCenters⟩

/-- The dancer on the last slot is a trail center; the one before leads, but is no center or end. -/
example : patchyBox.picks .trailCenters .disallowed 3 = .ok true ∧
    patchyBox.picks .leads .disallowed 2 = .ok true ∧
    patchyBox.picks .leadCenters .disallowed 2 = .error .illegalDesignator := by
  decide +kernel

end Formation
end SquareDance
