/-
# How many people "some" picks

"Some" groups the people of a formation all at once or not at all.  The group does not depend on
the slot that is asked about, so that either every slot gets an answer or none does; and each of
the tables holds sets of one size only: four slots for pairs, and for triples six slots, or three
in a setup of six.  Which people face which way, and which slots are empty, decides about the
group and not about its size.  Main statement: `Formation.isInSomeGroup_allOrNothing`.
-/

import Mathlib.Data.List.Count
import SquareDance.Designator.Some

namespace SquareDance

/-- How many people are in a group, in a setup of some size that has groups. -/
def Grouping.groupSize : Grouping → Nat → Nat
  | disallowed, _ => 0
  | pairs, _ => 4
  | triples, size => if size = 6 then 3 else 6

namespace Formation

variable {f : Formation} {mode : Grouping} {size people n : Nat} {g : Option Nat}

/-! ### Sets of slots of one size -/

/-- If there is a set of slots, it has so many of the slots of a setup. -/
def Numbers (size people : Nat) (g : Option Nat) : Prop :=
  ∀ slots, g = some slots → (List.range size).countP slots.testBit = people

namespace Numbers

/-- Where there is no set nothing is counted. -/
theorem none : Numbers size people .none := nofun

/-- A set is chosen on a condition, and another one otherwise. -/
theorem ite {P : Prop} [Decidable P] (hn : (List.range size).countP n.testBit = people)
    (h : Numbers size people g) : Numbers size people (if P then some n else g) := by
  intro slots hslots
  split at hslots
  · cases hslots
    exact hn
  · exact h slots hslots

end Numbers

/-! ### The tables -/

/-- **Groups of six people.** -/
theorem numbers_sixGroup? (f : Formation) (mode : Grouping) :
    Numbers 6 (mode.groupSize 6) (f.sixGroup? mode) := by
  cases mode with
  | disallowed => exact .none
  | pairs => exact .ite (by decide) (.ite (by decide) (.ite (by decide) .none))
  | triples => exact .ite (by decide) (.ite (by decide) .none)

/-- **Groups of eight people.** -/
theorem numbers_eightGroup? (f : Formation) (mode : Grouping) :
    Numbers 8 (mode.groupSize 8) (f.eightGroup? mode) := by
  unfold eightGroup?
  cases mode with
  | disallowed => exact .none
  | pairs =>
    cases f.setup with
    | line8 | grid2x4 => exact .ite (by decide) (.ite (by decide) (.ite (by decide) .none))
    | twinDiamonds | bone | rigger | quarterTag => exact .ite (by decide) .none
    | _ => exact .none
  | triples =>
    cases f.setup with
    | line8 | grid2x4 =>
      exact .ite (by decide) (.ite (by decide) (.ite (by decide) (.ite (by decide) .none)))
    | quarterTag => exact .ite (by decide) .none
    | _ => exact .none

/-- **Groups of twelve people.** -/
theorem numbers_twelveGroup? (f : Formation) (mode : Grouping) :
    Numbers 12 (mode.groupSize 12) (f.twelveGroup? mode) := by
  unfold twelveGroup?
  by_cases h : mode ≠ .triples ∨ f.setup ≠ .grid3x4
  · simp only [if_pos h]
    exact .none
  · obtain rfl : mode = .triples := Decidable.not_not.1 (not_or.1 h).1
    simp only [if_neg h]
    exact .ite (by decide) (.ite (by decide) .none)

/-- **Groups of all setups**: only those of six, eight and twelve slots have any. -/
theorem numbers_someGroup? (f : Formation) (mode : Grouping) :
    Numbers f.size (mode.groupSize f.size) (f.someGroup? mode) := by
  unfold someGroup?
  split
  next hsize =>
    rw [hsize]
    exact numbers_sixGroup? f mode
  next hsize =>
    rw [hsize]
    exact numbers_eightGroup? f mode
  next hsize =>
    rw [hsize]
    exact numbers_twelveGroup? f mode
  next => exact .none

/-- Only setups of six, eight and twelve slots have groups. -/
theorem size_of_someGroup? {slots : Nat} (h : f.someGroup? mode = some slots) :
    f.size = 6 ∨ f.size = 8 ∨ f.size = 12 := by
  unfold someGroup? at h
  split at h
  next hsize => exact .inl hsize
  next hsize => exact .inr (.inl hsize)
  next hsize => exact .inr (.inr hsize)
  next => cases h

/-! ### The designator -/

/-- How many slots "some" picks. -/
def groupCount (f : Formation) (mode : Grouping) : Nat :=
  (List.range f.size).countP fun slot => f.isInSomeGroup mode slot = .ok true

/-- **"Some" groups all people or none.**  If it may group people at all, either no slot gets an
answer or all of them do; then it picks four people in pairs, and in triples six people of a setup
of eight or twelve slots and three of a setup of six. -/
theorem isInSomeGroup_allOrNothing (f : Formation) (hmode : mode ≠ .disallowed) :
    (∀ slot < f.size, f.isInSomeGroup mode slot = .error .cannotDetermine) ∨
      (∀ slot < f.size, ∃ answer, f.isInSomeGroup mode slot = .ok answer) ∧
        (mode = .pairs → f.groupCount mode = 4) ∧
        (mode = .triples → f.size = 6 ∧ f.groupCount mode = 3 ∨
          (f.size = 8 ∨ f.size = 12) ∧ f.groupCount mode = 6) := by
  cases hgroup : f.someGroup? mode with
  | none =>
    refine .inl fun slot _ => ?_
    rw [isInSomeGroup_eq, if_neg hmode, hgroup]
    rfl
  | some slots =>
    have hpicks : ∀ slot, f.isInSomeGroup mode slot = .ok (slots.testBit slot) := by
      intro slot
      rw [isInSomeGroup_eq, if_neg hmode, hgroup]
      rfl
    have hcount : f.groupCount mode = mode.groupSize f.size := by
      rw [← numbers_someGroup? f mode slots hgroup, groupCount]
      exact List.countP_congr fun slot _ => by simp [hpicks]
    refine .inr ⟨fun slot _ => ⟨_, hpicks slot⟩, ?_, ?_⟩
    · rintro rfl
      exact hcount
    · rintro rfl
      obtain hsize | hsize | hsize := size_of_someGroup? hgroup <;> rw [hsize] at hcount
      · exact .inl ⟨hsize, hcount⟩
      · exact .inr ⟨.inl hsize, hcount⟩
      · exact .inr ⟨.inr hsize, hcount⟩

/-- A 3x4 with nobody in the middle of the outer rows.  In each outer column a corner and its
neighbour face alike, and the corner across the row from them faces the other way. -/
def gappedGrid : Formation where
  setup := .grid3x4
  slots := #v[some { direction := .north }, none, none, some { direction := .south },
    some { direction := .south }, some { direction := .east }, some { direction := .west }, none,
    none, some { direction := .east }, some { direction := .east }, some { direction := .north }]

/-- Six of twelve people are grouped where others are missing. -/
theorem isInSomeGroup_allOrNothing_gappedGrid : Grouping.triples ≠ .disallowed ∧
    gappedGrid.isInSomeGroup .triples 0 = .ok true ∧ gappedGrid.groupCount .triples = 6 := by
  have hmode : Grouping.triples ≠ .disallowed := by decide
  have hyes : gappedGrid.isInSomeGroup .triples 0 = .ok true := by decide +kernel
  refine ⟨hmode, hyes, ?_⟩
  obtain hnone | ⟨-, -, htriples⟩ := isInSomeGroup_allOrNothing gappedGrid hmode
  · exact absurd (hyes.symm.trans (hnone 0 (by decide))) nofun
  · obtain ⟨hsize, -⟩ | ⟨-, hcount⟩ := htriples rfl
    · exact absurd hsize (by decide)
    · exact hcount

end Formation
end SquareDance
