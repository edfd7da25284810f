/-
# Tables of tags with other places

What a place is does not matter to a table of tags: it keeps places and does not look at them.  So
the places of a table may be told otherwise at any time, before a tag is looked up, defined or
referred to or after that, and the numbers are the same: `findOrAdd_mapPlace`, `define_mapPlace`,
`reference_mapPlace`.  The table that words make goes over into the table that the words make with
their places told otherwise (`mapPlace_ofWords`).
-/

import SquareDance.Proofs.CallText.TagRecord

namespace SquareDance

variable {π ρ : Type}

/-- The use with its place told otherwise. -/
def TagUse.mapPlace (f : π → ρ) (u : TagUse π) : TagUse ρ := ⟨f u.place, u.call⟩

/-- What is known of a tag, with its place told otherwise. -/
def TagEntry.mapPlace (f : π → ρ) (e : TagEntry π) : TagEntry ρ :=
  { name := e.name, isDefined := e.isDefined, firstUse := e.firstUse.map (·.mapPlace f) }

namespace TagTable

/-- The table with its places told otherwise: the map has no places. -/
def mapPlace (f : π → ρ) (t : TagTable π) : TagTable ρ :=
  ⟨t.entries.map (·.mapPlace f), t.byName⟩

variable (f : π → ρ) (t : TagTable π)

/-- The size does not depend on places. -/
@[simp] theorem size_mapPlace : (t.mapPlace f).size = t.size := Array.size_map

/-- The map of the numbers does not depend on places. -/
@[simp] theorem index?_mapPlace (name : String) : (t.mapPlace f).index? name = t.index? name :=
  rfl

/-- What is defined does not depend on places. -/
@[simp] theorem isDefined_mapPlace (i : Nat) : (t.mapPlace f).isDefined i = t.isDefined i := by
  rw [isDefined, mapPlace, Array.getElem?_map, Option.any_map]
  rfl

/-- A tag that is added has no place yet. -/
theorem add_mapPlace (name : String) : (t.mapPlace f).add name = (t.add name).mapPlace f := by
  rw [add, size_mapPlace, mapPlace, mapPlace, add, Array.map_push]
  rfl

/-- The base tags have no places. -/
theorem mapPlace_base : (base : TagTable π).mapPlace f = base := by
  rw [mapPlace, base, base, List.map_toArray, List.map_map]
  rfl

/-- What is known of a tag may be changed before its places are told otherwise, or after that. -/
theorem modify_mapPlace {g : TagEntry π → TagEntry π} {g' : TagEntry ρ → TagEntry ρ}
    (hg : ∀ e, (g e).mapPlace f = g' (e.mapPlace f)) (i : Nat) :
    (t.mapPlace f).modify i g' = (t.modify i g).mapPlace f := by
  rw [modify, modify, mapPlace, mapPlace, TagTable.mk.injEq, ← Array.toList_inj]
  refine ⟨List.ext_getElem? fun j => ?_, rfl⟩
  simp only [Array.toList_modify, Array.toList_map, List.getElem?_modify, List.getElem?_map]
  cases t.entries.toList[j]? with
  | none => rfl
  | some e => by_cases h : i = j <;> simp [h, hg]

/-- **A tag is found or added whatever its places are.** -/
theorem findOrAdd_mapPlace (name : String) : (t.mapPlace f).findOrAdd name
    = (t.findOrAdd name).map fun p => (p.1, p.2.mapPlace f) := by
  rw [findOrAdd, findOrAdd, index?_mapPlace, size_mapPlace]
  cases t.index? name with
  | some i => rfl
  | none =>
    by_cases hsize : t.size < maxSize
    · simp only [if_pos hsize, Except.map, add_mapPlace]
    · simp only [if_neg hsize, Except.map]

/-- **A tag is defined whatever its places are.** -/
theorem define_mapPlace (name : String) : (t.mapPlace f).define name
    = (t.define name).map fun p => (p.1, p.2.mapPlace f) := by
  rw [define, define, findOrAdd_mapPlace]
  cases t.findOrAdd name with
  | error e => rfl
  | ok p =>
    obtain ⟨i, t₁⟩ := p
    simp only [Except.map, bind, Except.bind, isDefined_mapPlace]
    split
    · rfl
    · rw [modify_mapPlace f t₁ (g := fun e => { e with isDefined := true }) fun _ => rfl]
      rfl

/-- **A tag is referred to whatever its places are.** -/
theorem reference_mapPlace (name : String) (use : TagUse π) :
    (t.mapPlace f).reference name (use.mapPlace f)
      = (t.reference name use).map fun p => (p.1, p.2.mapPlace f) := by
  rw [reference, reference, findOrAdd_mapPlace]
  cases t.findOrAdd name with
  | error e => rfl
  | ok p =>
    obtain ⟨i, t₁⟩ := p
    simp only [Except.map, bind, Except.bind]
    rw [modify_mapPlace f t₁ (g := fun e => { e with firstUse := e.firstUse <|> some use })]
    · rfl
    · intro e
      cases h : e.firstUse <;> simp [TagEntry.mapPlace, h]

/-! ### Words -/

open CallText

/-- What words say of a tag goes over with their places. -/
theorem mapPlace_entryOf (ws : List (TagWord π)) (n : String) :
    (entryOf ws n).mapPlace f = entryOf (ws.map (·.mapPlace f)) n := by
  simp only [entryOf, TagEntry.mapPlace, defines_mapPlace, List.find?_map, Option.map_map]
  rfl

/-- **The table that words make**, with its places told otherwise. -/
theorem mapPlace_ofWords (ws : List (TagWord π)) :
    (ofWords ws).mapPlace f = ofWords (ws.map (·.mapPlace f)) := by
  have hknown : TagEntry.mapPlace f ∘ entryOf ws = entryOf (ws.map (·.mapPlace f)) :=
    funext (mapPlace_entryOf f ws)
  rw [mapPlace, ofWords, ofWords, ofNames, ofNames, tagNames_mapPlace, List.map_toArray,
    List.map_map, ← hknown]

end TagTable
end SquareDance
