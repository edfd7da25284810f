/-
# Tags stay as they are

A table of tags has two parts, and they agree: the map gives a name just the number at which the
tag with this name stands (`TagTable.Agrees`).  A tag that is added is put into both parts, at a
number that no name has, and what is changed later of a tag is not its name; so they agree after
each operation (`Agrees.findOrAdd`, `Agrees.modify`).

A table only grows.  A tag keeps its number, and a call that was defined stays defined; the table
never grows beyond its greatest size.  Main statements: what a reference and a definition do to the
table, `reference_eq_ok` and `define_eq_ok`.  Both begin with a tag that is found or added
(`findOrAdd_of_reference`, `findOrAdd_of_define`).
-/

import Mathlib.Data.List.Induction
import SquareDance.CallText.Tags

namespace SquareDance
namespace TagTable

variable {π : Type} {t t' : TagTable π} {name : String} {i : Nat}

/-! ### Tags that are added -/

/-- A tag that is added is found under the next number, and the others are found as before. -/
theorem index?_add (t : TagTable π) (name n : String) :
    (t.add name).index? n = if n = name then some t.size else t.index? n := by
  rw [index?, add, List.lookup_cons]
  by_cases h : n = name
  · rw [if_pos h, beq_iff_eq.2 h]
  · rw [if_neg h, beq_eq_false_iff_ne.2 h]
    rfl

/-- The next number names the tag that is added, and the others name what they did. -/
theorem name?_add (t : TagTable π) (name : String) (i : Nat) :
    (t.add name).name? i = if i = t.size then some name else t.name? i := by
  rw [name?, add, Array.getElem?_push, size]
  by_cases h : i = t.entries.size <;> simp [h, name?]

/-- A tag that is added is one more. -/
@[simp] theorem size_add (t : TagTable π) (name : String) : (t.add name).size = t.size + 1 :=
  Array.size_push _

/-- A call that is defined stays so when a tag is added. -/
theorem isDefined_add (h : t.isDefined i = true) : (t.add name).isDefined i = true := by
  obtain ⟨e, he, hdefined⟩ := (Option.any_eq_true _ _).1 h
  have hlt : i < t.entries.size := (Array.getElem?_eq_some_iff.1 he).1
  rw [isDefined, add, Array.getElem?_push, if_neg (Nat.ne_of_lt hlt)]
  exact h

/-- **What it is to find or add a tag**: the map has its number and nothing changes, or it has
none, there is room, and the tag is added under the next number. -/
theorem findOrAdd_eq_ok (h : t.findOrAdd name = .ok (i, t')) :
    (t.index? name = some i ∧ t' = t) ∨
      (t.index? name = none ∧ t.size < maxSize ∧ i = t.size ∧ t' = t.add name) := by
  unfold findOrAdd at h
  cases hfound : t.index? name with
  | some j =>
    rw [hfound] at h
    cases h
    exact .inl ⟨rfl, rfl⟩
  | none =>
    rw [hfound] at h
    by_cases hroom : t.size < maxSize
    · simp only [hroom, if_true] at h
      cases h
      exact .inr ⟨rfl, hroom, rfl, rfl⟩
    · simp only [hroom, if_false] at h
      cases h

/-- A tag that was found or added is in the map under the number that was given. -/
theorem index?_of_findOrAdd (h : t.findOrAdd name = .ok (i, t')) : t'.index? name = some i := by
  obtain ⟨hfound, rfl⟩ | ⟨-, -, rfl, rfl⟩ := findOrAdd_eq_ok h
  · exact hfound
  · rw [index?_add, if_pos rfl]

/-! ### What is known of a tag -/

/-- What is known of a tag may change, and there are as many. -/
@[simp] theorem size_modify (t : TagTable π) (i : Nat) (f : TagEntry π → TagEntry π) :
    (t.modify i f).size = t.size := Array.size_modify

/-- The map does not change with what is known of a tag. -/
@[simp] theorem index?_modify (t : TagTable π) (i : Nat) (f : TagEntry π → TagEntry π)
    (name : String) : (t.modify i f).index? name = t.index? name := rfl

/-- What is known of a tag may change, and its name does not. -/
theorem name?_modify (t : TagTable π) (i j : Nat) {f : TagEntry π → TagEntry π}
    (hf : ∀ e, (f e).name = e.name) : (t.modify i f).name? j = t.name? j := by
  rw [name?, name?, modify, Array.getElem?_modify]
  by_cases h : i = j <;> simp [h, hf, Function.comp_def]

/-- What is known of a tag changes only at its number. -/
theorem isDefined_modify (t : TagTable π) (i j : Nat) (f : TagEntry π → TagEntry π) :
    (t.modify i f).isDefined j
      = (t.entries[j]?.map (if i = j then f else id)).any (·.isDefined) := by
  rw [isDefined, modify, Array.getElem?_modify]
  by_cases h : i = j <;> simp [h]

/-! ### The two parts agree -/

/-- The two parts of a table agree: a name has a number in the map just if the tag with this number
has the name. -/
def Agrees (t : TagTable π) : Prop := ∀ name i, t.index? name = some i ↔ t.name? i = some name

/-- A tag that has a name has a number of the table. -/
theorem lt_size_of_name? (h : t.name? i = some name) : i < t.size := by
  obtain ⟨e, he, -⟩ := Option.map_eq_some_iff.1 h
  exact (Array.getElem?_eq_some_iff.1 he).1

namespace Agrees

/-- **A number of the map is below the size of the table.** -/
theorem lt_size (h : t.Agrees) (hi : t.index? name = some i) : i < t.size :=
  lt_size_of_name? ((h name i).1 hi)

/-- A tag that the map does not have may be added to both parts. -/
theorem add (h : t.Agrees) (hnew : t.index? name = none) : (t.add name).Agrees := by
  intro n i
  rw [index?_add, name?_add]
  by_cases hn : n = name <;> by_cases hi : i = t.size
  · rw [if_pos hn, if_pos hi, hn, hi]
    exact iff_of_true rfl rfl
  · -- The tag would be among the others, and the map have it.
    rw [if_pos hn, if_neg hi, ← h, hn, hnew, Option.some.injEq]
    exact iff_of_false (Ne.symm hi) nofun
  · rw [if_neg hn, if_pos hi, Option.some.injEq]
    exact iff_of_false (fun hc => Nat.ne_of_lt (h.lt_size hc) hi) (Ne.symm hn)
  · rw [if_neg hn, if_neg hi]
    exact h n i

/-- **The parts agree after a tag was found or added.** -/
theorem findOrAdd (h : t.Agrees) (hfound : t.findOrAdd name = .ok (i, t')) : t'.Agrees := by
  obtain ⟨-, rfl⟩ | ⟨hnew, -, -, rfl⟩ := findOrAdd_eq_ok hfound
  · exact h
  · exact h.add hnew

/-- The agreement is one of the map and of the names alone. -/
theorem congr (h : t.Agrees) (hnumbers : t'.byName = t.byName)
    (hnames : ∀ i, t'.name? i = t.name? i) : t'.Agrees := by
  intro n i
  rw [index?, hnumbers, hnames]
  exact h n i

/-- **The parts agree after a change** of what is known of a tag other than its name. -/
theorem modify (h : t.Agrees) (i : Nat) {f : TagEntry π → TagEntry π}
    (hf : ∀ e, (f e).name = e.name) : (t.modify i f).Agrees :=
  h.congr rfl fun j => name?_modify t i j hf

end Agrees

/-! ### Tables of names -/

/-- The table of some names, with what is known of each. -/
def ofNames (known : String → TagEntry π) (names : List String) : TagTable π where
  entries := (names.map known).toArray
  byName := numbersOf names

section OfNames

variable {known : String → TagEntry π} {names : List String}

/-- The last name is put in front of the map, with the number that comes next. -/
theorem numbersOf_append_singleton (names : List String) (name : String) :
    numbersOf (names ++ [name]) = (name, names.length) :: numbersOf names := by
  rw [numbersOf, List.zipIdx_append, List.foldl_append, Nat.zero_add]
  rfl

/-- There are as many tags as names. -/
@[simp] theorem size_ofNames : (ofNames known names).size = names.length := by
  simp [size, ofNames]

/-- The number of a name is its place in the list. -/
theorem name?_ofNames (hknown : ∀ n, (known n).name = n) (i : Nat) :
    (ofNames known names).name? i = names[i]? := by
  rw [name?, ofNames, List.getElem?_toArray, List.getElem?_map, Option.map_map]
  cases h : names[i]? <;> simp [hknown]

/-- A tag is defined if it is known to be. -/
theorem isDefined_ofNames (i : Nat) :
    (ofNames known names).isDefined i = names[i]?.any fun n => (known n).isDefined := by
  rw [isDefined, ofNames, List.getElem?_toArray, List.getElem?_map, Option.any_map]

/-- **The parts agree in a table of names**, each of which is put into both. -/
theorem agrees_ofNames (hknown : ∀ n, (known n).name = n) (h : names.Nodup) :
    (ofNames known names).Agrees := by
  induction names using List.reverseRecOn with
  | nil => exact fun _ _ => iff_of_false nofun nofun
  | append_singleton names name ih =>
    obtain ⟨hnames, -, hother⟩ := List.nodup_append.1 h
    have hnew : (ofNames known names).index? name = none := by
      refine Option.eq_none_iff_forall_ne_some.2 fun i hi => ?_
      have hname := (name?_ofNames hknown i).symm.trans ((ih hnames name i).1 hi)
      exact hother name (List.mem_of_getElem? hname) name (List.mem_singleton.2 rfl) rfl
    have hnumbers : (ofNames known (names ++ [name])).byName
        = ((ofNames known names).add name).byName := by
      rw [ofNames, numbersOf_append_singleton, add, size_ofNames, ofNames]
    refine ((ih hnames).add hnew).congr hnumbers fun i => ?_
    rw [name?_add, name?_ofNames hknown, name?_ofNames hknown, size_ofNames]
    by_cases hi : i = names.length
    · rw [if_pos hi, hi, List.getElem?_concat_length]
    · rw [if_neg hi]
      grind

end OfNames

/-- The parts of the table of the base tags agree. -/
theorem agrees_base : (base : TagTable π).Agrees := by
  have hnodup : Words.baseTags.Nodup := by decide +kernel
  refine (agrees_ofNames (fun _ => rfl) hnodup).congr (t := ofNames (fun name => { name }) _) rfl
    fun i => ?_
  rw [name?_ofNames fun _ => rfl, name?, ← Array.getElem?_toList, ← List.getElem?_map]
  rfl

/-! ### Tables that grow -/

/-- A table whose parts agree, and which is not too big. -/
structure IsWellKept (t : TagTable π) : Prop where
  agrees : t.Agrees
  size_le : t.size ≤ maxSize

/-- The table of the base tags is well kept. -/
theorem isWellKept_base : (base : TagTable π).IsWellKept where
  agrees := agrees_base
  size_le := by
    rw [size_base]
    decide

/-- A table that another has grown into. -/
structure Grows (t t' : TagTable π) : Prop where
  size_le : t.size ≤ t'.size
  isDefined : ∀ i, t.isDefined i = true → t'.isDefined i = true
  isWellKept : t.IsWellKept → t'.IsWellKept

namespace Grows

/-- A table has grown into itself. -/
theorem refl (t : TagTable π) : Grows t t := ⟨Nat.le_refl _, fun _ h => h, fun h => h⟩

/-- A table may grow again. -/
theorem trans {t'' : TagTable π} (h : Grows t t') (h' : Grows t' t'') : Grows t t'' :=
  ⟨Nat.le_trans h.size_le h'.size_le, fun i hi => h'.isDefined i (h.isDefined i hi),
    fun hi => h'.isWellKept (h.isWellKept hi)⟩

end Grows

/-- What keeps a tag defined and named keeps all of them so. -/
theorem grows_modify (t : TagTable π) (i : Nat) {f : TagEntry π → TagEntry π}
    (hname : ∀ e, (f e).name = e.name) (hf : ∀ e, e.isDefined = true → (f e).isDefined = true) :
    Grows t (t.modify i f) := by
  refine ⟨Nat.le_of_eq (t.size_modify i f).symm, fun j hj => ?_, fun h => ?_⟩
  · rw [isDefined_modify, Option.any_map]
    obtain ⟨e, he, hdef⟩ := (Option.any_eq_true _ _).1 hj
    refine (Option.any_eq_true _ _).2 ⟨e, he, ?_⟩
    by_cases h : i = j
    · simpa [h] using hf e hdef
    · simpa [h] using hdef
  · exact ⟨h.agrees.modify i hname, (t.size_modify i f).symm ▸ h.size_le⟩

/-- A table grows when a tag is found or added. -/
theorem grows_findOrAdd (h : t.findOrAdd name = .ok (i, t')) : Grows t t' := by
  have hagrees : t.Agrees → t'.Agrees := fun hagrees => hagrees.findOrAdd h
  obtain ⟨-, rfl⟩ | ⟨-, hroom, -, rfl⟩ := findOrAdd_eq_ok h
  · exact .refl _
  · refine ⟨?_, fun _ => isDefined_add, fun hkept => ⟨hagrees hkept.agrees, ?_⟩⟩ <;>
      rw [size_add] <;> omega

/-! ### References and definitions -/

/-- **What it is to refer to a tag**: it is found or added, and this is its first use if it had
none. -/
theorem findOrAdd_of_reference {use : TagUse π} (h : t.reference name use = .ok (i, t')) :
    ∃ found, t.findOrAdd name = .ok (i, found) ∧
      t' = found.modify i fun e => { e with firstUse := e.firstUse <|> some use } := by
  unfold reference at h
  cases hfound : t.findOrAdd name with
  | error e =>
    rw [hfound] at h
    cases h
  | ok p =>
    obtain ⟨j, found⟩ := p
    rw [hfound] at h
    cases h
    exact ⟨found, rfl, rfl⟩

/-- **What it is to define a tag**: it is found or added without a definition, and has one then. -/
theorem findOrAdd_of_define (h : t.define name = .ok (i, t')) :
    ∃ found, t.findOrAdd name = .ok (i, found) ∧ found.isDefined i = false ∧
      t' = found.modify i fun e => { e with isDefined := true } := by
  unfold define at h
  cases hfound : t.findOrAdd name with
  | error e =>
    rw [hfound] at h
    cases h
  | ok p =>
    obtain ⟨j, found⟩ := p
    rw [hfound] at h
    have h : (if found.isDefined j then throw (.duplicate name) else
      pure (j, found.modify j fun e => { e with isDefined := true }) : Except TagError _)
        = .ok (i, t') := h
    by_cases hdefined : found.isDefined j = true
    · rw [if_pos hdefined] at h
      cases h
    · rw [if_neg hdefined] at h
      cases h
      exact ⟨found, rfl, Bool.eq_false_iff.2 hdefined, rfl⟩

/-- **A reference gives the number of its tag in the table, which has grown.** -/
theorem reference_eq_ok {use : TagUse π} (h : t.reference name use = .ok (i, t')) :
    t'.index? name = some i ∧ Grows t t' := by
  obtain ⟨found, hfound, rfl⟩ := findOrAdd_of_reference h
  exact ⟨(index?_modify found _ _ _).trans (index?_of_findOrAdd hfound),
    (grows_findOrAdd hfound).trans (grows_modify found _ (fun _ => rfl) fun _ h => h)⟩

/-- **A definition gives the number of a tag that was not defined, and now is.** -/
theorem define_eq_ok (h : t.define name = .ok (i, t')) :
    t'.index? name = some i ∧ Grows t t' ∧ t.isDefined i = false ∧
      (t.Agrees → t'.isDefined i = true) := by
  obtain ⟨found, hfound, hdefined, rfl⟩ := findOrAdd_of_define h
  have hgrows := grows_findOrAdd hfound
  have hindex := index?_of_findOrAdd hfound
  refine ⟨hindex, hgrows.trans (grows_modify found _ (fun _ => rfl) fun _ _ => rfl), ?_, ?_⟩
  · exact Bool.eq_false_iff.2 fun hbefore =>
      Bool.false_ne_true (hdefined.symm.trans (hgrows.isDefined i hbefore))
  · intro hagrees
    have hlt : i < found.entries.size := (hagrees.findOrAdd hfound).lt_size hindex
    rw [isDefined_modify, Array.getElem?_eq_getElem hlt]
    simp

end TagTable
end SquareDance
