/-
# The table that words make

A table of tags is what the words that were read make of it: `TagTable.ofWords`.  The tags are
the base tags and the names of the words, each once and in the order of their first mention
(`tagNames`); a tag is defined if a word of a header names it, and was first used where the
first other word names it.  The empty list makes the table of the base tags, and defining a
tag or referring to it adds a word: `define_ofWords`, `reference_ofWords`.

So what is asked of a table is answered by its words: which tags are used and not defined
(`undefined_ofWords`), where the first of these uses is (`firstUndefinedUse_ofWords`), and
which tags are defined in vain (`unreferenced_ofWords`).
-/

import Mathlib.Data.List.Induction
import Mathlib.Data.List.Nodup
import SquareDance.Proofs.CallText.TagWords
import SquareDance.Proofs.CallText.Tags

namespace SquareDance

open CallText (TagWord)

variable {π : Type}

namespace CallText

/-! ### Words -/

/-- The name of the tag that stands for no call. -/
def noCallTag : String := "+++"

section Words

variable (ws : List (TagWord π)) (n : String)

/-- A header among the words defines the tag. -/
def defines : Bool := ws.any fun w => w.isHeader && w.name == n

/-- One of the words refers to the tag. -/
def refersTo : Bool := ws.any fun w => !w.isHeader && w.name == n

/-- The words that refer to a tag without a call. -/
def missing : List (TagWord π) :=
  ws.filter fun w => !w.isHeader && (w.name != noCallTag && !defines ws w.name)

/-- The tags other than base tags that are defined and not referred to, in the order of their
first mention. -/
def idleNames : List String :=
  ((ws.map (·.name)).filter fun n =>
    !Words.baseTags.contains n && (defines ws n && !refersTo ws n)).eraseDups

/-- The tags in the order of their first mention, after the base tags. -/
def tagNames : List String := (Words.baseTags ++ ws.map (·.name)).eraseDups

/-- The tags of the missing words, each once, in the order of the table. -/
def missingNames : List String :=
  (tagNames ws).filter fun n => ((missing ws).map (·.name)).contains n

/-- What words say of a tag. -/
def entryOf : TagEntry π where
  name := n
  isDefined := n == noCallTag || defines ws n
  firstUse := (ws.find? fun w => !w.isHeader && w.name == n).map (·.use)

end Words

/-! ### Places

What words say of tags does not depend on where they stand. -/

section Places

variable {ρ : Type} (f : π → ρ) (ws : List (TagWord π))

/-- Words keep their names. -/
theorem map_name_mapPlace : (ws.map (·.mapPlace f)).map (·.name) = ws.map (·.name) := by
  rw [List.map_map]
  rfl

/-- The same headers define a tag. -/
theorem defines_mapPlace (n : String) : defines (ws.map (·.mapPlace f)) n = defines ws n := by
  rw [defines, List.any_map]
  rfl

/-- The same words refer to a tag. -/
theorem refersTo_mapPlace (n : String) : refersTo (ws.map (·.mapPlace f)) n = refersTo ws n := by
  rw [refersTo, List.any_map]
  rfl

/-- The same words are missing. -/
theorem missing_mapPlace : missing (ws.map (·.mapPlace f)) = (missing ws).map (·.mapPlace f) := by
  simp only [missing, List.filter_map, defines_mapPlace]
  rfl

/-- The tags come in the same order. -/
theorem tagNames_mapPlace : tagNames (ws.map (·.mapPlace f)) = tagNames ws := by
  rw [tagNames, map_name_mapPlace]
  rfl

/-- The same tags are missing. -/
theorem missingNames_mapPlace : missingNames (ws.map (·.mapPlace f)) = missingNames ws := by
  rw [missingNames, missing_mapPlace, map_name_mapPlace, tagNames_mapPlace]
  rfl

/-- The same tags are defined in vain. -/
theorem idleNames_mapPlace : idleNames (ws.map (·.mapPlace f)) = idleNames ws := by
  simp only [idleNames, map_name_mapPlace, defines_mapPlace, refersTo_mapPlace]

end Places

/-! ### Names -/

/-- A member at the end is kept if it is new. -/
theorem eraseDups_append_singleton {α : Type} [BEq α] [LawfulBEq α] (l : List α) (x : α) :
    (l ++ [x]).eraseDups = if l.contains x then l.eraseDups else l.eraseDups ++ [x] := by
  rw [List.eraseDups_append, List.removeAll]
  by_cases h : x ∈ l <;> simp [h, List.eraseDups_cons]

/-- What is left without repetitions has none. -/
theorem nodup_eraseDups {α : Type} [BEq α] [LawfulBEq α] (l : List α) : l.eraseDups.Nodup := by
  induction l using List.reverseRecOn with
  | nil => simp
  | append_singleton l x ih =>
    rw [eraseDups_append_singleton]
    split
    · exact ih
    · rename_i hx
      refine List.nodup_append.2 ⟨ih, List.nodup_singleton x, fun a ha b hb hab => hx ?_⟩
      rw [List.mem_singleton.1 hb] at hab
      rw [hab] at ha
      exact List.contains_iff_mem.2 (List.mem_eraseDups.1 ha)

/-- Members may be picked out before repetitions are left out, or after that. -/
theorem filter_eraseDups {α : Type} [BEq α] [LawfulBEq α] (p : α → Bool) (l : List α) :
    (l.filter p).eraseDups = l.eraseDups.filter p := by
  induction l using List.reverseRecOn with
  | nil => simp
  | append_singleton l x ih =>
    rw [List.filter_append, eraseDups_append_singleton]
    cases hp : p x with
    | false =>
      rw [List.filter_singleton, hp]
      split <;> simp [ih, hp]
    | true =>
      rw [List.filter_singleton, hp]
      show (l.filter p ++ [x]).eraseDups = _
      rw [eraseDups_append_singleton]
      by_cases hx : x ∈ l <;> simp [ih, hx, hp]

/-- Each tag is named once. -/
theorem nodup_tagNames (ws : List (TagWord π)) : (tagNames ws).Nodup := nodup_eraseDups _

/-- The base tags are all different. -/
theorem eraseDups_baseTags : Words.baseTags.eraseDups = Words.baseTags := by decide +kernel

/-- No words name only the base tags. -/
theorem tagNames_nil : tagNames ([] : List (TagWord π)) = Words.baseTags := by
  rw [tagNames, List.map_nil, List.append_nil, eraseDups_baseTags]

/-- The tags are the base tags and those that words name. -/
theorem mem_tagNames {ws : List (TagWord π)} {n : String} :
    n ∈ tagNames ws ↔ n ∈ Words.baseTags ∨ ∃ w ∈ ws, w.name = n := by
  rw [tagNames, List.mem_eraseDups, List.mem_append, List.mem_map]

/-- Another word adds its tag, unless it was there before. -/
theorem tagNames_append_singleton (ws : List (TagWord π)) (w : TagWord π) :
    tagNames (ws ++ [w]) = if w.name ∈ tagNames ws then tagNames ws
      else tagNames ws ++ [w.name] := by
  rw [tagNames, List.map_append, ← List.append_assoc, List.map_singleton,
    eraseDups_append_singleton]
  by_cases h : w.name ∈ tagNames ws
  · rw [if_pos h, if_pos (List.contains_iff_mem.2 (List.mem_eraseDups.1 h))]
    rfl
  · rw [if_neg h, if_neg fun hc => h (List.mem_eraseDups.2 (List.contains_iff_mem.1 hc))]
    rfl

/-- More words add their tags behind the others. -/
theorem tagNames_prefix_append (ws more : List (TagWord π)) :
    tagNames ws <+: tagNames (ws ++ more) := by
  have happend : tagNames (ws ++ more) = tagNames ws
      ++ ((more.map (·.name)).removeAll (Words.baseTags ++ ws.map (·.name))).eraseDups := by
    rw [tagNames, List.map_append, ← List.append_assoc, List.eraseDups_append]
    rfl
  exact ⟨_, happend.symm⟩

/-- A member of a list has its number in a longer one. -/
theorem getElem?_of_prefix {α : Type} {xs ys : List α} (h : xs <+: ys) {i : Nat} {x : α}
    (hx : xs[i]? = some x) : ys[i]? = some x := by
  obtain ⟨zs, rfl⟩ := h
  exact (List.getElem?_append_left (List.getElem?_eq_some_iff.1 hx).1).trans hx

/-- **A tag keeps its number** when more words are read. -/
theorem getElem?_tagNames_append {ws : List (TagWord π)} {i : Nat} {n : String}
    (h : (tagNames ws)[i]? = some n) (more : List (TagWord π)) :
    (tagNames (ws ++ more))[i]? = some n :=
  getElem?_of_prefix (tagNames_prefix_append ws more) h

/-- The tag that a word is read for is one of the names. -/
theorem entryOf_of_not_mem {ws : List (TagWord π)} {n : String} (h : n ∉ tagNames ws) :
    entryOf ws n = { name := n } := by
  rw [mem_tagNames, not_or] at h
  obtain ⟨hbase, hwords⟩ := h
  have hne : n ≠ noCallTag := by
    rintro rfl
    exact hbase (by decide +kernel)
  have hname : ∀ w ∈ ws, (w.name == n) = false := fun w hw =>
    beq_eq_false_iff_ne.2 fun hn => hwords ⟨w, hw, hn⟩
  have hdefines : defines ws n = false := by
    rw [defines, List.any_eq_false]
    exact fun w hw => by simp [hname w hw]
  have huses : (ws.find? fun w => !w.isHeader && w.name == n) = none := by
    rw [List.find?_eq_none]
    exact fun w hw => by simp [hname w hw]
  rw [entryOf, hdefines, huses]
  simp [hne]

/-- What is known of other tags does not change. -/
theorem entryOf_append_of_ne (ws : List (TagWord π)) {w : TagWord π} {n : String}
    (h : w.name ≠ n) : entryOf (ws ++ [w]) n = entryOf ws n := by
  simp [entryOf, defines, List.find?_append, beq_eq_false_iff_ne.2 h]

/-- What a word changes of what is known of its tag. -/
def TagWord.note (w : TagWord π) (e : TagEntry π) : TagEntry π :=
  if w.isHeader then { e with isDefined := true }
  else { e with firstUse := e.firstUse <|> some w.use }

/-- A header says that its tag is defined. -/
theorem TagWord.note_header {w : TagWord π} (h : w.isHeader = true) :
    w.note = fun e => { e with isDefined := true } :=
  funext fun _ => if_pos h

/-- Another word is the first use of its tag if there is none before. -/
theorem TagWord.note_use {w : TagWord π} (h : w.isHeader = false) :
    w.note = fun e => { e with firstUse := e.firstUse <|> some w.use } :=
  funext fun _ => if_neg (Bool.eq_false_iff.1 h)

/-- What is known of the tag of a word after it. -/
theorem note_entryOf (ws : List (TagWord π)) (w : TagWord π) :
    w.note (entryOf ws w.name) = entryOf (ws ++ [w]) w.name := by
  cases hheader : w.isHeader with
  | true =>
    rw [TagWord.note_header hheader]
    simp [entryOf, defines, List.find?_append, hheader]
  | false =>
    rw [TagWord.note_use hheader]
    cases hfirst : ws.find? fun v => !v.isHeader && v.name == w.name <;>
      simp [entryOf, defines, List.find?_append, hfirst, hheader]

end CallText

namespace TagTable

open CallText

/-- The table that words make: the tags in the order of their first mention, in both parts. -/
def ofWords (ws : List (TagWord π)) : TagTable π := ofNames (entryOf ws) (tagNames ws)

/-- No words make the table of the base tags. -/
theorem base_eq_ofWords : (base : TagTable Nat) = ofWords [] := by
  decide +kernel

/-- What is known of the tags is what the words say of them. -/
theorem toList_entries_ofWords (ws : List (TagWord π)) :
    (ofWords ws).entries.toList = (tagNames ws).map (entryOf ws) := rfl

/-- The numbers of tags are those of the order of their first mention. -/
theorem name?_ofWords (ws : List (TagWord π)) (i : Nat) :
    (ofWords ws).name? i = (tagNames ws)[i]? :=
  name?_ofNames (fun _ => rfl) i

/-- A table has as many tags as the words have names, the base tags among them. -/
theorem size_ofWords (ws : List (TagWord π)) : (ofWords ws).size = (tagNames ws).length :=
  size_ofNames

/-- The parts of the table that words make agree. -/
theorem agrees_ofWords (ws : List (TagWord π)) : (ofWords ws).Agrees :=
  agrees_ofNames (fun _ => rfl) (nodup_tagNames ws)

/-- The map gives a tag its number in the order of first mention. -/
theorem index?_ofWords_eq_some {ws : List (TagWord π)} {n : String} {i : Nat} :
    (ofWords ws).index? n = some i ↔ (tagNames ws)[i]? = some n := by
  rw [agrees_ofWords ws n i, name?_ofWords]

/-- The map has no number for what is not the name of a tag. -/
theorem index?_ofWords_eq_none {ws : List (TagWord π)} {n : String} :
    (ofWords ws).index? n = none ↔ n ∉ tagNames ws := by
  rw [Option.eq_none_iff_forall_ne_some, List.mem_iff_getElem?, not_exists]
  exact forall_congr' fun i => not_congr index?_ofWords_eq_some

/-- **A tag is found or added.**  The table has then the names of one word more. -/
theorem findOrAdd_ofWords {ws : List (TagWord π)} {w : TagWord π} {i : Nat} {t : TagTable π}
    (h : (ofWords ws).findOrAdd w.name = .ok (i, t)) :
    t = ofNames (entryOf ws) (tagNames (ws ++ [w])) ∧
      (tagNames (ws ++ [w]))[i]? = some w.name := by
  rw [tagNames_append_singleton]
  obtain ⟨hfound, rfl⟩ | ⟨hnone, -, rfl, rfl⟩ := findOrAdd_eq_ok h
  · have hname := index?_ofWords_eq_some.1 hfound
    rw [if_pos (List.mem_of_getElem? hname)]
    exact ⟨rfl, hname⟩
  · have hnew := index?_ofWords_eq_none.1 hnone
    rw [if_neg hnew, size_ofWords]
    refine ⟨?_, List.getElem?_concat_length⟩
    rw [add, size_ofWords, ofWords, ofNames, ofNames, numbersOf_append_singleton, List.map_append,
      List.map_singleton, entryOf_of_not_mem hnew, List.push_toArray]

/-- Changing what is known of a tag as a word does makes the table of one word more. -/
theorem modify_eq_ofWords {ws : List (TagWord π)} {w : TagWord π} {i : Nat}
    {f : TagEntry π → TagEntry π} (hi : (tagNames (ws ++ [w]))[i]? = some w.name)
    (hf : f (entryOf ws w.name) = entryOf (ws ++ [w]) w.name) :
    (ofNames (entryOf ws) (tagNames (ws ++ [w]))).modify i f = ofWords (ws ++ [w]) := by
  rw [modify, ofWords, ofNames, ofNames, TagTable.mk.injEq, ← Array.toList_inj,
    Array.toList_modify]
  refine ⟨List.ext_getElem? fun j => ?_, rfl⟩
  rw [List.getElem?_modify, List.getElem?_map, List.getElem?_map]
  by_cases hij : i = j
  · subst hij
    rw [hi]
    simp [hf]
  · cases hj : (tagNames (ws ++ [w]))[j]? with
    | none => rfl
    | some n =>
      have hne : w.name ≠ n := by
        rintro rfl
        obtain ⟨hlt, hname⟩ := List.getElem?_eq_some_iff.1 hi
        obtain ⟨hlt', hname'⟩ := List.getElem?_eq_some_iff.1 hj
        exact hij ((nodup_tagNames _).getElem_inj_iff.1 (hname.trans hname'.symm))
      simp [hij, entryOf_append_of_ne ws hne]

/-- **Referring to a tag adds a word** that refers to it. -/
theorem reference_ofWords {ws : List (TagWord π)} {name : String} {use : TagUse π} {i : Nat}
    {t : TagTable π} (h : (ofWords ws).reference name use = .ok (i, t)) :
    t = ofWords (ws ++ [⟨name, false, use.place, use.call⟩]) ∧
      (tagNames (ws ++ [⟨name, false, use.place, use.call⟩]))[i]? = some name := by
  obtain ⟨found, hfound, rfl⟩ := findOrAdd_of_reference h
  obtain ⟨rfl, hi⟩ := findOrAdd_ofWords (w := ⟨name, false, use.place, use.call⟩) hfound
  have hnote := note_entryOf ws ⟨name, false, use.place, use.call⟩
  rw [TagWord.note_use rfl] at hnote
  exact ⟨modify_eq_ofWords hi hnote, hi⟩

/-- **Defining a tag adds a word** of a header. -/
theorem define_ofWords {ws : List (TagWord π)} {name : String} {i : Nat} {t : TagTable π}
    (place : π) (call : Option String) (h : (ofWords ws).define name = .ok (i, t)) :
    t = ofWords (ws ++ [⟨name, true, place, call⟩]) ∧
      (tagNames (ws ++ [⟨name, true, place, call⟩]))[i]? = some name := by
  obtain ⟨found, hfound, -, rfl⟩ := findOrAdd_of_define h
  obtain ⟨rfl, hi⟩ := findOrAdd_ofWords (w := ⟨name, true, place, call⟩) hfound
  have hnote := note_entryOf ws ⟨name, true, place, call⟩
  rw [TagWord.note_header rfl] at hnote
  exact ⟨modify_eq_ofWords hi hnote, hi⟩

/-! ### What is asked of the table -/

section Asked

variable (ws : List (TagWord π))

/-- A tag has a first use if a word refers to it. -/
theorem isSome_firstUse_entryOf (n : String) :
    (entryOf ws n).firstUse.isSome = refersTo ws n := by
  rw [entryOf, Option.isSome_map, List.isSome_find?, refersTo]

/-- A tag is not defined if no header defines it and it is not that of no call. -/
theorem not_isDefined_entryOf (n : String) :
    (!(entryOf ws n).isDefined) = (n != noCallTag && !defines ws n) := by
  rw [entryOf, Bool.not_or]
  rfl

/-- A tag is missing if a word that is refers to it. -/
theorem any_missing (n : String) : ((missing ws).map (·.name)).contains n
    = (refersTo ws n && (n != noCallTag && !defines ws n)) := by
  rw [Bool.eq_iff_iff, List.contains_iff_mem, List.mem_map]
  simp only [missing, List.mem_filter, Bool.and_eq_true, refersTo, List.any_eq_true, beq_iff_eq]
  constructor
  · rintro ⟨w, ⟨hw, huse, hmissing⟩, rfl⟩
    exact ⟨⟨w, hw, huse, rfl⟩, hmissing⟩
  · rintro ⟨⟨w, hw, huse, rfl⟩, hmissing⟩
    exact ⟨w, ⟨hw, huse, hmissing⟩, rfl⟩

/-- **The tags that are used and not defined are those of the missing words.** -/
theorem undefined_ofWords : (ofWords ws).undefined = missingNames ws := by
  rw [undefined, toList_entries_ofWords, List.filter_map, List.map_map]
  have hfilter : ((fun e : TagEntry π => e.firstUse.isSome && !e.isDefined) ∘ entryOf ws)
      = fun n => ((missing ws).map (·.name)).contains n := by
    funext n
    rw [any_missing, Function.comp, isSome_firstUse_entryOf, not_isDefined_entryOf]
  rw [hfilter]
  exact List.map_id' _

/-- **The tags that are defined in vain** have no word that refers to them. -/
theorem unreferenced_ofWords : (ofWords ws).unreferenced = idleNames ws := by
  have hdrop : (tagNames ws).drop Words.baseTags.length
      = ((ws.map (·.name)).filter fun n => !Words.baseTags.contains n).eraseDups := by
    rw [tagNames, List.eraseDups_append, eraseDups_baseTags, List.drop_left]
    rfl
  have hentry : ∀ n, ((entryOf ws n).isDefined && (entryOf ws n).firstUse.isNone
      && !Words.baseTags.contains n)
        = (!Words.baseTags.contains n && (defines ws n && !refersTo ws n)) := by
    intro n
    rw [← Option.not_isSome, isSome_firstUse_entryOf, Bool.and_comm]
    cases hn : Words.baseTags.contains n with
    | true => rfl
    | false =>
      have hne : (n == noCallTag) = false := by
        rw [beq_eq_false_iff_ne]
        rintro rfl
        cases hn
      rw [entryOf, hne, Bool.false_or]
  rw [unreferenced, toList_entries_ofWords, ← List.map_drop, hdrop, List.filter_map,
    List.map_map, idleNames, filter_eraseDups, filter_eraseDups, List.filter_filter]
  simp only [Function.comp, hentry]
  exact List.map_id' _

/-- The first of the words that refer to a tag that is missing is the first of its uses. -/
theorem firstUse_of_head?_missing {w : TagWord π} (h : (missing ws).head? = some w) :
    (entryOf ws w.name).firstUse = some w.use := by
  rw [missing, List.head?_filter, List.find?_eq_some_iff_append] at h
  obtain ⟨hw, before, after, rfl, hbefore⟩ := h
  simp only [Bool.and_eq_true] at hw
  rw [entryOf, Option.map_eq_some_iff]
  refine ⟨w, List.find?_eq_some_iff_append.2 ⟨by simp [hw.1], before, after, rfl, ?_⟩, rfl⟩
  -- A word before it with the same tag would be missing as well.
  intro v hv
  by_contra hc
  simp only [Bool.not_eq_true', Bool.not_eq_false, Bool.and_eq_true, beq_iff_eq] at hc
  have hnot := hbefore v hv
  rw [hc.2] at hnot
  simp [hc.1, hw.2] at hnot

/-- The uses of tags that are not defined are those of missing words. -/
theorem exists_missing_of_firstUse {n : String} {u : TagUse π}
    (hdef : (entryOf ws n).isDefined = false) (hu : (entryOf ws n).firstUse = some u) :
    ∃ w ∈ missing ws, u = w.use := by
  rw [entryOf, Option.map_eq_some_iff] at hu
  obtain ⟨w, hw, rfl⟩ := hu
  have hmem := List.mem_of_find?_eq_some hw
  have hname := List.find?_some hw
  simp only [Bool.and_eq_true, beq_iff_eq] at hname
  refine ⟨w, List.mem_filter.2 ⟨hmem, ?_⟩, rfl⟩
  rw [hname.2, ← not_isDefined_entryOf, hdef, hname.1]
  rfl

end Asked

/-- The earliest of some uses is one of them. -/
theorem mem_of_earliest? {earlier : π → π → Bool} {u : TagUse π} {us : List (TagUse π)}
    (h : earliest? earlier us = some u) : u ∈ us := by
  induction us with
  | nil => cases h
  | cons x us ih =>
    rw [earliest?] at h
    split at h
    · cases h
      exact List.mem_cons_self
    · rename_i v hv
      split at h <;> cases h
      · exact List.mem_cons_of_mem x (ih hv)
      · exact List.mem_cons_self

section Earliest

variable {earlier : π → π → Bool} (hasymm : ∀ p q, earlier p q = true → earlier q p = false)

include hasymm

/-- A use that is earlier than the others is the earliest. -/
theorem earliest?_eq_some {u : TagUse π} {us : List (TagUse π)} (hu : u ∈ us)
    (hlt : ∀ v ∈ us, v = u ∨ earlier u.place v.place = true) :
    earliest? earlier us = some u := by
  induction us with
  | nil => cases hu
  | cons x us ih =>
    obtain ⟨hx, hus⟩ := List.forall_mem_cons.1 hlt
    rw [earliest?]
    by_cases hmem : u ∈ us
    · rw [ih hmem hus]
      obtain rfl | hx := hx
      · simp
      · simp [hx]
    · obtain rfl : u = x := (List.mem_cons.1 hu).resolve_right hmem
      cases he : earliest? earlier us with
      | none => rfl
      | some v =>
        have hv := mem_of_earliest? he
        obtain rfl | hv' := hus v hv
        · exact absurd hv hmem
        · simp [hasymm _ _ hv']

/-- **The earliest use of a tag that is not defined is the first word that is missing**, if the
words come in their order. -/
theorem firstUndefinedUse_ofWords {ws : List (TagWord π)}
    (hws : ws.Pairwise fun v w => earlier v.place w.place = true) :
    (ofWords ws).firstUndefinedUse earlier = (missing ws).head?.map (·.use) := by
  have huses : ∀ u ∈ ((ofWords ws).entries.toList.filter (!·.isDefined)).filterMap (·.firstUse),
      ∃ w ∈ missing ws, u = w.use := by
    intro u hu
    obtain ⟨e, he, hu⟩ := List.mem_filterMap.1 hu
    obtain ⟨he, hdef⟩ := List.mem_filter.1 he
    rw [toList_entries_ofWords] at he
    obtain ⟨n, -, rfl⟩ := List.mem_map.1 he
    exact exists_missing_of_firstUse ws (by simpa using hdef) hu
  rw [firstUndefinedUse]
  cases hmissing : missing ws with
  | nil =>
    rw [hmissing] at huses
    have hnone : ((ofWords ws).entries.toList.filter (!·.isDefined)).filterMap (·.firstUse) = [] :=
      List.eq_nil_iff_forall_not_mem.2 fun u hu => by simpa using huses u hu
    rw [hnone]
    rfl
  | cons w more =>
    have hfirst : (entryOf ws w.name).firstUse = some w.use :=
      firstUse_of_head?_missing ws (by rw [hmissing]; rfl)
    have hw : w ∈ missing ws := hmissing ▸ List.mem_cons_self
    obtain ⟨hmem, hword⟩ := List.mem_filter.1 hw
    refine earliest?_eq_some hasymm (List.mem_filterMap.2 ⟨_, List.mem_filter.2 ⟨?_, ?_⟩, hfirst⟩) ?_
    · rw [toList_entries_ofWords]
      exact List.mem_map_of_mem (mem_tagNames.2 (.inr ⟨w, hmem, rfl⟩))
    · rw [not_isDefined_entryOf]
      exact (Bool.and_eq_true_iff.1 hword).2
    · intro v hv
      obtain ⟨x, hx, rfl⟩ := huses v hv
      rw [hmissing] at hx
      obtain rfl | hx := List.mem_cons.1 hx
      · exact .inl rfl
      · have hpairs : (missing ws).Pairwise fun v w => earlier v.place w.place = true :=
          hws.filter _
        rw [hmissing] at hpairs
        exact .inr ((List.pairwise_cons.1 hpairs).1 x hx)

end Earliest

end TagTable
end SquareDance
