/-
# Tables of tags after anything

A table of tags may be asked for anything: that a tag be defined a second time, that the tag of no
call be defined, that a tag be added to a full table.  `TagTable.enter` is what becomes of the table
itself, step by step, also where the word is refused: a tag may have been looked up, and none was
added (`TagTable.enter_eq`).  The two parts of the table, the tags and the map of their numbers,
agree before and after each word, so they agree after any (`TagTable.Agrees.enterAll`).

Which words are refused is told by the words that were taken before (`refusal?`), and those that are
taken make the table, whatever was refused between them (`TagTable.enterAll_ofWords`).  So every
table has its numbers, its definitions and its first uses in order: `TagTable.intact_enterAll`.
-/

import SquareDance.Proofs.CallText.LayoutFree

namespace SquareDance

open CallText

variable {π : Type}

/-! ### Words that are entered -/

namespace CallText

/-- Why a word is refused after other words were taken. -/
def refusal? (ws : List (TagWord π)) (w : TagWord π) : Option TagError :=
  if w.name ∉ tagNames ws ∧ TagTable.maxSize ≤ (tagNames ws).length then some .tooMany
  else if w.isHeader = true ∧ (w.name = noCallTag ∨ defines ws w.name = true) then
    some (.duplicate w.name)
  else none

end CallText

namespace TagTable

/-- Define a tag or refer to it, as a word does. -/
def mention (t : TagTable π) (w : TagWord π) : Except TagError (Nat × TagTable π) :=
  if w.isHeader then t.define w.name else t.reference w.name w.use

/-- Enter a word into the table itself: its tag is found or added, and what is known of the tag is
changed, unless the word is refused before that. -/
def enter (t : TagTable π) (w : TagWord π) : Except TagError Nat × TagTable π :=
  match t.findOrAdd w.name with
  | .error e => (.error e, t)
  | .ok (i, t) =>
    if w.isHeader && t.isDefined i then (.error (.duplicate w.name), t)
    else (.ok i, t.modify i w.note)

/-- The table after some words, whether they are refused or not. -/
def enterAll (t : TagTable π) (ws : List (TagWord π)) : TagTable π :=
  ws.foldl (fun t w => (t.enter w).2) t

/-- The words that are not refused. -/
def taken (t : TagTable π) : List (TagWord π) → List (TagWord π)
  | [] => []
  | w :: ws =>
    match t.enter w with
    | (.error _, t) => t.taken ws
    | (.ok _, t) => w :: t.taken ws

/-- A tag that was just added is not defined. -/
theorem eq_of_findOrAdd_isDefined {t t' : TagTable π} {name : String} {i : Nat}
    (h : t.findOrAdd name = .ok (i, t')) (hdefined : t'.isDefined i = true) : t' = t := by
  obtain ⟨-, rfl⟩ | ⟨-, -, rfl, rfl⟩ := findOrAdd_eq_ok h
  · rfl
  · rw [isDefined, add, size, Array.getElem?_push_size] at hdefined
    cases hdefined

/-- **To enter a word is to define its tag or to refer to it**, and a word that is refused leaves
the table as it was. -/
theorem enter_eq (t : TagTable π) (w : TagWord π) : t.enter w =
    match t.mention w with
    | .error e => (.error e, t)
    | .ok (i, t') => (.ok i, t') := by
  rw [enter, mention, define, reference]
  cases hfound : t.findOrAdd w.name with
  | error e => cases w.isHeader <;> rfl
  | ok p =>
    obtain ⟨i, t'⟩ := p
    cases hheader : w.isHeader with
    | false =>
      rw [TagWord.note_use hheader]
      rfl
    | true =>
      rw [TagWord.note_header hheader]
      by_cases hdefined : t'.isDefined i = true
      · obtain rfl := eq_of_findOrAdd_isDefined hfound hdefined
        simp [hdefined, bind, Except.bind, throw, throwThe, MonadExceptOf.throw]
      · simp [hdefined, bind, Except.bind, pure, Except.pure]

/-- A word that is taken is entered. -/
theorem enter_of_ok {t t' : TagTable π} {w : TagWord π} {i : Nat} (h : t.mention w = .ok (i, t')) :
    t.enter w = (.ok i, t') := by
  rw [enter_eq, h]

/-- A word that is refused leaves the table as it was. -/
theorem enter_of_error {t : TagTable π} {w : TagWord π} {e : TagError}
    (h : t.mention w = .error e) : t.enter w = (.error e, t) := by
  rw [enter_eq, h]

/-- A word is refused just if it is not entered. -/
theorem mention_eq_error_iff {t : TagTable π} {w : TagWord π} {e : TagError} :
    t.mention w = .error e ↔ (t.enter w).1 = .error e := by
  rw [enter_eq]
  cases t.mention w <;> simp

/-! ### The two parts of the table -/

section Agrees

variable {t : TagTable π}

/-- What a word changes of what is known of its tag is not the name. -/
theorem name_note (w : TagWord π) (e : TagEntry π) : (w.note e).name = e.name := by
  unfold TagWord.note
  split <;> rfl

/-- **The parts of a table agree after a word**, whether it was taken or refused. -/
theorem Agrees.enter (h : t.Agrees) (w : TagWord π) : (t.enter w).2.Agrees := by
  unfold TagTable.enter
  cases hfound : t.findOrAdd w.name with
  | error e => exact h
  | ok p =>
    obtain ⟨i, t'⟩ := p
    have hadded : t'.Agrees := h.findOrAdd hfound
    dsimp only
    split
    · exact hadded
    · exact hadded.modify i (name_note w)

/-- **The parts of a table agree after any words.** -/
theorem Agrees.enterAll (h : t.Agrees) (ws : List (TagWord π)) : (t.enterAll ws).Agrees := by
  induction ws generalizing t with
  | nil => exact h
  | cons w ws ih => exact ih (h.enter w)

end Agrees

/-! ### One word more -/

/-- A tag is refused only where it is new and there is no room. -/
theorem findOrAdd_eq_error_iff {t : TagTable π} {name : String} {e : TagError} :
    t.findOrAdd name = .error e ↔ e = .tooMany ∧ t.index? name = none ∧ maxSize ≤ t.size := by
  unfold findOrAdd
  cases t.index? name with
  | some i => simp
  | none =>
    by_cases hsize : t.size < maxSize
    · simp [hsize]
    · simp [hsize, Nat.le_of_not_lt hsize, eq_comm]

/-- **What a word does to the table that words make**: it is refused and nothing changes, or it is
one of the words and its number is that of its tag. -/
theorem enter_ofWords (ws : List (TagWord π)) (w : TagWord π) :
    (∃ e, refusal? ws w = some e ∧ (ofWords ws).enter w = (.error e, ofWords ws)) ∨
      refusal? ws w = none ∧ ∃ i, (ofWords ws).enter w = (.ok i, ofWords (ws ++ [w])) ∧
        (tagNames (ws ++ [w]))[i]? = some w.name := by
  unfold enter refusal?
  cases hfound : (ofWords ws).findOrAdd w.name with
  | error e =>
    obtain ⟨rfl, hindex, hsize⟩ := findOrAdd_eq_error_iff.1 hfound
    rw [index?_ofWords_eq_none] at hindex
    rw [size_ofWords] at hsize
    exact .inl ⟨_, if_pos ⟨hindex, hsize⟩, rfl⟩
  | ok p =>
    obtain ⟨i, t⟩ := p
    have hroom : ¬(w.name ∉ tagNames ws ∧ maxSize ≤ (tagNames ws).length) := by
      rw [← index?_ofWords_eq_none, ← size_ofWords]
      intro hfull
      rw [findOrAdd_eq_error_iff.2 ⟨rfl, hfull⟩] at hfound
      cases hfound
    obtain ⟨rfl, hi⟩ := findOrAdd_ofWords (w := w) hfound
    rw [if_neg hroom]
    have hdefined : (ofNames (entryOf ws) (tagNames (ws ++ [w]))).isDefined i
        = (w.name == noCallTag || defines ws w.name) := by
      rw [isDefined_ofNames, hi]
      rfl
    by_cases hrefused : w.isHeader = true ∧ (w.name = noCallTag ∨ defines ws w.name = true)
    · have hyes : (w.name == noCallTag || defines ws w.name) = true := by
        simpa using hrefused.2
      have hagain := hdefined.trans hyes
      have hsame := eq_of_findOrAdd_isDefined hfound hagain
      refine .inl ⟨_, if_pos hrefused, ?_⟩
      dsimp only
      rw [hagain, hrefused.1, hsame]
      rfl
    · refine .inr ⟨if_neg hrefused, i, ?_, hi⟩
      have hfirst : (w.isHeader && (w.name == noCallTag || defines ws w.name)) = false := by
        simpa using hrefused
      dsimp only
      rw [hdefined, hfirst, modify_eq_ofWords hi (note_entryOf ws w)]
      rfl

/-! ### Any words -/

/-- **Any words make the table that those of them make that are taken.** -/
theorem enterAll_ofWords (before ws : List (TagWord π)) :
    (ofWords before).enterAll ws = ofWords (before ++ (ofWords before).taken ws) := by
  induction ws generalizing before with
  | nil => rw [taken, List.append_nil, enterAll, List.foldl_nil]
  | cons w ws ih =>
    rw [enterAll, List.foldl_cons, taken]
    obtain ⟨e, -, henter⟩ | ⟨-, i, henter, -⟩ := enter_ofWords before w
    · rw [henter]
      exact ih before
    · rw [henter]
      refine (ih (before ++ [w])).trans ?_
      rw [List.append_assoc]
      rfl

/-- Words of which none would be refused after those before it. -/
structure AllTaken (ws : List (TagWord π)) : Prop where
  size_le : (tagNames ws).length ≤ maxSize
  once : ((ws.filter (·.isHeader)).map (·.name)).Nodup
  never : ∀ w ∈ ws, w.isHeader = true → w.name ≠ noCallTag

/-- A word that is not refused may be taken after the others. -/
theorem AllTaken.append_singleton {ws : List (TagWord π)} (h : AllTaken ws) {w : TagWord π}
    (htaken : refusal? ws w = none) : AllTaken (ws ++ [w]) := by
  unfold refusal? at htaken
  split at htaken
  · cases htaken
  next hroom =>
    split at htaken
    · cases htaken
    next hfirst =>
      refine ⟨?_, ?_, ?_⟩
      · rw [tagNames_append_singleton]
        have hsize := h.size_le
        split
        · exact hsize
        next hnew =>
          rw [List.length_append, List.length_singleton]
          have hlt : (tagNames ws).length < maxSize :=
            Nat.lt_of_not_le fun hfull => hroom ⟨hnew, hfull⟩
          exact hlt
      · have hnew : ∀ v ∈ ws, v.isHeader = true → w.isHeader = true → v.name ≠ w.name :=
          fun v hv hv' hheader hname => hfirst
            ⟨hheader, .inr (List.any_eq_true.2 ⟨v, hv, by simp [hv', hname]⟩)⟩
        rw [List.filter_append, List.map_append]
        refine List.nodup_append.2 ⟨h.once, ?_, ?_⟩
        · cases hheader : w.isHeader <;> simp [hheader]
        · intro a ha b hb
          obtain ⟨v, hv, rfl⟩ := List.mem_map.1 ha
          obtain ⟨x, hx, rfl⟩ := List.mem_map.1 hb
          obtain ⟨hv, hv'⟩ := List.mem_filter.1 hv
          obtain ⟨hx, hx'⟩ := List.mem_filter.1 hx
          obtain rfl := List.mem_singleton.1 hx
          exact hnew v hv hv' hx'
      · intro v hv hheader
        obtain hv | rfl := by simpa using hv
        · exact h.never v hv hheader
        · exact fun hzero => hfirst ⟨hheader, .inl hzero⟩

/-- The words that are taken from any list may be taken after the others. -/
theorem AllTaken.append_taken {before : List (TagWord π)} (h : AllTaken before)
    (ws : List (TagWord π)) : AllTaken (before ++ (ofWords before).taken ws) := by
  induction ws generalizing before with
  | nil => rwa [taken, List.append_nil]
  | cons w ws ih =>
    rw [taken]
    obtain ⟨e, -, henter⟩ | ⟨htaken, i, henter, -⟩ := enter_ofWords before w
    · rw [henter]
      exact ih h
    · rw [henter]
      have hmore := ih (h.append_singleton htaken)
      rwa [List.append_assoc] at hmore

/-! ### Numbers and definitions -/

/-- The tags that are defined are the first one and those of headers. -/
theorem isDefined_ofWords {ws : List (TagWord π)} {i : Nat} : (ofWords ws).isDefined i = true ↔
    i = 0 ∨ ∃ w ∈ ws, w.isHeader = true ∧ (ofWords ws).name? i = some w.name := by
  have hzero : ∀ n, (tagNames ws)[i]? = some n → (n = noCallTag ↔ i = 0) := by
    intro n hn
    constructor
    · rintro rfl
      exact (List.getElem?_inj (List.getElem?_eq_some_iff.1 hn).1 (nodup_tagNames ws)).1
        (hn.trans (tagNames_zero ws).symm)
    · rintro rfl
      exact Option.some.inj (hn.symm.trans (tagNames_zero ws))
  rw [name?_ofWords, ofWords, isDefined_ofNames]
  cases hn : (tagNames ws)[i]? with
  | none =>
    have hne : i ≠ 0 := by
      rintro rfl
      rw [show (0 : Nat) = (0 : TagId).toNat from rfl, tagNames_zero] at hn
      cases hn
    simp [hne]
  | some n =>
    simp only [Option.any_some, entryOf, Bool.or_eq_true, beq_iff_eq, hzero n hn,
      defines, List.any_eq_true, Bool.and_eq_true, Option.some.injEq]
    simp only [eq_comm]

/-! ### The first use -/

/-- The first of some words that refers to a tag. -/
def firstUse? (ws : List (TagWord π)) (n : String) : Option (TagUse π) :=
  (ws.find? fun w => !w.isHeader && w.name == n).map (·.use)

/-- The first use of a tag is that of the first word that refers to it. -/
theorem firstUse_entryOf (ws : List (TagWord π)) (n : String) :
    (entryOf ws n).firstUse = firstUse? ws n := rfl

/-- The uses of tags that are not defined are the first uses of the undefined tags. -/
theorem uses_ofWords (ws : List (TagWord π)) :
    ((ofWords ws).entries.toList.filter (!·.isDefined)).filterMap (·.firstUse)
      = (ofWords ws).undefined.filterMap (firstUse? ws) := by
  rw [undefined_ofWords, missingNames, toList_entries_ofWords, List.filter_map,
    List.filterMap_map, List.filterMap_filter, List.filterMap_filter]
  refine List.filterMap_congr fun n _ => ?_
  rw [any_missing, Function.comp, not_isDefined_entryOf, Function.comp,
    ← isSome_firstUse_entryOf, firstUse_entryOf]
  cases firstUse? ws n <;> simp

/-- There is an earliest use just if there is one at all. -/
theorem earliest?_eq_none_iff {earlier : π → π → Bool} {us : List (TagUse π)} :
    earliest? earlier us = none ↔ us = [] := by
  cases us with
  | nil => simp [earliest?]
  | cons u us =>
    rw [earliest?]
    split
    · simp
    · split <;> simp

/-- A use of a list is earlier than those before it, and none behind it is earlier. -/
def IsEarliest (earlier : π → π → Bool) (us : List (TagUse π)) (u : TagUse π) : Prop :=
  ∃ before behind, us = before ++ u :: behind ∧
    (∀ v ∈ before, earlier u.place v.place = true) ∧
      ∀ v ∈ behind, earlier v.place u.place = false

/-- The use that is earlier than those before it, and not later than those behind it, is found. -/
theorem earliest?_of_isEarliest {earlier : π → π → Bool} {us : List (TagUse π)} {u : TagUse π}
    (h : IsEarliest earlier us u) : earliest? earlier us = some u := by
  obtain ⟨before, behind, rfl, hbefore, hbehind⟩ := h
  induction before with
  | nil =>
    rw [List.nil_append, earliest?]
    split
    · rfl
    next v hv => rw [if_neg (by simp [hbehind v (mem_of_earliest? hv)])]
  | cons x before ih =>
    obtain ⟨hx, hbefore⟩ := List.forall_mem_cons.1 hbefore
    rw [List.cons_append, earliest?, ih hbefore]
    exact if_pos hx

/-- **The earliest of some uses is the first of those that none is before.** -/
theorem earliest?_eq_some_iff {earlier : π → π → Bool}
    (hasymm : ∀ p q, earlier p q = true → earlier q p = false)
    (htrans : ∀ p q r, earlier p q = false → earlier q r = false → earlier p r = false)
    {us : List (TagUse π)} {u : TagUse π} :
    earliest? earlier us = some u ↔ IsEarliest earlier us u := by
  refine ⟨fun h => ?_, earliest?_of_isEarliest⟩
  induction us generalizing u with
  | nil => cases h
  | cons x us ih =>
    rw [earliest?] at h
    split at h
    next hnone =>
      obtain rfl := earliest?_eq_none_iff.1 hnone
      cases h
      exact ⟨[], [], rfl, fun v hv => absurd hv List.not_mem_nil,
        fun v hv => absurd hv List.not_mem_nil⟩
    next v hv =>
      obtain ⟨before, behind, rfl, hbefore, hbehind⟩ := ih hv
      split at h
      next hlt =>
        cases h
        exact ⟨x :: before, behind, rfl, List.forall_mem_cons.2 ⟨hlt, hbefore⟩, hbehind⟩
      next hle =>
        cases h
        have hx := Bool.eq_false_iff.2 hle
        refine ⟨[], before ++ v :: behind, rfl, fun w hw => absurd hw List.not_mem_nil, ?_⟩
        rw [List.forall_mem_append, List.forall_mem_cons]
        exact ⟨fun w hw => htrans _ _ _ (hasymm _ _ (hbefore w hw)) hx, hx,
          fun w hw => htrans _ _ _ (hbehind w hw) hx⟩

/-! ### Tables in order -/

/-- What is not before a second place, which is not before a third, is not before the third. -/
theorem Place.isBefore_trans_false (p q r : Place) (h : p.isBefore q = false)
    (h' : q.isBefore r = false) : p.isBefore r = false := by
  rw [Bool.eq_false_iff, ne_eq, Place.isBefore_iff] at *
  omega

/-- A table is in order, and tells of some words what it is to tell. -/
structure IsIntact (t : TagTable Place) (ws : List (TagWord Place)) : Prop where
  /-- The map has the numbers of tags, and the tags at these numbers have the names. -/
  inverse : ∀ n i, t.index? n = some i ↔ t.name? i = some n
  /-- The numbers are those below the size of the table. -/
  dense : ∀ i, (t.name? i).isSome = true ↔ i < t.size
  size_le : t.size ≤ maxSize
  /-- The base tags come first. -/
  baseTags : ∀ i n, Words.baseTags[i]? = some n → t.index? n = some i
  /-- A tag keeps its number, whatever words are entered. -/
  keeps : ∀ more n i, t.index? n = some i → (t.enterAll more).index? n = some i
  /-- A definition or a reference that is taken is answered by the number of its tag. -/
  answer : ∀ w i t', t.mention w = .ok (i, t') →
    t.enter w = (.ok i, t') ∧ t'.index? w.name = some i
  /-- One that is refused leaves the table as it was. -/
  refused : ∀ w e, t.mention w = .error e → t.enter w = (.error e, t)
  /-- It is refused just if there is no room for its tag, or its tag has a definition. -/
  error_iff : ∀ w e, t.mention w = .error e ↔ refusal? ws w = some e
  /-- A tag is defined once at most, and that of no call is never defined. -/
  once : ((ws.filter (·.isHeader)).map (·.name)).Nodup
  never : ∀ w ∈ ws, w.isHeader = true → w.name ≠ noCallTag
  /-- Tags are defined by the words of headers, but for the first. -/
  isDefined_iff : ∀ i, t.isDefined i = true ↔
    i = 0 ∨ ∃ w ∈ ws, w.isHeader = true ∧ t.name? i = some w.name
  /-- Tags are undefined that a word refers to, and no word of a header defines. -/
  mem_undefined : ∀ n, n ∈ t.undefined ↔ (∃ w ∈ ws, w.isHeader = false ∧ w.name = n) ∧
    n ≠ noCallTag ∧ ∀ w ∈ ws, w.isHeader = true → w.name ≠ n
  /-- The first use is the earliest of the first uses of undefined tags. -/
  first_iff : ∀ u, t.firstUndefinedUse Place.isBefore = some u ↔
    IsEarliest Place.isBefore (t.undefined.filterMap (firstUse? ws)) u
  first_none_iff : t.firstUndefinedUse Place.isBefore = none ↔ t.undefined = []

/-- A tag keeps its number, whatever words are entered. -/
theorem index?_enterAll {ws : List (TagWord π)} {n : String} {i : Nat}
    (h : (ofWords ws).index? n = some i) (more : List (TagWord π)) :
    ((ofWords ws).enterAll more).index? n = some i := by
  rw [enterAll_ofWords, index?_ofWords_eq_some]
  exact getElem?_tagNames_append (index?_ofWords_eq_some.1 h) _

/-- A tag is undefined if a word refers to it and no header defines it. -/
theorem mem_undefined_ofWords {ws : List (TagWord π)} {n : String} :
    n ∈ (ofWords ws).undefined ↔ (∃ w ∈ ws, w.isHeader = false ∧ w.name = n) ∧
      n ≠ noCallTag ∧ ∀ w ∈ ws, w.isHeader = true → w.name ≠ n := by
  rw [undefined_ofWords, mem_missingNames]
  constructor
  · rintro ⟨w, hw, rfl⟩
    obtain ⟨hmem, huse, hmissing⟩ := mem_missing.1 hw
    exact ⟨⟨w, hmem, huse, rfl⟩, hmissing⟩
  · rintro ⟨⟨w, hmem, huse, rfl⟩, hmissing⟩
    exact ⟨w, mem_missing.2 ⟨hmem, huse, hmissing⟩, rfl⟩

/-- Each undefined tag has a first use. -/
theorem filterMap_firstUse?_eq_nil_iff (ws : List (TagWord π)) :
    (ofWords ws).undefined.filterMap (firstUse? ws) = [] ↔ (ofWords ws).undefined = [] := by
  rw [List.filterMap_eq_nil_iff, List.eq_nil_iff_forall_not_mem]
  refine forall_congr' fun n => ⟨fun h hn => ?_, fun h hn => absurd hn h⟩
  obtain ⟨⟨w, hw, huse, hname⟩, -⟩ := mem_undefined_ofWords.1 hn
  rw [firstUse?, Option.map_eq_none_iff, List.find?_eq_none] at h
  exact h hn w hw (by simp [huse, hname])

/-- A table whose parts agree, and which words have made that were all taken, is in order. -/
theorem isIntact_ofWords {ws : List (TagWord Place)} (hagrees : (ofWords ws).Agrees)
    (h : AllTaken ws) : (ofWords ws).IsIntact ws where
  inverse := hagrees
  dense i := by rw [name?_ofWords, size_ofWords, isSome_getElem?]
  size_le := (size_ofWords ws).symm ▸ h.size_le
  baseTags i n hn := by
    rw [← tagNames_nil (π := Place)] at hn
    exact index?_ofWords_eq_some.2 (getElem?_tagNames_append hn ws)
  keeps more n i hi := index?_enterAll hi more
  answer w i t' ht' := by
    have hentered := enter_of_ok ht'
    refine ⟨hentered, ?_⟩
    obtain ⟨e, -, henter⟩ | ⟨-, j, henter, hj⟩ := enter_ofWords ws w
    · rw [henter] at hentered
      cases hentered
    · rw [henter] at hentered
      cases hentered
      exact index?_ofWords_eq_some.2 hj
  refused _ _ := enter_of_error
  error_iff w e := by
    rw [mention_eq_error_iff]
    obtain ⟨e', hrefusal, henter⟩ | ⟨hrefusal, j, henter, -⟩ := enter_ofWords ws w
    · rw [henter, hrefusal, Except.error.injEq, Option.some.injEq]
    · rw [henter, hrefusal]
      constructor <;> rintro ⟨⟩
  once := h.once
  never := h.never
  isDefined_iff _ := isDefined_ofWords
  mem_undefined _ := mem_undefined_ofWords
  first_iff u := by
    rw [firstUndefinedUse, uses_ofWords]
    exact earliest?_eq_some_iff Place.isBefore_asymm Place.isBefore_trans_false
  first_none_iff := by
    rw [firstUndefinedUse, uses_ofWords, earliest?_eq_none_iff, filterMap_firstUse?_eq_nil_iff]

/-- No words make the table of the base tags, whatever places are. -/
theorem base_eq_ofWords_nil : (base : TagTable Place) = ofWords [] := by
  rw [← mapPlace_base (fun _ : Nat => default), base_eq_ofWords, mapPlace_ofWords]
  rfl

/-- No words are all taken. -/
theorem allTaken_nil : AllTaken ([] : List (TagWord π)) where
  size_le := by
    rw [tagNames_nil]
    decide
  once := List.nodup_nil
  never _ hw := absurd hw List.not_mem_nil

/-- **A table of tags is in order after anything**: after any definitions and references, whether
they were taken or refused. -/
theorem intact_enterAll (ws : List (TagWord Place)) :
    (base.enterAll ws).IsIntact (base.taken ws) := by
  have htaken := allTaken_nil.append_taken ws
  have hagrees : (base.enterAll ws).Agrees := agrees_base.enterAll ws
  rw [base_eq_ofWords_nil, enterAll_ofWords] at hagrees ⊢
  exact isIntact_ofWords hagrees htaken

/-- The use of a tag that is defined later does not count, and to define it again is refused. -/
example :
    let ws : List (TagWord Place) :=
      [⟨"later", false, ⟨9, 0, none⟩, none⟩, ⟨"sooner", false, ⟨4, 0, none⟩, none⟩,
        ⟨"early", false, ⟨2, 0, none⟩, none⟩, ⟨"early", true, ⟨5, 0, none⟩, none⟩,
        ⟨"early", true, ⟨6, 0, none⟩, none⟩]
    (base.taken ws).length = 4 ∧
      (base.enterAll ws).firstUndefinedUse Place.isBefore = some ⟨⟨4, 0, none⟩, none⟩ := by
  decide +kernel

end TagTable
end SquareDance
