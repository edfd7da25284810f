/-
# The closure of tags

A definition may refer to a tag before the call that it belongs to, so that it is known only
when the whole text has been read whether each tag that is used has a call.  What becomes of a
text that has a meaning is told by its words that name tags, as `textTagWords` finds them from
left to right: `ClosesTags` says which tags are reported as undefined and where, that
otherwise each tag stands for one call, and which tags one is cautioned about.

Main statement: `compile_closesTags`.
-/

import SquareDance.Proofs.CallText.Compiled
import SquareDance.Proofs.CallText.Mentions

namespace SquareDance
namespace CallText

/-! ### Missing words -/

/-- **What it is to be missing**: the word refers to a tag, other than that of no call, that no
head of a call defines. -/
theorem mem_missing {π : Type} {ws : List (TagWord π)} {w : TagWord π} :
    w ∈ missing ws ↔ w ∈ ws ∧ w.isHeader = false ∧ w.name ≠ noCallTag ∧
      ∀ v ∈ ws, v.isHeader = true → v.name ≠ w.name := by
  simp only [missing, List.mem_filter, defines, Bool.and_eq_true, Bool.not_eq_true', bne_iff_ne,
    List.any_eq_false, beq_iff_eq, not_and]

/-- The missing names are those of the missing words. -/
theorem mem_missingNames {π : Type} {ws : List (TagWord π)} {n : String} :
    n ∈ missingNames ws ↔ ∃ w ∈ missing ws, w.name = n := by
  rw [missingNames, List.mem_filter, List.contains_iff_mem, List.mem_map, and_iff_right_iff_imp]
  rintro ⟨w, hw, rfl⟩
  exact mem_tagNames.2 (.inr ⟨w, (mem_missing.1 hw).1, rfl⟩)

/-! ### Tags of a book -/

/-- What is related to a list one for one is related in each of its members. -/
theorem exists_of_forall₂ {α β : Type} {R : α → β → Prop} {xs : List α} {ys : List β}
    (h : List.Forall₂ R xs ys) {x : α} (hx : x ∈ xs) : ∃ y ∈ ys, R x y := by
  induction h with
  | nil => cases hx
  | cons hxy _ ih =>
    obtain rfl | hx := List.mem_cons.1 hx
    · exact ⟨_, List.mem_cons_self, hxy⟩
    · obtain ⟨y, hy, hR⟩ := ih hx
      exact ⟨y, List.mem_cons_of_mem _ hy, hR⟩

/-- What a body of a call refers to is mentioned. -/
theorem mem_mentions_of_reference {b : CallBook} {c : Call} {body : CallBody} {t : TagId}
    (hc : c ∈ b.calls) (hb : body ∈ c.bodies) (ht : t ∈ body.definition.tags) :
    ⟨false, t⟩ ∈ b.mentions :=
  List.mem_flatMap.2 ⟨c, hc, List.mem_append_right _
    (List.mem_flatMap.2 ⟨body, hb, List.mem_map_of_mem ht⟩)⟩

/-- What is mentioned as a header is the tag of a call. -/
theorem mem_tags_of_header {b : CallBook} {t : TagId} (h : ⟨true, t⟩ ∈ b.mentions) :
    t ∈ b.calls.filterMap (·.tag) := by
  obtain ⟨c, hc, h⟩ := List.mem_flatMap.1 h
  obtain h | h := List.mem_append.1 h
  · obtain ⟨t', ht, heq⟩ := List.mem_map.1 h
    cases heq
    exact List.mem_filterMap.2 ⟨c, hc, Option.mem_toList.1 ht⟩
  · obtain ⟨body, -, h⟩ := List.mem_flatMap.1 h
    obtain ⟨_, -, heq⟩ := List.mem_map.1 h
    cases heq

/-- Tags with one name are one. -/
theorem tag_eq_of_name {π : Type} {ws : List (TagWord π)} {t t' : TagId} {n : String}
    (h : (tagNames ws)[t.toNat]? = some n) (h' : (tagNames ws)[t'.toNat]? = some n) : t = t' := by
  have hlt : t.toNat < (tagNames ws).length := (List.getElem?_eq_some_iff.1 h).1
  exact UInt16.toNat_inj.1 ((List.getElem?_inj hlt (nodup_tagNames ws)).1 (h.trans h'.symm))

/-- The tag of no call has the number 0. -/
theorem tagNames_zero {π : Type} (ws : List (TagWord π)) :
    (tagNames ws)[(0 : TagId).toNat]? = some noCallTag := by
  have hbase : (tagNames ([] : List (TagWord π)))[(0 : TagId).toNat]? = some noCallTag := by
    rw [tagNames, List.map_nil, List.append_nil]
    decide +kernel
  exact getElem?_tagNames_append hbase ws

/-- **Where no word is missing each tag of a definition is that of a call**, or of none. -/
theorem mem_tags_of_missing_eq_nil {π : Type} {ws : List (TagWord π)} {b : CallBook}
    (hmentions : List.Forall₂ (IsMentionOf ws) b.mentions ws) (hmissing : missing ws = [])
    {t : TagId} (ht : ⟨false, t⟩ ∈ b.mentions) : t = 0 ∨ t ∈ b.calls.filterMap (·.tag) := by
  obtain ⟨w, hw, hname⟩ := exists_of_forall₂ hmentions ht
  have hnot : w ∉ missing ws := by rw [hmissing]; exact List.not_mem_nil
  rw [mem_missing] at hnot
  by_cases hzero : w.name = noCallTag
  · exact .inl (tag_eq_of_name hname.name (hzero ▸ tagNames_zero ws))
  · by_cases hdefined : ∃ v ∈ ws, v.isHeader = true ∧ v.name = w.name
    · obtain ⟨v, hv, hheader, hsame⟩ := hdefined
      obtain ⟨m, hm, hmv⟩ := exists_of_forall₂ hmentions.flip hv
      obtain ⟨isHeader, t'⟩ := m
      have hisHeader : isHeader = true := hmv.isHeader.trans hheader
      have htag : t' = t := tag_eq_of_name (hsame ▸ hmv.name) hname.name
      rw [hisHeader, htag] at hm
      exact .inr (mem_tags_of_header hm)
    · refine absurd ⟨hw, hname.isHeader.symm, hzero, fun v hv hheader hsame => ?_⟩ hnot
      exact hdefined ⟨v, hv, hheader, hsame⟩

/-! ### Compiling -/

/-- What compiling a text has to do with its words that name tags, where the text means a call
book with a table of tags. -/
structure ClosesTags (text : String) (b : CallBook) (tags : TagTable Nat) : Prop where
  /-- The tags that the book mentions are those of the words, one for one. -/
  mentions : List.Forall₂ (IsMentionOf (textTagWords text)) b.mentions (textTagWords text)
  /-- The table has the base tags first, and then those of the words by their first mention. -/
  table : ∀ i, tags.name? i = (tagNames (textTagWords text))[i]?
  /-- Undefined tags are reported just if a word refers to a tag, other than that of no call,
  that no head of a call defines. -/
  fails_iff : (∃ r names, compile text = .error r ∧ r.problem = .undefinedTags names) ↔
    ∃ w ∈ textTagWords text, w.isHeader = false ∧ w.name ≠ noCallTag ∧
      ∀ v ∈ textTagWords text, v.isHeader = true → v.name ≠ w.name
  /-- They are reported each once, in the order of the table, at the first of these words. -/
  report : ∀ w, (missing (textTagWords text)).head? = some w → compile text =
    .error (.placed (.undefinedTags (missingNames (textTagWords text))) w.place w.call)
  /-- The tags in the report are those of the missing words. -/
  names : (missingNames (textTagWords text)).Nodup ∧ ∀ n,
    n ∈ missingNames (textTagWords text) ↔ ∃ w ∈ missing (textTagWords text), w.name = n
  /-- Else each tag that a definition refers to is 0 or that of just one call. -/
  resolved : ∀ c, compile text = .ok c → ∀ call ∈ c.book.calls, ∀ body ∈ call.bodies,
    ∀ t ∈ body.definition.tags, t = 0 ∨ c.book.calls.countP (·.tag == some t) = 1
  /-- One is cautioned about the tags other than base tags that a head defines and no
  definition refers to, in the order of their first mention. -/
  cautions : ∀ c, compile text = .ok c →
    c.cautions = (idleNames (textTagWords text)).map .unreferencedTag

section Parsed

variable {text : String} {b : CallBook} {tags : TagTable Nat}
  (h : parse ((tokenize text).tokens.map (·.1)) (tokenize text).failure = .ok (b, tags))

include h

/-- The table of a text is that of its words, found by the numbers of tokens left. -/
theorem exists_words_of_parse : ∃ ws : List (TagWord Nat), tags = .ofWords ws ∧
    List.Forall₂ (IsMentionOf ws) b.mentions ws ∧
      (tags.firstUndefinedUse (fun a b => b < a) = (missing ws).head?.map (·.use)) ∧
        textTagWords text = ws.map (·.mapPlace (tokenize text).placeOf) := by
  obtain ⟨rest, hbook⟩ := book_of_parse h
  obtain ⟨rfl, hmentions⟩ := Parser.of_book_mentions rfl hbook
  refine ⟨_, rfl, hmentions, ?_, textTagWords_eq text⟩
  refine TagTable.firstUndefinedUse_ofWords (by simpa using fun _ _ => Nat.le_of_lt) ?_
  exact pairwise_tagWords (R := fun p q => decide (q < p) = true) _ _
    ((pairwise_numbered _).imp fun hlt _ => decide_eq_true hlt)

/-- The mentions of the call book are the words of the text, one for one. -/
theorem mentions_of_parse :
    List.Forall₂ (IsMentionOf (textTagWords text)) b.mentions (textTagWords text) := by
  obtain ⟨ws, -, hmentions, -, hws⟩ := exists_words_of_parse h
  rw [hws, List.forall₂_map_right_iff]
  refine hmentions.imp fun m w hm => ⟨hm.isHeader, ?_⟩
  rw [tagNames_mapPlace]
  exact hm.name

/-- **A missing word is reported**, the first one with all of their tags. -/
theorem compile_of_missing {w : TagWord Place}
    (hw : (missing (textTagWords text)).head? = some w) : compile text =
      .error (.placed (.undefinedTags (missingNames (textTagWords text))) w.place w.call) := by
  obtain ⟨ws, rfl, -, huse, hws⟩ := exists_words_of_parse h
  rw [hws, missing_mapPlace, List.head?_map, Option.map_eq_some_iff] at hw
  obtain ⟨v, hv, rfl⟩ := hw
  rw [hv, Option.map_some] at huse
  unfold compile
  simp only [h, huse]
  rw [TagTable.undefined_ofWords, hws, missingNames_mapPlace]
  rfl

/-- **Where no word is missing no tags are reported as undefined.** -/
theorem problem_ne_of_missing_eq_nil (hmissing : missing (textTagWords text) = []) {r : Report}
    (hr : compile text = .error r) (names : List String) : r.problem ≠ .undefinedTags names := by
  obtain ⟨ws, rfl, -, huse, hws⟩ := exists_words_of_parse h
  rw [hws, missing_mapPlace, List.map_eq_nil_iff] at hmissing
  rw [hmissing, List.head?_nil, Option.map_none] at huse
  unfold compile at hr
  simp only [h, huse] at hr
  split at hr <;> cases hr
  exact nofun

/-- The tags of the table are the names of the words, in the order of first mention. -/
theorem name?_of_parse (i : Nat) : tags.name? i = (tagNames (textTagWords text))[i]? := by
  obtain ⟨ws, rfl, -, -, hws⟩ := exists_words_of_parse h
  rw [TagTable.name?_ofWords, hws, tagNames_mapPlace]

/-- **Undefined tags are reported just if a word is missing.** -/
theorem undefinedTags_iff :
    (∃ r names, compile text = .error r ∧ r.problem = .undefinedTags names) ↔
      ∃ w, w ∈ missing (textTagWords text) := by
  constructor
  · rintro ⟨r, names, hr, hproblem⟩
    have hne : missing (textTagWords text) ≠ [] := fun hnil =>
      problem_ne_of_missing_eq_nil h hnil hr names hproblem
    exact List.exists_mem_of_ne_nil _ hne
  · rintro ⟨w, hw⟩
    obtain ⟨v, hv⟩ := Option.ne_none_iff_exists'.1
      (mt List.head?_eq_none_iff.1 (List.ne_nil_of_mem hw))
    exact ⟨_, _, compile_of_missing h hv, rfl⟩

end Parsed

section Compiled

variable {text : String} {c : Compilation} (hc : compile text = .ok c)

include hc

/-- What compiles to something has no missing words. -/
theorem missing_eq_nil_of_compile : missing (textTagWords text) = [] := by
  obtain ⟨hparse, -⟩ := compile_eq_ok hc
  cases hmissing : missing (textTagWords text) with
  | nil => rfl
  | cons w more =>
    rw [compile_of_missing hparse (by rw [hmissing]; rfl)] at hc
    cases hc

/-- **Each tag that a compiled definition refers to is 0 or that of just one call.** -/
theorem countP_tag_of_compile {call : Call} (hcall : call ∈ c.book.calls) {body : CallBody}
    (hbody : body ∈ call.bodies) {t : TagId} (ht : t ∈ body.definition.tags) :
    t = 0 ∨ c.book.calls.countP (·.tag == some t) = 1 := by
  obtain ⟨hparse, -⟩ := compile_eq_ok hc
  obtain ⟨rest, hbook⟩ := book_of_parse hparse
  obtain hzero | hmem := mem_tags_of_missing_eq_nil (mentions_of_parse hparse)
    (missing_eq_nil_of_compile hc) (mem_mentions_of_reference hcall hbody ht)
  · exact .inl hzero
  · rw [← List.count_filterMap]
    exact .inr (List.count_eq_one_of_mem (Parser.of_book hbook).tags_nodup hmem)

/-- One is cautioned about the tags that are defined in vain. -/
theorem cautions_of_compile :
    c.cautions = (idleNames (textTagWords text)).map .unreferencedTag := by
  obtain ⟨hparse, -, -, hcautions⟩ := compile_eq_ok hc
  obtain ⟨ws, htags, -, -, hws⟩ := exists_words_of_parse hparse
  rw [hcautions, htags, TagTable.unreferenced_ofWords, hws, idleNames_mapPlace]

end Compiled

/-- **The tags of a text are closed.**  A text that has a meaning fails for undefined tags just
if one of its words is missing, and then the report lists the tags of all of them in the order
of the table and is placed at the first; if it compiles, each tag that a definition refers to
is 0 or that of just one call, and the cautions are about the tags that are defined in vain. -/
theorem compile_closesTags {text : String} {b : CallBook} {tags : TagTable Nat}
    (h : parse ((tokenize text).tokens.map (·.1)) (tokenize text).failure = .ok (b, tags)) :
    ClosesTags text b tags where
  mentions := mentions_of_parse h
  table := name?_of_parse h
  fails_iff := (undefinedTags_iff h).trans (exists_congr fun _ => mem_missing)
  report _ hw := compile_of_missing h hw
  names := ⟨(nodup_tagNames _).filter _, fun _ => mem_missingNames⟩
  resolved _ hc _ hcall _ hbody _ ht := countP_tag_of_compile hc hcall hbody ht
  cautions _ hc := cautions_of_compile hc

/-- A text that uses a base tag and another one without defining them. -/
def unclosedText : String :=
  "version \"closure\" call \"sweep and trade\" plus seq sweep [] seq trade []"

/-- A text that uses two tags without a call misses both of them. -/
theorem compile_closesTags_unclosedText : ∃ b tags,
    parse ((tokenize unclosedText).tokens.map (·.1)) (tokenize unclosedText).failure
        = .ok (b, tags) ∧
      missingNames (textTagWords unclosedText) = ["trade", "sweep"] ∧
        ClosesTags unclosedText b tags := by
  have hsome : (parse ((tokenize unclosedText).tokens.map (·.1))
      (tokenize unclosedText).failure).toOption.isSome = true := by decide +kernel
  have hnames : missingNames (textTagWords unclosedText) = ["trade", "sweep"] := by
    decide +kernel
  cases hp : parse ((tokenize unclosedText).tokens.map (·.1)) (tokenize unclosedText).failure with
  | error e =>
    rw [hp] at hsome
    cases hsome
  | ok p => exact ⟨p.1, p.2, rfl, hnames, compile_closesTags hp⟩

end CallText
end SquareDance
