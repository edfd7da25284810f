/-
# Reports point into the text

A report of a problem at a place names a line of the text or the one after the last, shows that line
and marks a column of it, and names the call that was read last before the place:
`compile_error_pointsInto`.  Here the lines are those of the text itself, and calls are told by the
tokens that stand before the place, not by what the parser had taken when it stopped.

What is read of a text are characters with their places, so places come from the text
(`isPlaceOf_places`).  A token is marked with the last character looked at for it, which is at most
the first of the next token; only brackets are that short, so that a name is marked before all
that follows it (`marks_tokenize`).  Hence the tokens that the parser has left behind are those
before the place, but for some that name no call (`lastCall_before_place`).
-/

import Mathlib.Data.List.DropRight
import SquareDance.Proofs.CallText.LayoutFree
import SquareDance.Proofs.CallText.Stops

namespace SquareDance
namespace CallText

/-! ### Lines -/

/-- Pieces of a text between line feeds, but for an empty one behind the last. -/
def withoutEmptyEnd (pieces : List (List Char)) : List (List Char) :=
  if pieces.getLast? = some [] then pieces.dropLast else pieces

/-- The lines of a text, each ended by a line feed or by the end of the text, without the carriage
returns at their ends. -/
def sourceLines (text : String) : List String :=
  (withoutEmptyEnd (text.toList.splitOn '\n')).map fun line =>
    String.ofList (line.rdropWhile (· = '\r'))

/-- Only the last piece may be left out. -/
theorem withoutEmptyEnd_cons (piece : List Char) {pieces : List (List Char)} (h : pieces ≠ []) :
    withoutEmptyEnd (piece :: pieces) = piece :: withoutEmptyEnd pieces := by
  obtain ⟨p, ps, rfl⟩ := List.exists_cons_of_ne_nil h
  rw [withoutEmptyEnd, withoutEmptyEnd, List.getLast?_cons_cons, List.dropLast_cons_cons]
  split <;> rfl

/-- A line is what is left of its characters without the carriage returns at their end. -/
theorem lineOf_eq (reversed : List Char) :
    lineOf reversed = reversed.reverse.rdropWhile (· = '\r') := by
  rw [lineOf, List.rdropWhile, List.reverse_reverse]

/-- The lines that are read are the pieces of the text.  By induction on the characters, with the
beginning of a line that has no line feed. -/
theorem linesFrom_eq {reversed : List Char} (h : '\n' ∉ reversed) (cs : List Char) :
    linesFrom reversed cs = (withoutEmptyEnd ((reversed.reverse ++ cs).splitOn '\n')).map
      (·.rdropWhile (· = '\r')) := by
  have hreverse : '\n' ∉ reversed.reverse := by rwa [List.mem_reverse]
  induction cs generalizing reversed with
  | nil =>
    rw [linesFrom, List.append_nil, List.splitOn_eq_singleton hreverse]
    cases reversed with
    | nil => rfl
    | cons c rest => simp [withoutEmptyEnd, lineOf_eq]
  | cons c rest ih =>
    rw [linesFrom]
    split
    · rename_i hc
      subst hc
      have hsplit : (reversed.reverse ++ '\n' :: rest).splitOn '\n'
          = reversed.reverse :: rest.splitOn '\n' := by
        refine List.splitOnP_append_cons_of_forall_mem (fun c hc => ?_) _ (by simp) _
        rw [beq_eq_false_iff_ne]
        rintro rfl
        exact hreverse hc
      have hne : rest.splitOn '\n' ≠ [] := List.splitOnP_ne_nil _ _
      rw [hsplit, withoutEmptyEnd_cons _ hne, List.map_cons, lineOf_eq,
        ih List.not_mem_nil List.not_mem_nil]
      rfl
    · rename_i hc
      have hcons : '\n' ∉ c :: reversed := by simpa using ⟨Ne.symm hc, h⟩
      rw [ih hcons (by rwa [List.mem_reverse]), List.reverse_cons, List.append_assoc]
      rfl

/-- **The lines that are read are the lines of the text.** -/
theorem sourceLines_eq (text : String) : sourceLines text = (lines text).map String.ofList := by
  rw [lines, linesFrom_eq List.not_mem_nil, List.map_map]
  rfl

/-! ### Places -/

/-- A place is one of a text with given lines: in a line, or at the end. -/
inductive IsPlaceOf (lines : List (List Char)) : Place → Prop where
  | inside {number column : Nat} {line : List Char} (hline : lines[number]? = some line)
    (hcolumn : column ≤ line.length) : IsPlaceOf lines ⟨number + 1, column, some (.ofList line)⟩
  | atEnd : IsPlaceOf lines (endOf lines)

/-- The places of some lines are places of the text that ends with these lines. -/
theorem isPlaceOf_placesFrom (before lines : List (List Char)) {p : Place}
    (h : p ∈ placesFrom (before.length + 1) lines) : IsPlaceOf (before ++ lines) p := by
  induction lines generalizing before with
  | nil => cases h
  | cons line lines ih =>
    rw [placesFrom, List.mem_append] at h
    obtain h | h := h
    · obtain ⟨column, hcolumn, rfl⟩ := List.mem_map.1 h
      exact .inside (by simp) (Nat.le_of_lt_succ (List.mem_range.1 hcolumn))
    · have hrest := ih (before ++ [line]) (by simpa using h)
      rwa [List.append_assoc] at hrest

/-- **The places of the characters that are read are places of the text.** -/
theorem isPlaceOf_places {lines : List (List Char)} {p : Place}
    (h : p ∈ placesFrom 1 lines ++ [endOf lines]) : IsPlaceOf lines p := by
  obtain h | h := List.mem_append.1 h
  · exact isPlaceOf_placesFrom [] lines h
  · rw [List.mem_singleton.1 h]
    exact .atEnd

/-! ### The marks of tokens -/

/-- An error between tokens is seen at a character, or at the end. -/
theorem skip_error {gap : Gap} {n seen : Nat} {cs : List Char} {e : LexError}
    (h : skip gap n cs = .error (e, seen)) : n < seen ∧ seen ≤ n + cs.length + 1 := by
  induction cs generalizing gap n with
  | nil => cases gap <;> cases h <;> exact ⟨Nat.lt_succ_self _, Nat.le_refl _⟩
  | cons c cs ih =>
    rw [List.length_cons]
    cases gap <;> simp only [skip] at h <;> split_ifs at h <;>
      first
        | (have hrest := ih h; omega)
        | (cases h; omega)

/-- An error in a string is seen at a character, or at the end. -/
theorem takeString_error {reversed : List Char} {size n seen : Nat} {escaped : Bool}
    {cs : List Char} {e : LexError} (h : takeString reversed size escaped n cs = .error (e, seen)) :
    n < seen ∧ seen ≤ n + cs.length + 1 := by
  induction cs generalizing reversed size escaped n with
  | nil =>
    cases h
    exact ⟨Nat.lt_succ_self _, Nat.le_refl _⟩
  | cons c cs ih =>
    rw [List.length_cons]
    simp only [takeString] at h
    split_ifs at h
    · have hrest := ih h
      omega
    · cases h
      omega
    · have hrest := ih h
      omega

/-- An error in a symbol is seen at a character, or at the end. -/
theorem takeSymbol_error {reversed : List Char} {size n seen : Nat} {cs : List Char} {e : LexError}
    (h : takeSymbol reversed size n cs = .error (e, seen)) :
    n < seen ∧ seen ≤ n + cs.length + 1 := by
  induction cs generalizing reversed size n with
  | nil =>
    cases h
    exact ⟨Nat.lt_succ_self _, Nat.le_refl _⟩
  | cons c cs ih =>
    rw [List.length_cons]
    cases cs with
    | nil =>
      simp only [takeSymbol] at h
      split_ifs at h <;> cases h <;> simp
    | cons d cs =>
      rw [takeSymbol] at h
      split_ifs at h
      · cases h
        omega
      · have hrest := ih h
        omega

/-- **Where there is no token** characters are looked at up to one more than there are. -/
theorem seen_of_failure {cs : List Char} {e : LexError} {seen : Nat}
    (h : lexToken cs = .failure e seen) : 0 < seen ∧ seen ≤ cs.length + 1 := by
  unfold lexToken at h
  split at h
  · rename_i hskip
    cases h
    have hseen := skip_error hskip
    omega
  · cases h
  · rename_i n c rest hskip
    have hlength := skip_length hskip
    rw [List.length_cons] at hlength
    split_ifs at h
    · split at h <;> cases h
      rename_i hstring
      have hseen := takeString_error hstring
      omega
    · split at h <;> cases h
      rename_i hsymbol
      have hseen := takeSymbol_error hsymbol
      rw [List.length_cons] at hseen
      omega

/-- The end of a text is seen behind its characters. -/
theorem seen_of_finish {cs : List Char} {seen : Nat} (h : lexToken cs = .finish seen) :
    0 < seen ∧ seen ≤ cs.length + 1 := by
  unfold lexToken at h
  split at h
  · cases h
  · rename_i n hskip
    cases h
    have hlength := skip_length hskip
    rw [List.length_nil] at hlength
    omega
  · split_ifs at h
    · split at h <;> cases h
    · split at h <;> cases h

/-- A string is looked at no further than to its last quote. -/
theorem seen_of_text {cs rest : List Char} {s : String} {width seen : Nat}
    (h : lexToken cs = .token (.text s) width seen rest) : seen = width := by
  obtain ⟨n, mid, -, hbegins⟩ := lexToken_eq_token.1 h
  generalize ht : Token.text s = t at hbegins
  cases hbegins with
  | leftBracket | rightBracket => cases ht
  | text h => rfl
  | symbol =>
    unfold tokenOfSymbol at ht
    split at ht <;> cases ht

/-- A token is marked before a place, or with the place itself if it is no string. -/
def ComesBefore (t : Token × Place) (p : Place) : Prop :=
  t.2.isBefore p = true ∨ t.2 = p ∧ ∀ s, t.1 ≠ .text s

/-- Tokens and their end are marked with some places, in the order of the tokens. -/
structure AreMarked (places : List Place) (ts : List (Token × Place)) (endPlace : Place) :
    Prop where
  mem : ∀ t ∈ ts, t.2 ∈ places
  end_mem : endPlace ∈ places
  pairwise : ts.Pairwise fun t u => ComesBefore t u.2
  end_behind : ∀ t ∈ ts, ComesBefore t endPlace

/-- **Tokens are marked with the places of their characters, in their order**, and so is their end.
By induction on the tokens: those behind a token have no character of it, and no string is marked
with a character behind it. -/
theorem marks_tokensFrom (found : List (Token × Place)) {cs : List Char} {places : List Place}
    (hlength : places.length = cs.length + 1)
    (hplaces : places.Pairwise fun p q => p.isBefore q = true) :
    ∃ ts, (tokensFrom found cs places).tokens = found.reverse ++ ts ∧
      AreMarked places ts (tokensFrom found cs places).endPlace := by
  have hmark : ∀ seen, 0 < seen → seen ≤ cs.length + 1 →
      places[seen - 1]?.getD default ∈ places := by
    intro seen hpos hle
    rw [List.getElem?_eq_getElem (by omega)]
    exact List.getElem_mem _
  fun_induction tokensFrom found cs places with
  | case1 found cs places t width seen rest hlex ih =>
    obtain ⟨hrest, hpos, hle, hseen, hseenLength, -⟩ := counts_lexToken hlex
    have hlength' : (places.drop width).length = rest.length + 1 := by
      rw [List.length_drop]
      omega
    obtain ⟨ts, htokens, hmarked⟩ := ih hlength' (hplaces.sublist (List.drop_sublist _ _))
      fun seen hpos hle => by
        rw [List.getElem?_eq_getElem (by omega)]
        exact List.getElem_mem _
    have hfirst : ∀ p ∈ places.drop width,
        ComesBefore (t, places[seen - 1]?.getD default) p := by
      intro p hp
      obtain ⟨i, hi⟩ := List.mem_iff_getElem?.1 hp
      rw [List.getElem?_drop] at hi
      have hhead : places[seen - 1]? = some (places[seen - 1]?.getD default) := by
        rw [List.getElem?_eq_getElem (by omega)]
        rfl
      rcases Nat.lt_or_ge (seen - 1) (width + i) with hlt | hge
      · exact .inl (rel_of_pairwise hplaces hlt hhead hi)
      · refine .inr ⟨?_, fun s hs => ?_⟩
        · rw [show seen - 1 = width + i by omega, hi]
          rfl
        · cases hs
          have hwidth := seen_of_text hlex
          omega
    refine ⟨(t, places[seen - 1]?.getD default) :: ts, htokens.trans (by simp), ?_⟩
    refine ⟨?_, List.mem_of_mem_drop hmarked.end_mem, ?_, ?_⟩
    · exact List.forall_mem_cons.2 ⟨hmark seen (by omega) (by omega),
        fun u hu => List.mem_of_mem_drop (hmarked.mem u hu)⟩
    · exact List.pairwise_cons.2 ⟨fun u hu => hfirst _ (hmarked.mem u hu), hmarked.pairwise⟩
    · exact List.forall_mem_cons.2 ⟨hfirst _ hmarked.end_mem, hmarked.end_behind⟩
  | case2 found cs places seen hlex =>
    obtain ⟨hpos, hle⟩ := seen_of_finish hlex
    exact ⟨[], by simp, by simp, hmark seen hpos hle, .nil, by simp⟩
  | case3 found cs places e seen hlex =>
    obtain ⟨hpos, hle⟩ := seen_of_failure hlex
    exact ⟨[], by simp, by simp, hmark seen hpos hle, .nil, by simp⟩

/-- The tokens of a text are marked with its places, in their order. -/
theorem marks_tokenize (text : String) :
    AreMarked (placesFrom 1 (lines text) ++ [endOf (lines text)]) (tokenize text).tokens
      (tokenize text).endPlace := by
  have hlength : (placesFrom 1 (lines text) ++ [endOf (lines text)]).length
      = (charsOf (lines text)).length + 1 := by
    rw [List.length_append, length_placesFrom]
    rfl
  obtain ⟨ts, htokens, hmarked⟩ := marks_tokensFrom [] hlength (pairwise_places (lines text))
  rw [tokenize, htokens]
  exact hmarked

/-! ### The call before a place -/

/-- The call whose header is the last one before a place of a text. -/
def callBefore (text : String) (p : Place) : Option String :=
  lastCall (((tokenize text).tokens.filter (·.2.isBefore p)).map (·.1))

/-- Tokens without a string name no call. -/
theorem callNames_eq_nil {ts : List Token} (h : ∀ t ∈ ts, ∀ s, t ≠ .text s)
    (previous : Option Token) : callNames previous ts = [] := by
  induction ts generalizing previous with
  | nil => rfl
  | cons t ts ih =>
    obtain ⟨ht, hts⟩ := List.forall_mem_cons.1 h
    rw [callNames, nameIn?_eq_none ht, ih hts]
    rfl

/-- No place is before itself. -/
theorem Place.isBefore_irrefl (p : Place) : p.isBefore p = false := by
  rw [Bool.eq_false_iff, Ne, Place.isBefore_iff]
  omega

/-- Between two tokens at a place there is no token that stands before it. -/
theorem ComesBefore.eq_place {t u : Token × Place} {p : Place} (ht : t.2 = p)
    (htu : ComesBefore t u.2) (hu : ComesBefore u p) : u.2 = p ∧ ∀ s, u.1 ≠ .text s := by
  obtain hbefore | hplace := hu
  · exfalso
    obtain hbehind | ⟨heq, -⟩ := htu
    · rw [ht] at hbehind
      rw [Place.isBefore_asymm _ _ hbehind] at hbefore
      cases hbefore
    · rw [← heq, ht, Place.isBefore_irrefl] at hbefore
      cases hbefore
  · exact hplace

/-- Tokens that come before a place name the calls that are named before it: those at the place
itself are the last ones, and no strings. -/
theorem callNames_filter {ts : List (Token × Place)} {p : Place}
    (hts : ts.Pairwise fun t u => ComesBefore t u.2) (hp : ∀ t ∈ ts, ComesBefore t p)
    (previous : Option Token) : callNames previous ((ts.filter (·.2.isBefore p)).map (·.1))
      = callNames previous (ts.map (·.1)) := by
  induction ts generalizing previous with
  | nil => rfl
  | cons t ts ih =>
    obtain ⟨hfirst, hts⟩ := List.pairwise_cons.1 hts
    obtain ⟨ht, hp⟩ := List.forall_mem_cons.1 hp
    obtain hbefore | ⟨hplace, hnoText⟩ := ht
    · rw [List.filter_cons, if_pos hbefore, List.map_cons, List.map_cons, callNames, callNames,
        ih hts hp]
    · have hrest : ∀ u ∈ ts, u.2 = p ∧ ∀ s, u.1 ≠ .text s := fun u hu =>
        (hfirst u hu).eq_place hplace (hp u hu)
      have hnone : (t :: ts).filter (·.2.isBefore p) = [] := by
        refine List.filter_eq_nil_iff.2 fun u hu => ?_
        have hu' : u.2 = p := by
          obtain rfl | hu := List.mem_cons.1 hu
          · exact hplace
          · exact (hrest u hu).1
        rw [hu', Place.isBefore_irrefl]
        simp
      have hnoTexts : ∀ u ∈ (t :: ts).map (·.1), ∀ s, u ≠ .text s := by
        rw [List.map_cons, List.forall_mem_cons]
        refine ⟨hnoText, fun u hu => ?_⟩
        obtain ⟨u', hu', rfl⟩ := List.mem_map.1 hu
        exact (hrest u' hu').2
      rw [hnone, callNames_eq_nil hnoTexts]
      rfl

/-- No token from a place on stands before it. -/
theorem filter_isBefore_eq_nil {ts : List (Token × Place)} {p : Place}
    (hts : ts.Pairwise fun t u => ComesBefore t u.2) (hp : ∀ t, ts.head? = some t → t.2 = p) :
    ts.filter (·.2.isBefore p) = [] := by
  cases ts with
  | nil => rfl
  | cons t ts =>
    have ht := hp t rfl
    obtain ⟨hfirst, -⟩ := List.pairwise_cons.1 hts
    refine List.filter_eq_nil_iff.2 fun u hu => ?_
    obtain rfl | hu := List.mem_cons.1 hu
    · rw [ht, Place.isBefore_irrefl]
      simp
    · obtain hbefore | ⟨heq, -⟩ := hfirst u hu
      · rw [ht] at hbefore
        simp [Place.isBefore_asymm _ _ hbefore]
      · rw [← heq, ht, Place.isBefore_irrefl]
        simp

/-- The place that a number of tokens left stands for. -/
theorem placeOf_of_append {t : Tokens} {before after : List (Token × Place)}
    (h : t.tokens = before ++ after) :
    t.placeOf after.length = (after.head?.map (·.2)).getD t.endPlace := by
  have hlength : t.tokens.length - after.length = before.length := by simp [h]
  rw [Tokens.placeOf, hlength, h, List.getElem?_append_right (Nat.le_refl _), Nat.sub_self,
    List.head?_eq_getElem?]

/-- **The call that the parser remembers is the last one before the place** where it stands. -/
theorem callBefore_placeOf {text : String} {left : Nat} {call : Option String}
    (h : Told ((tokenize text).tokens.map (·.1)) left call) :
    call = callBefore text ((tokenize text).placeOf left) := by
  obtain ⟨_, _, hmap, rfl, rfl⟩ := h
  obtain ⟨before, after, htokens, rfl, rfl⟩ := List.map_eq_append_iff.1 hmap
  have hmarked := marks_tokenize text
  have hpairs := hmarked.pairwise
  rw [htokens] at hpairs
  obtain ⟨hbefore, hafter, hacross⟩ := List.pairwise_append.1 hpairs
  rw [List.length_map, placeOf_of_append htokens, callBefore, lastCall, lastCall, htokens,
    List.filter_append, List.map_append]
  cases after with
  | nil =>
    have hend : ∀ t ∈ before, ComesBefore t (tokenize text).endPlace := fun t ht =>
      hmarked.end_behind t (htokens ▸ List.mem_append_left _ ht)
    simp only [List.head?_nil, Option.map_none, Option.getD_none, List.filter_nil, List.map_nil,
      List.append_nil, callNames_filter hbefore hend]
  | cons u after =>
    have hplace : ∀ t ∈ before, ComesBefore t u.2 := fun t ht =>
      hacross t ht u List.mem_cons_self
    have hnone := filter_isBefore_eq_nil hafter (p := u.2) fun t ht => by
      rw [List.head?_cons, Option.some.injEq] at ht
      rw [ht]
    simp only [List.head?_cons, Option.map_some, Option.getD_some, hnone, List.map_nil,
      List.append_nil, callNames_filter hbefore hplace]

/-- A number of tokens left stands for a place of the text. -/
theorem isPlaceOf_placeOf {text : String} (left : Nat) :
    IsPlaceOf (lines text) ((tokenize text).placeOf left) := by
  have hmarked := marks_tokenize text
  refine isPlaceOf_places ?_
  rw [Tokens.placeOf]
  cases htoken : (tokenize text).tokens[(tokenize text).tokens.length - left]? with
  | none => exact hmarked.end_mem
  | some t => exact hmarked.mem t (List.mem_of_getElem? htoken)

/-! ### Reports -/

/-- A report points into a text. -/
structure PointsInto (text : String) (r : Report) : Prop where
  /-- The line is one of the text, or the one after the last. -/
  line : 1 ≤ r.line ∧ r.line ≤ (sourceLines text).length + 1
  /-- A line of the text is shown as it is, and the column is one of it. -/
  inside : r.line ≤ (sourceLines text).length → ∃ line,
    (sourceLines text)[r.line - 1]? = some line ∧ r.sourceLine = some line ∧
      r.column ≤ line.length
  /-- Only behind the last line none is shown. -/
  atEnd : r.sourceLine = none ↔ r.line = (sourceLines text).length + 1
  /-- The call is the one whose header is the last one before the place. -/
  lastCall : r.lastCall = callBefore text ⟨r.line, r.column, r.sourceLine⟩

/-- A report of a problem at a place of a text points into it. -/
theorem pointsInto_placed {text : String} {left : Nat} {call : Option String} (problem : Problem)
    (h : Told ((tokenize text).tokens.map (·.1)) left call) :
    PointsInto text (.placed problem ((tokenize text).placeOf left) call) := by
  have hlength : (sourceLines text).length = (lines text).length := by
    rw [sourceLines_eq, List.length_map]
  have hcall := callBefore_placeOf h
  have hplace : IsPlaceOf (lines text) ((tokenize text).placeOf left) := isPlaceOf_placeOf left
  generalize (tokenize text).placeOf left = p at hcall hplace
  cases hplace with
  | @inside number column line hline hcolumn =>
    have hlt := (List.getElem?_eq_some_iff.1 hline).1
    refine ⟨?_, fun _ => ⟨.ofList line, ?_, rfl, ?_⟩, ?_, hcall⟩
    · simp only [Report.placed, hlength]
      omega
    · simp only [Report.placed, sourceLines_eq, Nat.add_sub_cancel, List.getElem?_map, hline]
      rfl
    · simpa [Report.placed] using hcolumn
    · simp only [Report.placed, hlength, reduceCtorEq, false_iff]
      omega
  | atEnd =>
    refine ⟨?_, fun hle => ?_, ?_, hcall⟩
    · simp only [Report.placed, endOf, hlength]
      omega
    · simp only [Report.placed, endOf, hlength] at hle
      omega
    · simp only [Report.placed, endOf, hlength]

/-- **Reports point into the text.**  A report with a line points into it, and one without a line
shows nothing of it. -/
theorem compile_error_pointsInto {text : String} {r : Report} (h : compile text = .error r) :
    (r.line ≠ 0 → PointsInto text r) ∧
      (r.line = 0 → r.sourceLine = none ∧ r.lastCall = none ∧ r.column = 0) := by
  have placed : ∀ {problem left call}, Told ((tokenize text).tokens.map (·.1)) left call →
      r = .placed problem ((tokenize text).placeOf left) call →
        (r.line ≠ 0 → PointsInto text r) ∧
          (r.line = 0 → r.sourceLine = none ∧ r.lastCall = none ∧ r.column = 0) := by
    rintro problem left call htold rfl
    have hpoints := pointsInto_placed problem htold
    refine ⟨fun _ => hpoints, fun hline => ?_⟩
    have hpos := hpoints.line.1
    omega
  unfold compile at h
  dsimp only at h
  split at h
  · rename_i stop hparse
    cases h
    exact placed (told_of_parse_error hparse) rfl
  · rename_i book tags hparse
    split at h
    · rename_i use huse
      cases h
      obtain ⟨e, he, hfirst⟩ := List.mem_filterMap.1 (TagTable.mem_of_earliest? huse)
      exact placed (toldUses_of_parse hparse e (List.mem_of_mem_filter he) use hfirst) rfl
    · split at h
      · cases h
        exact ⟨fun hline => absurd rfl hline, fun _ => ⟨rfl, rfl, rfl⟩⟩
      · cases h

/-- A text whose second call is at no level, in a line that ends with a carriage return. -/
def unlevelText : String :=
  "version \"7\"\ncall \"circulate\" mainstream\n  nulldefine\ncall \"trade\" mainstreem\r\n"

/-- The report of a word that is no level points at it, behind the last call. -/
theorem compile_error_pointsInto_unlevelText :
    let r : Report :=
      { problem := .unknown "level", line := 4, lastCall := some "trade",
        sourceLine := some "call \"trade\" mainstreem", column := 23 }
    compile unlevelText = .error r ∧ PointsInto unlevelText r := by
  intro r
  have hreport : (match compile unlevelText with
      | .error r' => decide (r' = r)
      | .ok _ => false) = true := by decide +kernel
  have h : compile unlevelText = .error r := by
    cases hout : compile unlevelText with
    | error r' =>
      rw [hout] at hreport
      rw [of_decide_eq_true hreport]
    | ok out =>
      rw [hout] at hreport
      cases hreport
  exact ⟨h, (compile_error_pointsInto h).1 (by decide)⟩

end CallText
end SquareDance
