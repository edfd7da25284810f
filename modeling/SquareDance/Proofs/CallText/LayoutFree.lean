/-
# Texts that differ in their layout

Blanks, comments and line breaks between the tokens of a text do not matter to what is compiled.
Two texts with the same tokens that end in the same way give the same call book, tags, bytes and
cautions, or the same problem after the same call, at the same token: `compile_of_tokens_eq`.

The parser names places by the tokens left, so what could depend on the layout is which use of a
tag without a call is reported, as the earliest one by lines and columns.  A symbol is marked with
the place of the character behind it, and no token before it was looked at as far as that.  So the
places of words come in the order of the words (`pairwise_tokenize`), and the earliest use by
places is the one that is found by the tokens left (`firstUndefinedUse_mapPlace`).
-/

import SquareDance.Proofs.CallText.Lexing
import SquareDance.Proofs.CallText.TagClosure
import SquareDance.Proofs.CallText.TagPlaces

namespace SquareDance
namespace CallText

/-! ### The order of places -/

/-- Places are compared by lines, and within a line by columns. -/
theorem Place.isBefore_iff {p q : Place} : p.isBefore q = true ↔
    p.line < q.line ∨ p.line = q.line ∧ p.column < q.column := by
  simp [isBefore]

/-- Of two places at most one is the earlier. -/
theorem Place.isBefore_asymm (p q : Place) (h : p.isBefore q = true) : q.isBefore p = false := by
  rw [Place.isBefore_iff] at h
  rw [Bool.eq_false_iff, Ne, Place.isBefore_iff]
  omega

/-- The places of a line are on it. -/
theorem line_of_mem_placesOfLine {number : Nat} {line : List Char} {p : Place}
    (h : p ∈ placesOfLine number line) : p.line = number := by
  obtain ⟨column, -, rfl⟩ := List.mem_map.1 h
  rfl

/-- The places of a line come in their order. -/
theorem pairwise_placesOfLine (number : Nat) (line : List Char) :
    (placesOfLine number line).Pairwise fun p q => p.isBefore q = true := by
  refine List.pairwise_map.2 (List.pairwise_lt_range.imp fun {column column'} h => ?_)
  exact Place.isBefore_iff.2 (.inr ⟨rfl, h⟩)

/-- The places of lines are on these lines. -/
theorem line_of_mem_placesFrom {number : Nat} {lines : List (List Char)} {p : Place}
    (h : p ∈ placesFrom number lines) : number ≤ p.line ∧ p.line < number + lines.length := by
  induction lines generalizing number with
  | nil => cases h
  | cons line lines ih =>
    rw [placesFrom, List.mem_append] at h
    rw [List.length_cons]
    obtain h | h := h
    · have hline := line_of_mem_placesOfLine h
      omega
    · have hline := ih h
      omega

/-- The places of lines come in their order. -/
theorem pairwise_placesFrom (number : Nat) (lines : List (List Char)) :
    (placesFrom number lines).Pairwise fun p q => p.isBefore q = true := by
  induction lines generalizing number with
  | nil => exact .nil
  | cons line lines ih =>
    refine List.pairwise_append.2 ⟨pairwise_placesOfLine _ _, ih _, fun p hp q hq => ?_⟩
    have hpline := line_of_mem_placesOfLine hp
    have hqline := (line_of_mem_placesFrom hq).1
    exact Place.isBefore_iff.2 (.inl (by omega))

/-- **The places of a text come in their order**, the end after all of its characters. -/
theorem pairwise_places (lines : List (List Char)) :
    (placesFrom 1 lines ++ [endOf lines]).Pairwise fun p q => p.isBefore q = true := by
  refine List.pairwise_append.2 ⟨pairwise_placesFrom _ _, List.pairwise_singleton _ _, ?_⟩
  intro p hp q hq
  obtain rfl := List.mem_singleton.1 hq
  have hline := (line_of_mem_placesFrom hp).2
  exact Place.isBefore_iff.2 (.inl (show p.line < lines.length + 1 by omega))

/-! ### The order of tokens -/

/-- A place is before that of a token, if the token is a word. -/
def WordBehind (t u : Token × Place) : Prop := (∃ w, u.1 = .word w) → t.2.isBefore u.2 = true

/-- What holds in order holds of any two numbers in order. -/
theorem rel_of_pairwise {α : Type} {R : α → α → Prop} {xs : List α} (h : xs.Pairwise R)
    {i j : Nat} {x y : α} (hij : i < j) (hx : xs[i]? = some x) (hy : xs[j]? = some y) : R x y := by
  obtain ⟨hi, rfl⟩ := List.getElem?_eq_some_iff.1 hx
  obtain ⟨hj, rfl⟩ := List.getElem?_eq_some_iff.1 hy
  exact List.pairwise_iff_getElem.1 h i j hi hj hij

/-- **Tokens are marked in their order.**  By induction on the tokens: those behind a token are
marked with places behind its characters, and words not with the first of these. -/
theorem tokensFrom_ordered (found : List (Token × Place)) {cs : List Char} {places : List Place}
    (hlength : places.length = cs.length + 1)
    (hplaces : places.Pairwise fun p q => p.isBefore q = true) :
    ∃ ts, (tokensFrom found cs places).tokens = found.reverse ++ ts ∧
      (∀ t ∈ ts, ∃ i, places[i]? = some t.2 ∧ ∀ w, t.1 = .word w → 0 < i) ∧
        ts.Pairwise WordBehind := by
  fun_induction tokensFrom found cs places with
  | case1 found cs places t width seen rest hlex ih =>
    obtain ⟨hrest, hpos, hle, hseen, hseenLength, hword⟩ := counts_lexToken hlex
    have hhead : places[seen - 1]? = some (places[seen - 1]?.getD default) := by
      rw [List.getElem?_eq_getElem (by omega)]
      rfl
    obtain ⟨ts, htokens, hmem, hpairs⟩ := ih (by rw [List.length_drop]; omega)
      (hplaces.sublist (List.drop_sublist _ _))
    refine ⟨(t, places[seen - 1]?.getD default) :: ts, htokens.trans (by simp), ?_, ?_⟩
    · refine List.forall_mem_cons.2 ⟨⟨seen - 1, hhead, fun w ht => ?_⟩, fun u hu => ?_⟩
      · have hseen' := hword w ht
        omega
      · obtain ⟨i, hi, -⟩ := hmem u hu
        rw [List.getElem?_drop] at hi
        exact ⟨width + i, hi, fun _ _ => by omega⟩
    · refine List.pairwise_cons.2 ⟨fun u hu => ?_, hpairs⟩
      rintro ⟨w, hw⟩
      obtain ⟨i, hi, hpositive⟩ := hmem u hu
      have hi' := hpositive w hw
      rw [List.getElem?_drop] at hi
      exact rel_of_pairwise hplaces (show seen - 1 < width + i by omega) hhead hi
  | case2 found cs places seen hlex => exact ⟨[], by simp, by simp, .nil⟩
  | case3 found cs places e seen hlex => exact ⟨[], by simp, by simp, .nil⟩

/-- **The places of words come in the order of the tokens.** -/
theorem pairwise_tokenize (text : String) : (tokenize text).tokens.Pairwise WordBehind := by
  have hlength : (placesFrom 1 (lines text) ++ [endOf (lines text)]).length
      = (charsOf (lines text)).length + 1 := by
    rw [List.length_append, length_placesFrom]
    rfl
  obtain ⟨ts, htokens, -, hpairs⟩ := tokensFrom_ordered [] hlength (pairwise_places (lines text))
  rw [tokenize, htokens]
  exact hpairs

/-! ### The earliest use -/

/-- **The earliest use by lines and columns** is the one that is found by the tokens left. -/
theorem firstUndefinedUse_mapPlace {text : String} {b : CallBook} {tags : TagTable Nat}
    (h : parse ((tokenize text).tokens.map (·.1)) (tokenize text).failure = .ok (b, tags)) :
    (tags.mapPlace (tokenize text).placeOf).firstUndefinedUse Place.isBefore
      = (tags.firstUndefinedUse fun p q => q < p).map (·.mapPlace (tokenize text).placeOf) := by
  obtain ⟨ws, htags, -, huse, hws⟩ := exists_words_of_parse h
  have hpairs : (ws.map (·.mapPlace (tokenize text).placeOf)).Pairwise
      fun v w => v.place.isBefore w.place = true := by
    rw [← hws]
    exact pairwise_tagWords (R := fun p q : Place => p.isBefore q = true) _ _
      (pairwise_tokenize text)
  rw [huse, htags, TagTable.mapPlace_ofWords,
    TagTable.firstUndefinedUse_ofWords Place.isBefore_asymm hpairs, missing_mapPlace,
    List.head?_map, Option.map_map, Option.map_map]
  rfl

/-! ### The same tokens -/

/-- What a report says, but for the place. -/
def Report.withoutPlace (r : Report) : Problem × Option String := (r.problem, r.lastCall)

/-- What two texts have in common that differ in their layout. -/
structure SameMeaning (a b : String) : Prop where
  /-- Both give the same, or both the same problem after the same call. -/
  outcome : (compile a).mapError Report.withoutPlace = (compile b).mapError Report.withoutPlace
  /-- Reports belong to the same token of the texts, or to no line. -/
  token : ∀ r r', compile a = .error r → compile b = .error r' → (r = r' ∧ r.line = 0) ∨
    ∃ left, r = .placed r.problem ((tokenize a).placeOf left) r.lastCall ∧
      r' = .placed r.problem ((tokenize b).placeOf left) r.lastCall
  /-- A table with the lines and columns of either text has the same use as its earliest one of
  a tag without a call. -/
  earliest : ∀ book tags, parse ((tokenize a).tokens.map (·.1)) (tokenize a).failure
    = .ok (book, tags) → ∀ text ∈ [a, b],
      (tags.mapPlace (tokenize text).placeOf).firstUndefinedUse Place.isBefore
        = (tags.firstUndefinedUse fun p q => q < p).map (·.mapPlace (tokenize text).placeOf)

/-- What stops the compiler: a problem with some of the tokens left, or one that belongs to no
line. -/
inductive Trouble where
  | placed (problem : Problem) (left : Nat) (lastCall : Option String)
  | unplaced (problem : Problem)

/-- The report of what stops the compiler, where the places are found by the tokens left. -/
def Trouble.report (placeOf : Nat → Place) : Trouble → Report
  | placed problem left lastCall => .placed problem (placeOf left) lastCall
  | unplaced problem => .unplaced problem

/-- What the compiler makes of tokens. -/
def compileTokens (tokens : List Token) (failure : Option LexError) :
    Except Trouble Compilation :=
  match parse tokens failure with
  | .error stop => .error (.placed stop.problem stop.left stop.call)
  | .ok (book, tags) =>
    match tags.firstUndefinedUse fun p q => q < p with
    | some use => .error (.placed (.undefinedTags tags.undefined) use.place use.call)
    | none =>
      match book.toBytes with
      | .error e => .error (.unplaced (.unwritable e))
      | .ok bytes =>
        .ok { book, tags, bytes, cautions := tags.unreferenced.map .unreferencedTag }

/-- **What is compiled is told by the tokens**; only reports ask where the tokens stand. -/
theorem compile_eq_mapError (text : String) : compile text
    = (compileTokens ((tokenize text).tokens.map (·.1)) (tokenize text).failure).mapError
        (Trouble.report (tokenize text).placeOf) := by
  unfold compile compileTokens
  simp only
  generalize parse ((tokenize text).tokens.map (·.1)) (tokenize text).failure = out
  cases out with
  | error stop => rfl
  | ok parsed =>
    obtain ⟨book, tags⟩ := parsed
    dsimp only
    generalize (tags.firstUndefinedUse fun p q => q < p) = use
    cases use with
    | some use => rfl
    | none =>
      dsimp only
      generalize book.toBytes = bytes
      cases bytes with
      | error e => rfl
      | ok bytes => rfl

/-- A report of the same trouble says the same wherever the tokens stand. -/
theorem withoutPlace_report (out : Except Trouble Compilation) (f g : Nat → Place) :
    (out.mapError (Trouble.report f)).mapError Report.withoutPlace
      = (out.mapError (Trouble.report g)).mapError Report.withoutPlace := by
  match out with
  | .ok c => rfl
  | .error (.placed problem left lastCall) => rfl
  | .error (.unplaced problem) => rfl

/-- A report is that of what stops the compiler at its tokens. -/
theorem exists_trouble_of_compile {text : String} {r : Report} (h : compile text = .error r) :
    ∃ trouble, compileTokens ((tokenize text).tokens.map (·.1)) (tokenize text).failure
      = .error trouble ∧ trouble.report (tokenize text).placeOf = r := by
  rw [compile_eq_mapError] at h
  generalize compileTokens ((tokenize text).tokens.map (·.1)) (tokenize text).failure = out at h ⊢
  cases out with
  | ok c => cases h
  | error trouble =>
    cases h
    exact ⟨trouble, rfl, rfl⟩

/-- **The layout of a text does not matter.**  Two texts with the same tokens that end in the same
way mean the same. -/
theorem compile_of_tokens_eq {a b : String}
    (htokens : (tokenize a).tokens.map (·.1) = (tokenize b).tokens.map (·.1))
    (hfailure : (tokenize a).failure = (tokenize b).failure) : SameMeaning a b := by
  refine ⟨?_, fun r r' hr hr' => ?_, fun book tags hparse text htext => ?_⟩
  · rw [compile_eq_mapError a, compile_eq_mapError b, htokens, hfailure]
    exact withoutPlace_report _ _ _
  · obtain ⟨trouble, htrouble, rfl⟩ := exists_trouble_of_compile hr
    obtain ⟨trouble', htrouble', rfl⟩ := exists_trouble_of_compile hr'
    rw [← htokens, ← hfailure, htrouble] at htrouble'
    cases htrouble'
    cases trouble with
    | placed problem left lastCall => exact .inr ⟨left, rfl, rfl⟩
    | unplaced problem => exact .inl ⟨rfl, rfl⟩
  · obtain rfl | rfl : text = a ∨ text = b := by simpa using htext
    · exact firstUndefinedUse_mapPlace hparse
    · rw [htokens, hfailure] at hparse
      exact firstUndefinedUse_mapPlace hparse

/-- A text that uses a tag without a call in its second line, and the same with a comment. -/
def spreadText : String :=
  "version \"closure\" // two calls\ncall \"sweep and trade\"\n  plus seq\tsweep[]\n  seq trade []"

/-- Two layouts of a text that uses a tag without a call have the same meaning. -/
theorem compile_of_tokens_eq_unclosedText :
    (tokenize unclosedText).tokens.map (·.1) = (tokenize spreadText).tokens.map (·.1) ∧
      (tokenize unclosedText).failure = (tokenize spreadText).failure ∧
        SameMeaning unclosedText spreadText := by
  have htokens : (tokenize unclosedText).tokens.map (·.1)
      = (tokenize spreadText).tokens.map (·.1) := by decide +kernel
  have hfailure : (tokenize unclosedText).failure = (tokenize spreadText).failure := by
    decide +kernel
  exact ⟨htokens, hfailure, compile_of_tokens_eq htokens hfailure⟩

end CallText
end SquareDance
