/-
# Texts that go on

When lines are added to a text, the tokens of the lines follow those of the text, if the text ends
where its tokens end (`tokenize_lines`).  For the tokens it does not matter how many characters
were looked at before, and a token that was found is found with any characters behind it.  The
blanks that the text ended with stand before the first token of the lines.

So a text of call definitions may go on with more calls in further lines.  The call book of the
longer text has the same version and begins with the same calls, and the tags of the text keep
their numbers: `parse_lines`.
-/

import SquareDance.Proofs.CallText.Continuing
import SquareDance.Proofs.CallText.Heard
import SquareDance.Proofs.CallText.Lexing
import SquareDance.Proofs.CallText.TagClosure

namespace SquareDance
namespace CallText

/-! ### Characters -/

/-- A line feed ends the line, whatever comes behind it. -/
theorem endsLine_append (cs ds : List Char) : endsLine (cs ++ '\n' :: ds) = endsLine cs := by
  induction cs with
  | nil => simp [endsLine]
  | cons c cs ih =>
    by_cases hc : c = '\r'
    · rw [hc, List.cons_append, endsLine_return, endsLine_return, ih]
    · rw [List.cons_append, endsLine_cons hc, endsLine_cons hc]

/-- **What is read of the lines of two texts**: what is read of each, and perhaps an empty line
between them. -/
theorem heard_append (begun : Bool) (cs ds : List Char) : ∃ blank, (blank = [] ∨ blank = ['\n']) ∧
    heard begun (cs ++ '\n' :: ds) = heard begun cs ++ (blank ++ heard false ds) := by
  induction cs generalizing begun with
  | nil =>
    rw [List.nil_append, heard_lineFeed]
    cases begun with
    | false => exact ⟨['\n'], .inr rfl, rfl⟩
    | true => exact ⟨[], .inl rfl, rfl⟩
  | cons c cs ih =>
    rw [List.cons_append, heard, heard, endsLine_append]
    split
    · obtain ⟨blank, hblank, h⟩ := ih false
      exact ⟨blank, hblank, by rw [h, List.cons_append]⟩
    · obtain ⟨blank, hblank, h⟩ := ih true
      refine ⟨blank, hblank, ?_⟩
      split
      · exact h
      · rw [h, List.cons_append]

/-! ### All tokens -/

/-- The tokens of characters, and how they end. -/
def tokensOf (cs : List Char) : List Token × Option LexError :=
  match _h : lexToken cs with
  | .token t _ _ rest => (t :: (tokensOf rest).1, (tokensOf rest).2)
  | .finish _ => ([], none)
  | .failure e _ => ([], some e)
termination_by cs.length
decreasing_by all_goals exact length_lexToken_lt ‹_›

/-- The tokens of characters are the first one and those of the rest. -/
theorem tokensOf_eq (cs : List Char) : tokensOf cs = match lexToken cs with
    | .token t _ _ rest => (t :: (tokensOf rest).1, (tokensOf rest).2)
    | .finish _ => ([], none)
    | .failure e _ => ([], some e) := by
  rw [tokensOf]
  split <;> simp_all

/-- The tokens without their places. -/
theorem tokensFrom_eq_tokensOf (found : List (Token × Place)) (cs : List Char)
    (places : List Place) :
    (tokensFrom found cs places).tokens.map (·.1) = (found.map (·.1)).reverse ++ (tokensOf cs).1 ∧
      (tokensFrom found cs places).failure = (tokensOf cs).2 := by
  fun_induction tokensFrom found cs places with
  | case1 found cs places t width seen rest hlex ih =>
    rw [tokensOf_eq, hlex]
    exact ⟨ih.1.trans (by simp), ih.2⟩
  | case2 found cs places seen hlex =>
    rw [tokensOf_eq, hlex]
    simp
  | case3 found cs places e seen hlex =>
    rw [tokensOf_eq, hlex]
    simp

/-- What is skipped in front of the tokens does not matter. -/
theorem tokensOf_append_of_finish {cs : List Char} {seen : Nat} (h : lexToken cs = .finish seen)
    (ds : List Char) : tokensOf (cs ++ ds) = tokensOf ds := by
  obtain ⟨k, hk⟩ := lexToken_append_of_finish h ds
  rw [tokensOf_eq, hk, tokensOf_eq ds]
  cases lexToken ds <;> rfl

/-- **The tokens of characters that end without a failure** come before those of the characters
behind.  By induction on the tokens. -/
theorem tokensOf_append {cs : List Char} (h : (tokensOf cs).2 = none) (ds : List Char) :
    tokensOf (cs ++ ds) = ((tokensOf cs).1 ++ (tokensOf ds).1, (tokensOf ds).2) := by
  fun_induction tokensOf cs with
  | case1 cs t width seen rest hlex ih =>
    rw [tokensOf_eq, lexToken_append hlex]
    simp only
    rw [ih h]
    rfl
  | case2 cs seen hlex => rw [tokensOf_append_of_finish hlex, List.nil_append]
  | case3 cs e seen hlex => cases h

/-- The tokens of a text are those of the characters that are read of it. -/
theorem tokenize_eq_tokensOf (text : String) :
    (tokenize text).tokens.map (·.1) = (tokensOf (heard false text.toList)).1 ∧
      (tokenize text).failure = (tokensOf (heard false text.toList)).2 := by
  rw [← charsOf_lines]
  exact tokensFrom_eq_tokensOf [] _ _

/-- **The tokens of the lines of two texts** are those of one and then those of the other. -/
theorem tokenize_lines {s : String} (hs : (tokenize s).failure = none) (t : String) :
    (tokenize (s ++ "\n" ++ t)).tokens.map (·.1)
        = (tokenize s).tokens.map (·.1) ++ (tokenize t).tokens.map (·.1) ∧
      (tokenize (s ++ "\n" ++ t)).failure = (tokenize t).failure := by
  have hblank : lexToken ['\n'] = .finish 2 := rfl
  have hchars : (s ++ "\n" ++ t).toList = s.toList ++ '\n' :: t.toList := by
    simp only [String.toList_append, List.append_assoc]
    rfl
  obtain ⟨blank, hblanks, hheard⟩ := heard_append false s.toList t.toList
  rw [(tokenize_eq_tokensOf s).2] at hs
  have htokens : tokensOf (heard false (s ++ "\n" ++ t).toList)
      = ((tokensOf (heard false s.toList)).1 ++ (tokensOf (heard false t.toList)).1,
        (tokensOf (heard false t.toList)).2) := by
    rw [hchars, hheard, tokensOf_append hs]
    obtain rfl | rfl := hblanks
    · rfl
    · rw [tokensOf_append_of_finish hblank]
  rw [(tokenize_eq_tokensOf _).1, (tokenize_eq_tokensOf _).2, (tokenize_eq_tokensOf s).1,
    (tokenize_eq_tokensOf t).1, (tokenize_eq_tokensOf t).2, htokens]
  exact ⟨rfl, rfl⟩

/-! ### Tags -/

/-- The words of tokens that name tags come before those of the tokens behind. -/
theorem tagWords_append {π : Type} (s : Stage) (call : Option String) (ts : List (Token × π)) :
    ∃ s' call', ∀ us, tagWords s call (ts ++ us) = tagWords s call ts ++ tagWords s' call' us := by
  induction ts generalizing s call with
  | nil => exact ⟨s, call, fun _ => rfl⟩
  | cons t ts ih =>
    obtain ⟨t, place⟩ := t
    obtain ⟨s', call', h⟩ := ih (s.next t) (callAfter call s t)
    refine ⟨s', call', fun us => ?_⟩
    rw [List.cons_append, tagWords, tagWords, h, List.append_assoc]

/-- The tags of a text can be told from its tokens without their places. -/
theorem tagNames_textTagWords (text : String) : tagNames (textTagWords text)
    = tagNames (tagWords .plain none (((tokenize text).tokens.map (·.1)).map (·, ()))) := by
  rw [List.map_map]
  exact (congrArg tagNames (tagWords_map (fun _ => ()) _ _ _)).trans (tagNames_mapPlace _ _)
    |>.symm

/-- **The tags of a text keep their numbers** where it goes on. -/
theorem tagNames_lines {s : String} (hs : (tokenize s).failure = none) (t : String) :
    tagNames (textTagWords s) <+: tagNames (textTagWords (s ++ "\n" ++ t)) := by
  rw [tagNames_textTagWords, tagNames_textTagWords, (tokenize_lines hs t).1, List.map_append]
  obtain ⟨s', call', hwords⟩ := tagWords_append (π := Unit) .plain none
    (((tokenize s).tokens.map (·.1)).map (·, ()))
  rw [hwords]
  exact tagNames_prefix_append _ _

/-! ### Call books -/

/-- What is no error is something. -/
theorem exists_of_isOk {ε α : Type} {x : Except ε α} (h : x.isOk = true) : ∃ a, x = .ok a := by
  cases x with
  | error e => cases h
  | ok a => exact ⟨a, rfl⟩

/-- **Adding calls in further lines is stable.**  Where a text of call definitions goes on with
calls, the call book has the same version and begins with the same calls, the tags keep their
numbers, and there are no fewer of them. -/
theorem parse_lines {s t : String} {b b' : CallBook} {tags tags' : TagTable Nat}
    (hs : parse ((tokenize s).tokens.map (·.1)) (tokenize s).failure = .ok (b, tags))
    (ht : ((tokenize t).tokens.map (·.1)).head? = some (.word "call"))
    (h : parse ((tokenize (s ++ "\n" ++ t)).tokens.map (·.1)) (tokenize (s ++ "\n" ++ t)).failure
      = .ok (b', tags')) :
    b'.version = b.version ∧ b.calls <+: b'.calls ∧
      (∀ name i, tags.index? name = some i → tags'.index? name = some i) ∧
        b.tagCount ≤ b'.tagCount := by
  obtain ⟨rest, hbook⟩ := book_of_parse hs
  obtain ⟨rest', hbook'⟩ := book_of_parse h
  have hfailure := Parser.failure_eq_none_of_book hbook
  have hnames := tagNames_lines hfailure t
  obtain ⟨ws, htags, -, -, hws⟩ := exists_words_of_parse hs
  obtain ⟨ws', htags', -, -, hws'⟩ := exists_words_of_parse h
  rw [hws, tagNames_mapPlace, hws', tagNames_mapPlace] at hnames
  have hcount := (Parser.of_book hbook).tagCount
  have hcount' := (Parser.of_book hbook').tagCount
  obtain ⟨htokens, htokensFailure⟩ := tokenize_lines hfailure t
  rw [htokens, htokensFailure] at hbook'
  let q : Sequel := ⟨(tokenize t).tokens.map (·.1), (tokenize t).failure, ht⟩
  have hbefore : ∀ ts e, Reading.before { tokens := ts, failure := e } q
      = { tokens := ts ++ q.tokens, failure := q.failure } := fun ts e => by
    rw [Reading.before, TagTable.mapPlace_base]
  obtain ⟨hversion, hcalls⟩ := Parser.book_before hbook ((hbefore _ _).symm ▸ hbook')
  refine ⟨hversion, hcalls, fun name i hi => ?_, ?_⟩
  · rw [htags, TagTable.index?_ofWords_eq_some] at hi
    rw [htags', TagTable.index?_ofWords_eq_some]
    exact getElem?_of_prefix hnames hi
  · rw [UInt16.le_iff_toNat_le, hcount, hcount', htags, htags', TagTable.size_ofWords,
      TagTable.size_ofWords]
    exact hnames.length_le

/-- A call that is not tagged refers to a tag. -/
def shortText : String := "version \"1\" call \"a\" plus seq b []"

/-- More calls, of which the first has the tag. -/
def moreText : String := "call \"b\" plus tag b nulldefine call \"c\" plus tag c seq b []"

/-- A text goes on with the call that it refers to, and with another one. -/
theorem parse_lines_shortText : ∃ b b' tags tags',
    parse ((tokenize shortText).tokens.map (·.1)) (tokenize shortText).failure = .ok (b, tags) ∧
      ((tokenize moreText).tokens.map (·.1)).head? = some (.word "call") ∧
      parse ((tokenize (shortText ++ "\n" ++ moreText)).tokens.map (·.1))
        (tokenize (shortText ++ "\n" ++ moreText)).failure = .ok (b', tags') ∧
      b'.version = b.version ∧ b.calls <+: b'.calls ∧
        (∀ name i, tags.index? name = some i → tags'.index? name = some i) ∧
          b.tagCount ≤ b'.tagCount := by
  obtain ⟨⟨b, tags⟩, hs⟩ : ∃ out, parse ((tokenize shortText).tokens.map (·.1))
      (tokenize shortText).failure = .ok out := exists_of_isOk (by decide +kernel)
  obtain ⟨⟨b', tags'⟩, h⟩ : ∃ out, parse
      ((tokenize (shortText ++ "\n" ++ moreText)).tokens.map (·.1))
        (tokenize (shortText ++ "\n" ++ moreText)).failure = .ok out :=
    exists_of_isOk (by decide +kernel)
  have ht : ((tokenize moreText).tokens.map (·.1)).head? = some (.word "call") := by
    decide +kernel
  exact ⟨b, b', tags, tags', hs, ht, h, parse_lines hs ht h⟩

end CallText
end SquareDance
