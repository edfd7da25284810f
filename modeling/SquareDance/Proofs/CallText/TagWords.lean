/-
# The words of a text that name tags

Which words of a text name tags can be told from left to right, without parsing it: the word
after `tag` in the head of a call, which defines the tag, and the words that a schema of
sequential or concentric definitions, or of other names of calls, demands after it, which
refer to theirs.  `Stage` says what is expected next, `tagWords` finds the words in their
order, each with its place and with the name of the call that was read last.

It does not matter what a place is.  `numbered` gives each token the number of tokens left
there, by which a parser names places; from these numbers the places of a text are found again
(`tagWords_map`, `numbered_places`).
-/

import SquareDance.CallText.Compile

namespace SquareDance
namespace CallText

/-- What a token stands after. -/
inductive Stage where
  /-- Nothing that matters. -/
  | plain
  /-- The word `call`; the name follows. -/
  | name
  /-- The name of a call; its level follows. -/
  | level
  /-- The level of a call; its tag may follow. -/
  | head
  /-- The word `tag`. -/
  | tag
  /-- The schema of another name of a call. -/
  | sameAs
  /-- The schema of a definition by sub-calls; `inner` says that another sub-call follows the
  first one. -/
  | use (inner : Bool)
  /-- The tag of a sub-call; the bracket of its modifiers follows. -/
  | bracket (inner : Bool)
  /-- The opening bracket of a list. -/
  | list (inner : Bool)
  deriving DecidableEq

namespace Stage

/-- After a schema of a given form. -/
def ofKind : SchemaKind → Stage
  | .sequential => use false
  | .concentric => use true
  | .sameAs => sameAs
  | .array | .nothing | .matrix | .partnerMatrix => plain

/-- After a word where nothing matters but `call` and the schemas. -/
def ofWord (word : String) : Stage :=
  if word = "call" then name else ((Schema.ofName? word).map (ofKind ·.kind)).getD plain

/-- After another token. -/
def next : Stage → Token → Stage
  | plain, .word w => ofWord w
  | plain, .leftBracket => list false
  | plain, _ => plain
  | name, _ => level
  | level, _ => head
  | head, .word w => if w = "tag" then tag else ofWord w
  | head, _ => plain
  | tag, _ => plain
  | sameAs, _ => plain
  | use inner, _ => bracket inner
  | bracket inner, _ => list inner
  | list true, .rightBracket => use false
  | list false, .rightBracket => plain
  | list inner, _ => list inner

end Stage

/-- A word that names a tag, the place where it stands and the call that was read last. -/
structure TagWord (π : Type) where
  name : String
  /-- The word defines the tag, in the head of a call; else it refers to it. -/
  isHeader : Bool
  place : π
  call : Option String
  deriving DecidableEq

namespace TagWord

variable {π ρ : Type}

/-- The word as a use of its tag. -/
def use (w : TagWord π) : TagUse π := ⟨w.place, w.call⟩

/-- The word with its place told otherwise. -/
def mapPlace (f : π → ρ) (w : TagWord π) : TagWord ρ :=
  { name := w.name, isHeader := w.isHeader, place := f w.place, call := w.call }

/-- The word of a token that names a tag, if it does. -/
def ofToken? (call : Option String) (place : π) : Stage → Token → Option (TagWord π)
  | .tag, .word w => some ⟨w, true, place, call⟩
  | .sameAs, .word w | .use _, .word w => some ⟨w, false, place, call⟩
  | _, _ => none

end TagWord

/-- The call that was read last, after another token. -/
def callAfter (call : Option String) : Stage → Token → Option String
  | .name, .text s => some s
  | _, _ => call

/-- The words of tokens with their places that name tags. -/
def tagWords {π : Type} (s : Stage) (call : Option String) :
    List (Token × π) → List (TagWord π)
  | [] => []
  | (t, place) :: rest =>
    (TagWord.ofToken? call place s t).toList ++ tagWords (s.next t) (callAfter call s t) rest

/-- The words of a text that name tags. -/
def textTagWords (text : String) : List (TagWord Place) :=
  tagWords .plain none (tokenize text).tokens

/-- A call that is used before it is defined, and another name of it. -/
example : (textTagWords
    "call \"a\" plus seq b [] call \"b\" plus tag b nulldefine call \"c\" plus alias b").map
    (fun w => (w.name, w.isHeader, w.place.column, w.call)) =
      [("b", false, 19, some "a"), ("b", true, 42, some "b"), ("b", false, 75, some "c")] := by
  decide +kernel

/-! ### Places -/

section Places

variable {π ρ : Type}

/-- **What is found does not depend on what places are.** -/
theorem tagWords_map (f : π → ρ) (s : Stage) (call : Option String) (ts : List (Token × π)) :
    tagWords s call (ts.map fun t => (t.1, f t.2)) = (tagWords s call ts).map (·.mapPlace f) := by
  induction ts generalizing s call with
  | nil => rfl
  | cons t ts ih =>
    obtain ⟨t, place⟩ := t
    have htoken : TagWord.ofToken? call (f place) s t
        = (TagWord.ofToken? call place s t).map (·.mapPlace f) := by
      cases s <;> cases t <;> rfl
    rw [List.map_cons, tagWords, tagWords, ih, htoken, List.map_append, Option.toList_map]

/-- Tokens with the numbers of tokens left at each. -/
def numbered : List Token → List (Token × Nat)
  | [] => []
  | t :: ts => (t, ts.length + 1) :: numbered ts

/-- No more tokens are left at a token than there are. -/
theorem snd_le_of_mem_numbered {ts : List Token} {t : Token × Nat} (h : t ∈ numbered ts) :
    t.2 ≤ ts.length := by
  induction ts with
  | nil => cases h
  | cons u ts ih =>
    obtain rfl | h := List.mem_cons.1 h
    · exact Nat.le_refl _
    · exact Nat.le_succ_of_le (ih h)

/-- Fewer tokens are left at a later token. -/
theorem pairwise_numbered (ts : List Token) : (numbered ts).Pairwise fun t u => u.2 < t.2 := by
  induction ts with
  | nil => exact .nil
  | cons t ts ih =>
    exact .cons (fun u hu => Nat.lt_succ_of_le (snd_le_of_mem_numbered hu)) ih

/-- A word that names a tag is one of the tokens, at its place. -/
theorem mem_of_mem_tagWords {s : Stage} {call : Option String} {ts : List (Token × π)}
    {w : TagWord π} (h : w ∈ tagWords s call ts) : (.word w.name, w.place) ∈ ts := by
  induction ts generalizing s call with
  | nil => cases h
  | cons t ts ih =>
    obtain ⟨t, place⟩ := t
    rw [tagWords, List.mem_append, Option.mem_toList] at h
    obtain h | h := h
    · cases s <;> cases t <;> cases h <;> exact List.mem_cons_self
    · exact List.mem_cons_of_mem _ (ih h)

/-- **Words are found in their order**: what holds of the places of tokens and of words behind
them holds of the words that are found. -/
theorem pairwise_tagWords {R : π → π → Prop} (s : Stage) (call : Option String)
    {ts : List (Token × π)}
    (h : ts.Pairwise fun t u => (∃ w, u.1 = .word w) → R t.2 u.2) :
    (tagWords s call ts).Pairwise fun v w => R v.place w.place := by
  induction ts generalizing s call with
  | nil => exact .nil
  | cons t ts ih =>
    obtain ⟨t, place⟩ := t
    obtain ⟨hfirst, h⟩ := List.pairwise_cons.1 h
    rw [tagWords, List.pairwise_append]
    refine ⟨?_, ih _ _ h, fun v hv w hw => ?_⟩
    · cases TagWord.ofToken? call place s t <;> simp
    · have hplace : v.place = place := by
        rw [Option.mem_toList] at hv
        cases s <;> cases t <;> cases hv <;> rfl
      rw [hplace]
      exact hfirst _ (mem_of_mem_tagWords hw) ⟨w.name, rfl⟩

/-- The places of the tokens of a text are found again from the tokens left. -/
theorem numbered_suffix {t : Tokens} (before : List (Token × Place)) {ts : List (Token × Place)}
    (h : t.tokens = before ++ ts) :
    (numbered (ts.map (·.1))).map (fun p => (p.1, t.placeOf p.2)) = ts := by
  induction ts generalizing before with
  | nil => rfl
  | cons p ts ih =>
    have hplace : t.placeOf (ts.length + 1) = p.2 := by
      have hlength : t.tokens.length - (ts.length + 1) = before.length := by simp [h]
      rw [Tokens.placeOf, hlength, h, List.getElem?_append_right (Nat.le_refl _), Nat.sub_self]
      rfl
    rw [List.map_cons, numbered, List.map_cons, List.length_map, hplace,
      ih (before ++ [p]) (by simp [h])]

/-- The places of a text are found again from the numbers of tokens left. -/
theorem numbered_places (t : Tokens) :
    (numbered (t.tokens.map (·.1))).map (fun p => (p.1, t.placeOf p.2)) = t.tokens :=
  numbered_suffix [] rfl

/-- **The words of a text are those that are found by tokens left**, with their places. -/
theorem textTagWords_eq (text : String) : textTagWords text =
    (tagWords .plain none (numbered ((tokenize text).tokens.map (·.1)))).map
      (·.mapPlace (tokenize text).placeOf) := by
  rw [← tagWords_map, numbered_places]
  rfl

end Places

end CallText
end SquareDance
