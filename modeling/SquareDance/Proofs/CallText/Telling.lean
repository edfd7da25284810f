/-
# Parsers that know the call

A problem comes with the number of tokens left where it was found and with the call that was read
last.  The parser remembers the call from its header on; from the tokens alone it is the last string
directly behind the word `call` (`lastCall`).

Other strings stand in a text too, and one that is left behind the word `call` would count as a
name.  So what has to be known of a parser is whether it begins at a token that it may leave
(`Parser.Passable`), or at any (`Parser.Here`), and in which of these it ends.  `Parser.Tells` says
so, piece by piece, and says as well that the call is the last one wherever the parser stops with a
problem or looks up a tag.
-/

import SquareDance.Proofs.CallText.Reading

namespace SquareDance
namespace CallText

/-! ### The calls among some tokens -/

/-- The name that a token gives to a call, if it is a string behind the word `call`. -/
def nameIn? : Option Token → Token → Option String
  | some (.word word), .text name => if word = "call" then some name else none
  | _, _ => none

/-- The names that tokens behind another one give to calls. -/
def callNames (previous : Option Token) : List Token → List String
  | [] => []
  | t :: rest => (nameIn? previous t).toList ++ callNames (some t) rest

/-- The call whose header is the last one among some tokens. -/
def lastCall (ts : List Token) : Option String := (callNames none ts).getLast?

/-- One token more may name one call more. -/
theorem callNames_append_singleton (previous : Option Token) (ts : List Token) (t : Token) :
    callNames previous (ts ++ [t])
      = callNames previous ts ++ (nameIn? (ts.getLast? <|> previous) t).toList := by
  induction ts generalizing previous with
  | nil => simp [callNames]
  | cons u ts ih =>
    have hlast : ((u :: ts).getLast? <|> previous) = (ts.getLast? <|> some u) := by
      rw [List.getLast?_cons]
      cases ts.getLast? <;> rfl
    rw [List.cons_append, callNames, callNames, ih, List.append_assoc, hlast]

/-- The last call is the one that the last token names, if it names one. -/
theorem lastCall_append_singleton (ts : List Token) (t : Token) :
    lastCall (ts ++ [t]) = (nameIn? ts.getLast? t <|> lastCall ts) := by
  have hnone : (ts.getLast? <|> none) = ts.getLast? := by cases ts.getLast? <;> rfl
  rw [lastCall, callNames_append_singleton, List.getLast?_append, hnone]
  cases nameIn? ts.getLast? t <;> rfl

/-- Only a string is a name. -/
theorem nameIn?_eq_none {t : Token} (h : ∀ s, t ≠ .text s) (previous : Option Token) :
    nameIn? previous t = none := by
  cases t with
  | text s => exact absurd rfl (h s)
  | leftBracket | rightBracket | word | number => cases previous with
    | none => rfl
    | some u => cases u <;> rfl

/-! ### What is told at a place -/

/-- Where a number of the tokens is left, a call is the one whose header was read last. -/
def Told (tokens : List Token) (left : Nat) (call : Option String) : Prop :=
  ∃ before after, tokens = before ++ after ∧ after.length = left ∧ call = lastCall before

/-- The first uses of tags are told right. -/
def ToldUses (tokens : List Token) (t : TagTable Nat) : Prop :=
  ∀ e ∈ t.entries.toList, ∀ use, e.firstUse = some use → Told tokens use.place use.call

namespace ToldUses

variable {tokens : List Token} {t t' : TagTable Nat} {name : String} {i : Nat}

/-- The base tags have no uses. -/
theorem base : ToldUses tokens .base := by
  intro e he use huse
  have hnone : ∀ e ∈ (TagTable.base : TagTable Nat).entries.toList, e.firstUse = none := by
    decide +kernel
  rw [hnone e he] at huse
  cases huse

/-- A tag that is added has no use yet. -/
theorem findOrAdd (ht : ToldUses tokens t) (h : t.findOrAdd name = .ok (i, t')) :
    ToldUses tokens t' := by
  obtain ⟨-, rfl⟩ | ⟨-, -, -, rfl⟩ := TagTable.findOrAdd_eq_ok h
  · exact ht
  · intro e he use huse
    rw [TagTable.add, Array.toList_push, List.mem_append, List.mem_singleton] at he
    obtain he | rfl := he
    · exact ht e he use huse
    · cases huse

/-- What is known of a tag may change by a use that is told right. -/
theorem modify (ht : ToldUses tokens t) {f : TagEntry Nat → TagEntry Nat}
    (hf : ∀ e use, (f e).firstUse = some use →
      e.firstUse = some use ∨ Told tokens use.place use.call) :
    ToldUses tokens (t.modify i f) := by
  intro e he use huse
  rw [TagTable.modify, Array.toList_modify] at he
  obtain ⟨j, hj⟩ := List.mem_iff_getElem?.1 he
  rw [List.getElem?_modify] at hj
  obtain ⟨e', he', rfl⟩ := Option.map_eq_some_iff.1 hj
  have hmem := List.mem_of_getElem? he'
  by_cases hij : i = j
  · simp only [hij, if_true] at huse
    exact (hf e' use huse).elim (ht e' hmem use) id
  · simp only [hij, if_false] at huse
    exact ht e' hmem use huse

/-- A tag is referred to from where the call is told right. -/
theorem reference (ht : ToldUses tokens t) {use : TagUse Nat}
    (huse : Told tokens use.place use.call) (h : t.reference name use = .ok (i, t')) :
    ToldUses tokens t' := by
  obtain ⟨found, hfound, rfl⟩ := TagTable.findOrAdd_of_reference h
  refine (ht.findOrAdd hfound).modify fun e use' h => ?_
  cases hfirst : e.firstUse with
  | none =>
    rw [hfirst] at h
    cases h
    exact .inr huse
  | some first =>
    rw [hfirst] at h
    exact .inl h

/-- A definition is no use. -/
theorem define (ht : ToldUses tokens t) (h : t.define name = .ok (i, t')) :
    ToldUses tokens t' := by
  obtain ⟨found, hfound, -, rfl⟩ := TagTable.findOrAdd_of_define h
  exact (ht.findOrAdd hfound).modify fun e use' h => .inl h

end ToldUses

namespace Parser

open Consumer

variable {α β γ : Type} {tokens : List Token} {t : Token} {r : Reading}

/-! ### What is known at a reading -/

/-- A reading of the tokens that has left some of them behind. -/
structure Behind (tokens before : List Token) (r : Reading) : Prop where
  tokens_eq : tokens = before ++ r.tokens
  uses : ToldUses tokens r.tags

/-- The call is known at the token that the parser looks at. -/
def Here (tokens : List Token) (r : Reading) : Prop :=
  ∃ before, Behind tokens before r ∧ r.call = lastCall before

/-- The call is known behind a token that was left last. -/
def After (tokens : List Token) (t : Token) (r : Reading) : Prop :=
  ∃ before, Behind tokens (before ++ [t]) r ∧ r.call = lastCall (before ++ [t])

/-- The call is known behind the token that the parser looks at. -/
def Past (tokens : List Token) (t : Token) (r : Reading) : Prop :=
  ∃ before, Behind tokens before r ∧ r.tokens.head? = some t ∧ r.call = lastCall (before ++ [t])

/-- The parser looks at a token that it may leave. -/
def Passable (tokens : List Token) (r : Reading) : Prop := Here tokens r ∧ ∃ t, Past tokens t r

/-- The parser looks at a given token. -/
def Beholds (tokens : List Token) (t : Token) (r : Reading) : Prop :=
  Here tokens r ∧ r.tokens.head? = some t

/-- The parser looks at a string behind a word. -/
def Quotes (tokens : List Token) (word s : String) (r : Reading) : Prop :=
  After tokens (.word word) r ∧ r.tokens.head? = some (.text s)

/-- What is known here is told right. -/
theorem Here.told (h : Here tokens r) : Told tokens r.tokens.length r.call := by
  obtain ⟨before, hbehind, hcall⟩ := h
  exact ⟨before, r.tokens, hbehind.tokens_eq, rfl, hcall⟩

/-- The token behind the one that was left is the one looked at. -/
theorem After.here (h : After tokens t r) : Here tokens r := by
  obtain ⟨before, h⟩ := h
  exact ⟨before ++ [t], h⟩

/-- A token that is no string may be left. -/
theorem Beholds.past (h : Beholds tokens t r) (ht : ∀ s, t ≠ .text s) : Past tokens t r := by
  obtain ⟨⟨before, hbehind, hcall⟩, hhead⟩ := h
  refine ⟨before, hbehind, hhead, ?_⟩
  rw [lastCall_append_singleton, nameIn?_eq_none ht, hcall]
  rfl

/-- A token that is no string may be left, as it names no call. -/
theorem Beholds.passable (h : Beholds tokens t r) (ht : ∀ s, t ≠ .text s) : Passable tokens r :=
  ⟨h.1, t, h.past ht⟩

/-- A string may be left behind a word other than `call`. -/
theorem Quotes.passable {word s : String} (h : Quotes tokens word s r) (hword : word ≠ "call") :
    Passable tokens r := by
  obtain ⟨⟨before, hbehind, hcall⟩, hhead⟩ := h
  refine ⟨⟨_, hbehind, hcall⟩, .text s, _, hbehind, hhead, ?_⟩
  rw [lastCall_append_singleton, List.getLast?_concat, nameIn?, if_neg hword, hcall]
  rfl

/-- Behind the word `call` a string is the name of the call. -/
theorem Quotes.past_setCall {s : String} (h : Quotes tokens "call" s r) :
    Past tokens (.text s) { r with call := some s } := by
  obtain ⟨⟨before, hbehind, -⟩, hhead⟩ := h
  refine ⟨_, ⟨hbehind.tokens_eq, hbehind.uses⟩, hhead, ?_⟩
  rw [lastCall_append_singleton, List.getLast?_concat, nameIn?, if_pos rfl]
  rfl

/-! ### Parsers that stop where the call is known -/

/-- A parser that stops only where the call is known, from what is known when it begins to what is
known when it is done. -/
def Tells (tokens : List Token) (I : Reading → Prop) (p : Parser α) (J : α → Reading → Prop) :
    Prop :=
  ∀ r, I r → match p r with
    | .ok (x, rest) => J x rest
    | .error stop => Told tokens stop.left stop.call

namespace Tells

variable {I I' : Reading → Prop} {J : α → Reading → Prop} {K : β → Reading → Prop}

/-- What takes nothing stops nowhere. -/
theorem pure {x : α} (h : ∀ r, I r → J x r) : Tells tokens I (Pure.pure x : Parser α) J := h

/-- A problem is found where the call is known. -/
theorem fail {e : Problem} (h : ∀ r, I r → Here tokens r) :
    Tells tokens I (Parser.fail e : Parser α) J := fun r hI => (h r hI).told

/-- What is known when the first parser is done is known when the second begins. -/
theorem bind {p : Parser α} {f : α → Parser β} (hp : Tells tokens I p J)
    (hf : ∀ x, Tells tokens (J x) (f x) K) : Tells tokens I (p >>= f) K := by
  intro r hI
  have hfirst := hp r hI
  show match (p r >>= fun out => f out.1 out.2) with
    | .ok (y, rest) => K y rest
    | .error stop => Told tokens stop.left stop.call
  cases h : p r with
  | error stop =>
    rw [h] at hfirst
    exact hfirst
  | ok out =>
    rw [h] at hfirst
    exact hf out.1 out.2 hfirst

/-- What is known before may be more than what is needed. -/
theorem of_imp {p : Parser α} (hI : ∀ r, I' r → I r) (h : Tells tokens I p J) :
    Tells tokens I' p J := fun r hI' => h r (hI r hI')

/-- Less may be known in the end. -/
theorem imp {J' : α → Reading → Prop} {p : Parser α} (h : Tells tokens I p J)
    (hJ : ∀ x r, J x r → J' x r) : Tells tokens I p J' := by
  intro r hI
  have hp := h r hI
  cases hout : p r with
  | error stop =>
    rw [hout] at hp
    exact hp
  | ok out =>
    rw [hout] at hp
    exact hJ _ _ hp

/-- **What each turn tells the loop tells.**  By induction on the turns. -/
theorem loop {step : β → Parser (β ⊕ γ)} {ht : ∀ b, (step b).Turns} {L : γ → Reading → Prop}
    (hs : ∀ b, Tells tokens I (step b) (Sum.elim (fun _ => I) L)) (b : β) :
    Tells tokens I (Consumer.loop step ht b) L := by
  intro r hI
  fun_induction Consumer.loop step ht b r with
  | case1 b r stop h =>
    have hturn := hs b r hI
    rw [h] at hturn
    exact hturn
  | case2 b r b' mid h ih =>
    have hturn := hs b r hI
    rw [h] at hturn
    exact ih hturn
  | case3 b r c rest h =>
    have hturn := hs b r hI
    rw [h] at hturn
    exact hturn

end Tells

/-! ### Tokens -/

/-- To ask for something may stop at the token looked at. -/
theorem tells_orFail (x : Option α) (e : Problem) :
    Tells tokens (Passable tokens) (orFail x e) fun _ => Passable tokens := by
  cases x with
  | none => exact .fail fun _ h => h.1
  | some a => exact .pure fun _ h => h

/-- What is refused is refused at the token looked at. -/
theorem tells_accepted (x : Except String α) :
    Tells tokens (Passable tokens) (accepted x) fun _ => Passable tokens := by
  cases x with
  | error message => exact .fail fun _ h => h.1
  | ok a => exact .pure fun _ h => h

/-- To look at a token leaves what is known, and adds the token. -/
theorem tells_current? : Tells tokens (Here tokens) current? fun t r =>
    Here tokens r ∧ r.tokens.head? = t := fun _ h => ⟨h, rfl⟩

/-- Where no token is left the parser stops, knowing what it did. -/
theorem tells_present {I : Reading → Prop} (hI : ∀ r, I r → Here tokens r) :
    Tells tokens I present fun _ => I := by
  rintro ⟨ts, failure, tags, call⟩ h
  cases ts with
  | cons t ts => exact h
  | nil => cases failure <;> exact (hI _ h).told

/-- Where the text was cut short the parser stops, knowing what it did. -/
theorem tells_presentOrEnd {I : Reading → Prop} (hI : ∀ r, I r → Here tokens r) :
    Tells tokens I presentOrEnd fun _ => I := by
  rintro ⟨ts, failure, tags, call⟩ h
  cases ts with
  | cons t ts => exact h
  | nil =>
    cases failure with
    | some e => exact (hI _ h).told
    | none => exact h

/-- Behind a token that is left the call is known that it may have named. -/
theorem tells_leave (t : Token) : Tells tokens (Past tokens t) leave fun _ => After tokens t := by
  rintro ⟨ts, failure, tags, call⟩ ⟨before, hbehind, hhead, hcall⟩
  obtain ⟨rest, rfl⟩ := List.head?_eq_some_iff.1 hhead
  exact ⟨before, ⟨by simpa using hbehind.tokens_eq, hbehind.uses⟩, hcall⟩

/-- The token that is left is remembered. -/
theorem tells_advance_past (t : Token) :
    Tells tokens (Past tokens t) advance fun _ => After tokens t :=
  (tells_leave t).bind fun _ => tells_present fun _ h => h.here

/-- To go on from a token that may be left is to look at the next one. -/
theorem tells_advance : Tells tokens (Passable tokens) advance fun _ => Here tokens :=
  fun r ⟨_, t, h⟩ => ((tells_advance_past t).imp fun _ _ h => h.here) r h

/-- To go on, perhaps to the end, is to look at the next token or at none. -/
theorem tells_advanceOrEnd : Tells tokens (Passable tokens) advanceOrEnd fun _ => Here tokens :=
  fun r ⟨_, t, h⟩ => (((tells_leave t).bind fun _ => tells_presentOrEnd fun _ h => h.here).imp
    fun _ _ h => h.here) r h

/-- A symbol that is asked for is the token looked at. -/
theorem tells_symbolHere_word (m : String) :
    Tells tokens (Here tokens) (symbolHere m) fun w => Beholds tokens (.word w) :=
  tells_current?.bind fun t => by
    split
    · exact .pure fun _ h => h
    · exact .fail fun _ h => h.1

/-- A symbol that is asked for may be left. -/
theorem tells_symbolHere (m : String) :
    Tells tokens (Here tokens) (symbolHere m) fun _ => Passable tokens :=
  (tells_symbolHere_word m).imp fun _ _ h => h.passable nofun

/-- A symbol that is next may be left. -/
theorem tells_symbol (m : String) :
    Tells tokens (Passable tokens) (symbol m) fun _ => Passable tokens :=
  tells_advance.bind fun _ => tells_symbolHere m

/-- A number that is next may be left. -/
theorem tells_number (m : String) :
    Tells tokens (Passable tokens) (number m) fun _ => Passable tokens :=
  tells_advance.bind fun _ => tells_current?.bind fun t => by
    split
    · exact .pure fun _ h => Beholds.passable h nofun
    · exact .fail fun _ h => h.1

/-- A string behind a word is looked at, and the word before it is known. -/
theorem tells_text (m : String) (word : String) :
    Tells tokens (Beholds tokens (.word word)) (text m) (Quotes tokens word) := by
  refine .of_imp (fun _ h => h.past nofun) ((tells_advance_past _).bind fun _ => ?_)
  refine Tells.bind (J := fun t r => After tokens (.word word) r ∧ r.tokens.head? = t)
    (fun _ h => ⟨h, rfl⟩) fun t => ?_
  split
  · exact .pure fun _ h => h
  · exact .fail fun _ h => h.1.here

/-- A symbol that is looked for may be left if it is there. -/
theorem tells_symbol? : Tells tokens (Here tokens) symbol? fun w r =>
    Here tokens r ∧ (w.isSome = true → Passable tokens r) :=
  tells_current?.bind fun t => by
    split
    · exact .pure fun _ h => ⟨h.1, fun _ => Beholds.passable h nofun⟩
    · exact .pure fun _ h => ⟨h.1, nofun⟩

/-- The token looked at is compared, and stays. -/
theorem tells_isAt (t : Token) : Tells tokens (Here tokens) (isAt t) fun b r =>
    Here tokens r ∧ (b = true → Beholds tokens t r) :=
  tells_current?.bind fun _ => .pure fun _ h => ⟨h.1, fun hb => ⟨h.1, h.2.trans (beq_iff_eq.1 hb)⟩⟩

/-- Tags are looked up where the call is known. -/
theorem tells_withTags
    {f : Nat → Option String → TagTable Nat → Except TagError (Nat × TagTable Nat)}
    (hf : ∀ left call t i t', Told tokens left call → ToldUses tokens t →
      f left call t = .ok (i, t') → ToldUses tokens t') :
    Tells tokens (Passable tokens) (withTags f) fun _ => Passable tokens := by
  rintro r ⟨⟨before, hbehind, hcall⟩, t, before', hbehind', hhead, hcall'⟩
  have htold : Told tokens r.tokens.length r.call := Here.told ⟨before, hbehind, hcall⟩
  unfold withTags
  cases h : f r.tokens.length r.call r.tags with
  | error e => exact htold
  | ok out =>
    have huses := hf _ _ _ _ _ htold hbehind.uses h
    exact ⟨⟨before, ⟨hbehind.tokens_eq, huses⟩, hcall⟩, t, before',
      ⟨hbehind'.tokens_eq, huses⟩, hhead, hcall'⟩

/-- A use of a tag is told at the token looked at. -/
theorem tells_referToTag (name : String) :
    Tells tokens (Passable tokens) (referToTag name) fun _ => Passable tokens :=
  tells_withTags fun _ _ _ _ _ hcall ht h => ht.reference hcall h

/-- A tag that is defined twice is refused at the token looked at. -/
theorem tells_defineTag (name : String) :
    Tells tokens (Passable tokens) (defineTag name) fun _ => Passable tokens :=
  tells_withTags fun _ _ _ _ _ _ ht h => ht.define h

end Parser
end CallText
end SquareDance
