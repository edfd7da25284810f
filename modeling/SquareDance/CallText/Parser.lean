/-
# Parsers of tokens

A parser works through the tokens of a text.  The first of the tokens left is the
one it looks at; `advance` goes on to the next.  Going on where the text ends is a
problem unless the grammar allows the end there, and going on to where no token
could be made always is.

A parser knows nothing of lines.  A problem, and each reference to a tag, names its
place by the number of tokens left there, so that what a text means depends on its
tokens alone; `Tokens.placeOf` finds the places.
-/

import SquareDance.CallText.Problem
import SquareDance.Call
import SquareDance.Consumer

namespace SquareDance
namespace CallText

/-- What a parser works through, and what it has learned. -/
structure Reading where
  tokens : List Token
  /-- What follows the tokens, unless the text ends there. -/
  failure : Option LexError
  tags : TagTable Nat := .base
  /-- The call that was read last. -/
  call : Option String := none
  deriving DecidableEq

instance : Sized Reading := ⟨fun r => r.tokens.length⟩

/-- A problem, the number of tokens left where it was found, and the call that was
read last. -/
structure Stop where
  problem : Problem
  left : Nat
  call : Option String
  deriving DecidableEq, Inhabited

/-- A parser takes what it needs from the front of the tokens. -/
abbrev Parser := Consumer Stop Reading

namespace Parser

open Consumer

variable {α : Type}

/-- Stop here. -/
def fail (problem : Problem) : Parser α := fun r =>
  .error ⟨problem, r.tokens.length, r.call⟩

/-- A value that may be refused, which is a problem. -/
def accepted (x : Except String α) : Parser α :=
  match x with
  | .ok a => pure a
  | .error message => fail (.malformed message)

/-- Stop here: a token is malformed or out of place. -/
def malformed (message : String) : Parser α := fail (.malformed message)

/-- Stop here: a word is not in the table that it should be in. -/
def unknown (what : String) : Parser α := fail (.unknown what)

/-- A value that may be missing, which is a problem. -/
def orFail (x : Option α) (problem : Problem) : Parser α :=
  match x with
  | some a => pure a
  | none => fail problem

/-- The token that the parser looks at. -/
def current? : Parser (Option Token) := fun r => .ok (r.tokens.head?, r)

/-- A token is there to look at. -/
def present : Parser Unit := fun r =>
  match r.tokens, r.failure with
  | _ :: _, _ => .ok ((), r)
  | [], some e => fail (.malformed e.message) r
  | [], none => fail .unexpectedEnd r

/-- A token is there to look at, or the text has ended. -/
def presentOrEnd : Parser Unit := fun r =>
  match r.tokens, r.failure with
  | [], some e => fail (.malformed e.message) r
  | _, _ => .ok ((), r)

/-- Leave the token that the parser looks at. -/
def leave : Parser Unit := fun r =>
  match r.tokens with
  | _ :: rest => .ok ((), { r with tokens := rest })
  | [] => fail .unexpectedEnd r

/-- Go on to the next token. -/
def advance : Parser Unit := do
  leave
  present

/-- Go on to the next token or to the end. -/
def advanceOrEnd : Parser Unit := do
  leave
  presentOrEnd

/-- The symbol that the parser looks at. -/
def symbolHere (message : String) : Parser String := do
  match ← current? with
  | some (.word s) => return s
  | _ => malformed message

/-- The symbol that the parser looks at, where a flag or another indicator has to
stand. -/
def indicator : Parser String := symbolHere "Missing indicator"

/-- Go on to a symbol. -/
def symbol (message : String) : Parser String := do
  advance
  symbolHere message

/-- Go on to a string. -/
def text (message : String) : Parser String := do
  advance
  match ← current? with
  | some (.text s) => return s
  | _ => malformed message

/-- Go on to a number. -/
def number (message : String) : Parser UInt32 := do
  advance
  match ← current? with
  | some (.number n) => return n
  | _ => malformed message

/-- The symbol that the parser looks at, if it is one. -/
def symbol? : Parser (Option String) := do
  match ← current? with
  | some (.word s) => return some s
  | _ => return none

/-- The parser looks at a given token. -/
def isAt (t : Token) : Parser Bool := do return (← current?) == some t

/-- The parser looks at a given symbol. -/
def isAtWord (s : String) : Parser Bool := isAt (.word s)

/-- A call of a given name is being read from now on. -/
def setCall (name : String) : Parser Unit := fun r => .ok ((), { r with call := some name })

/-- Use the table of tags. -/
def withTags (f : Nat → Option String → TagTable Nat → Except TagError (Nat × TagTable Nat)) :
    Parser TagId := fun r =>
  match f r.tokens.length r.call r.tags with
  | .ok (i, tags) => .ok (UInt16.ofNat i, { r with tags })
  | .error e => fail (.ofTagError e) r

/-- Define a tag, which belongs to the call being read. -/
def defineTag (name : String) : Parser TagId := withTags fun _ _ t => t.define name

/-- Refer to a tag from here. -/
def referToTag (name : String) : Parser TagId :=
  withTags fun left call t => t.reference name ⟨left, call⟩

/-! ### What they take -/

/-- To stop leaves nothing to go on with. -/
theorem takes_fail (p : Problem) : (fail p : Parser α).Takes := by
  intro r x rest h
  cases h

/-- A step that stops does not turn. -/
theorem turns_fail {β γ : Type} (p : Problem) : (fail p : Parser (β ⊕ γ)).Turns :=
  (takes_fail p).turns

/-- What stops keeps, since it leaves nothing. -/
theorem keeps_fail (p : Problem) : (fail p : Parser α).Keeps := (takes_fail p).keeps

/-- A value is there without a look at the tokens. -/
theorem keeps_orFail (x : Option α) (p : Problem) : (orFail x p).Keeps := by
  cases x with
  | none => exact keeps_fail p
  | some a => exact .pure a

/-- A value is accepted without a look at the tokens. -/
theorem keeps_accepted (x : Except String α) : (accepted x).Keeps := by
  cases x with
  | error m => exact keeps_fail _
  | ok a => exact .pure a

/-- To look at a token leaves it where it is. -/
theorem keeps_current? : current?.Keeps := by
  intro r x rest h
  cases h
  exact Nat.le_refl _

/-- To look for a token leaves it where it is. -/
theorem keeps_present : present.Keeps := by
  intro r x rest h
  unfold present at h
  split at h <;> cases h
  exact Nat.le_refl _

/-- To look for a token or the end leaves both where they are. -/
theorem keeps_presentOrEnd : presentOrEnd.Keeps := by
  intro r x rest h
  unfold presentOrEnd at h
  split at h <;> cases h
  exact Nat.le_refl _

/-- The token that is left is gone. -/
theorem takes_leave : leave.Takes := by
  intro r x rest h
  unfold leave at h
  split at h
  · rename_i ht
    cases h
    simp [Sized.size, ht]
  · cases h

/-- To go on leaves a token behind. -/
theorem takes_advance : advance.Takes := takes_leave.bind fun _ => keeps_present

/-- To go on leaves a token behind, also at the end. -/
theorem takes_advanceOrEnd : advanceOrEnd.Takes := takes_leave.bind fun _ => keeps_presentOrEnd

/-- To look at a symbol leaves it where it is. -/
theorem keeps_symbolHere (m : String) : (symbolHere m).Keeps :=
  keeps_current?.bind fun _ => by
    split
    · exact .pure _
    · exact keeps_fail _

/-- To look at an indicator leaves it where it is. -/
theorem keeps_indicator : indicator.Keeps := keeps_symbolHere _

/-- To go on to a symbol leaves a token behind. -/
theorem takes_symbol (m : String) : (symbol m).Takes :=
  takes_advance.bind fun _ => keeps_symbolHere m

/-- To go on to a string leaves a token behind. -/
theorem takes_text (m : String) : (text m).Takes :=
  takes_advance.bind fun _ => keeps_current?.bind fun _ => by
    split
    · exact .pure _
    · exact keeps_fail _

/-- To go on to a number leaves a token behind. -/
theorem takes_number (m : String) : (number m).Takes :=
  takes_advance.bind fun _ => keeps_current?.bind fun _ => by
    split
    · exact .pure _
    · exact keeps_fail _

/-- To look whether there is a symbol leaves it where it is. -/
theorem keeps_symbol? : symbol?.Keeps :=
  keeps_current?.bind fun _ => by
    split
    · exact .pure _
    · exact .pure _

/-- To compare a token leaves it where it is. -/
theorem keeps_isAt (t : Token) : (isAt t).Keeps := keeps_current?.bind fun _ => .pure _

/-- To compare a symbol leaves it where it is. -/
theorem keeps_isAtWord (s : String) : (isAtWord s).Keeps := keeps_isAt _

/-- To note a call takes no token. -/
theorem keeps_setCall (name : String) : (setCall name).Keeps := by
  intro r x rest h
  cases h
  exact Nat.le_refl _

/-- To use the table of tags takes no token. -/
theorem keeps_withTags
    (f : Nat → Option String → TagTable Nat → Except TagError (Nat × TagTable Nat)) :
    (withTags f).Keeps := by
  intro r x rest h
  unfold withTags at h
  split at h <;> cases h
  exact Nat.le_refl _

/-- To define a tag takes no token. -/
theorem keeps_defineTag (name : String) : (defineTag name).Keeps := keeps_withTags _

/-- To refer to a tag takes no token. -/
theorem keeps_referToTag (name : String) : (referToTag name).Keeps := keeps_withTags _

end Parser
end CallText
end SquareDance
