/-
# Tokens

The text of call definitions is made of brackets, quoted strings, symbols and
numbers.  A symbol ends before a bracket, a comma, a slash, a colon or a blank,
which is any character up to the space; one that has only digits is a number.  In
a string a backslash takes the next character as it is.  Blanks and comments
stand between tokens: `//` to the end of the line, `/*` to the next `*/`.

`lexToken` takes one token from the front of the characters.  It counts the
characters that belong to the token and what stands before it, and those that it
has looked at, which for a symbol is one more; at the end of the text that one
more character is the end itself.  `tokenize` takes all tokens of a text and marks
each with the place of the last character looked at.
-/

import SquareDance.CallText.Place

namespace SquareDance
namespace CallText

/-- A token. -/
inductive Token where
  | leftBracket
  | rightBracket
  /-- A quoted string, without its quotes and backslashes. -/
  | text (s : String)
  /-- A symbol that is no number. -/
  | word (s : String)
  | number (n : UInt32)
  deriving DecidableEq, Inhabited

/-- Why no token can be taken. -/
inductive LexError where
  | endInCommentStarter
  | badCommentStarter
  | endInComment
  | endInSymbol
  | stringTooLong
  | symbolTooLong
  deriving DecidableEq, Inhabited

/-- What is wrong, as text. -/
def LexError.message : LexError → String
  | endInCommentStarter => "End of file in comment starter"
  | badCommentStarter => "Incorrect comment starter"
  | endInComment => "End of file inside comment"
  | endInSymbol => "End of file inside symbol"
  | stringTooLong => "String too long"
  | symbolTooLong => "Symbol too long"

/-- The greatest length of a string or a symbol, in bytes. -/
def maxTokenSize : Nat := 100

/-- A character that separates tokens. -/
def isBlank (c : Char) : Bool := c ≤ ' '

/-- A character before which a symbol ends. -/
def endsSymbol (c : Char) : Bool :=
  c == '[' || c == ']' || c == ',' || c == '/' || c == ':' || isBlank c

/-- What is being skipped between tokens. -/
inductive Gap where
  | blank
  /-- A slash has been read. -/
  | starter
  | lineComment
  /-- `star` tells whether the last character was a star. -/
  | blockComment (star : Bool)
  deriving DecidableEq

/-- Skip what stands before a token; `n` characters have been skipped.  An error
comes with the number of characters looked at. -/
def skip (gap : Gap) (n : Nat) : List Char → Except (LexError × Nat) (Nat × List Char)
  | [] =>
    match gap with
    | .blank => .ok (n, [])
    | .starter => .error (.endInCommentStarter, n + 1)
    | .lineComment | .blockComment _ => .error (.endInComment, n + 1)
  | c :: rest =>
    match gap with
    | .blank =>
      if c = '/' then skip .starter (n + 1) rest
      else if isBlank c then skip .blank (n + 1) rest
      else .ok (n, c :: rest)
    | .starter =>
      if c = '*' then skip (.blockComment false) (n + 1) rest
      else if c = '/' then skip .lineComment (n + 1) rest
      else .error (.badCommentStarter, n + 1)
    | .lineComment => if c = '\n' then skip .blank (n + 1) rest else skip .lineComment (n + 1) rest
    | .blockComment star =>
      if star && c == '/' then skip .blank (n + 1) rest
      else skip (.blockComment (c == '*')) (n + 1) rest

/-- Skipping takes characters from the front. -/
theorem length_skip_le {gap : Gap} {n k : Nat} {cs rest : List Char}
    (h : skip gap n cs = .ok (k, rest)) : rest.length ≤ cs.length := by
  induction cs generalizing gap n with
  | nil =>
    cases gap with
    | blank =>
      cases h
      exact Nat.le_refl _
    | starter | lineComment | blockComment => cases h
  | cons c cs ih =>
    have hskipped : ∀ {gap : Gap} {n : Nat}, skip gap n cs = .ok (k, rest) →
        rest.length ≤ (c :: cs).length := fun h => Nat.le_trans (ih h) (Nat.le_succ _)
    cases gap with
    | blank =>
      rw [skip] at h
      split at h
      · exact hskipped h
      · split at h
        · exact hskipped h
        · cases h
          exact Nat.le_refl _
    | starter =>
      rw [skip] at h
      split at h
      · exact hskipped h
      · split at h
        · exact hskipped h
        · cases h
    | lineComment =>
      rw [skip] at h
      split at h
      · exact hskipped h
      · exact hskipped h
    | blockComment star =>
      rw [skip] at h
      split at h
      · exact hskipped h
      · exact hskipped h

/-- The size of a text and one more character, in bytes. -/
def sizeWith (size : Nat) (c : Char) : Nat := size + c.utf8Size

/-- Take a string after its first quote: its characters so far, the last one
first, and their size.  `escaped` says that a backslash has been read, and `n`
characters have been taken in all. -/
def takeString (reversed : List Char) (size : Nat) (escaped : Bool) (n : Nat) :
    List Char → Except (LexError × Nat) (String × Nat × List Char)
  | [] => .error (.endInSymbol, n + 1)
  | c :: rest =>
    if !escaped && c == '"' then .ok (String.ofList reversed.reverse, n + 1, rest)
    else if !escaped && c == '\\' then takeString reversed size true (n + 1) rest
    else if maxTokenSize < sizeWith size c then .error (.stringTooLong, n + 1)
    else takeString (c :: reversed) (sizeWith size c) false (n + 1) rest

/-- A string takes its closing quote at least. -/
theorem length_takeString_lt {reversed : List Char} {size n k : Nat} {escaped : Bool}
    {cs rest : List Char} {s : String}
    (h : takeString reversed size escaped n cs = .ok (s, k, rest)) : rest.length < cs.length := by
  induction cs generalizing reversed size n escaped with
  | nil => simp [takeString] at h
  | cons c cs ih =>
    unfold takeString at h
    repeat' split at h
    · cases h
      exact Nat.lt_succ_self _
    · exact Nat.lt_succ_of_lt (ih h)
    · cases h
    · exact Nat.lt_succ_of_lt (ih h)

/-- Take a symbol whose next character belongs to it: its characters so far, the
last one first, and their size; `n` characters have been taken in all. -/
def takeSymbol (reversed : List Char) (size n : Nat) :
    List Char → Except (LexError × Nat) (List Char × Nat × List Char)
  | [] => .error (.endInSymbol, n + 1)
  | c :: rest =>
    if maxTokenSize < sizeWith size c then .error (.symbolTooLong, n + 1)
    else
      match rest with
      | [] => .error (.endInSymbol, n + 2)
      | d :: _ =>
        if endsSymbol d then .ok ((c :: reversed).reverse, n + 1, rest)
        else takeSymbol (c :: reversed) (sizeWith size c) (n + 1) rest

/-- A symbol takes a character at least. -/
theorem length_takeSymbol_lt {reversed : List Char} {size n k : Nat} {cs rest symbol : List Char}
    (h : takeSymbol reversed size n cs = .ok (symbol, k, rest)) : rest.length < cs.length := by
  induction cs generalizing reversed size n with
  | nil => simp [takeSymbol] at h
  | cons c cs ih =>
    unfold takeSymbol at h
    split at h
    · cases h
    · split at h
      · cases h
      · split at h
        · cases h
          exact Nat.lt_succ_self _
        · exact Nat.lt_succ_of_lt (ih h)

/-- The value of a symbol of digits; values beyond a word count as the largest. -/
def numberOf (digits : List Char) : UInt32 :=
  UInt32.ofNat (min (digits.foldl (fun n c => n * 10 + (c.toNat - '0'.toNat)) 0) 4294967295)

/-- The token of a symbol. -/
def tokenOfSymbol (symbol : List Char) : Token :=
  if symbol.all (·.isDigit) then .number (numberOf symbol) else .word (String.ofList symbol)

/-- What is found at the front of the characters.  `width` counts the characters
up to the end of the token, `seen` those that were looked at. -/
inductive Lexed where
  | token (t : Token) (width seen : Nat) (rest : List Char)
  | finish (seen : Nat)
  | failure (e : LexError) (seen : Nat)

/-- Take a token, or find that there is none. -/
def lexToken (cs : List Char) : Lexed :=
  match skip .blank 0 cs with
  | .error (e, seen) => .failure e seen
  | .ok (n, []) => .finish (n + 1)
  | .ok (n, c :: rest) =>
    if c = '[' then .token .leftBracket (n + 1) (n + 1) rest
    else if c = ']' then .token .rightBracket (n + 1) (n + 1) rest
    else if c = '"' then
      match takeString [] 0 false (n + 1) rest with
      | .error (e, seen) => .failure e seen
      | .ok (s, width, rest) => .token (.text s) width width rest
    else
      match takeSymbol [] 0 n (c :: rest) with
      | .error (e, seen) => .failure e seen
      | .ok (symbol, width, rest) => .token (tokenOfSymbol symbol) width (width + 1) rest

/-- **A token takes something.** -/
theorem length_lexToken_lt {cs rest : List Char} {t : Token} {width seen : Nat}
    (h : lexToken cs = .token t width seen rest) : rest.length < cs.length := by
  unfold lexToken at h
  split at h
  · cases h
  · cases h
  · rename_i n c mid hs
    have hm := length_skip_le hs
    rw [List.length_cons] at hm
    repeat' split at h
    · cases h; omega
    · cases h; omega
    · cases h
    · rename_i ht
      cases h
      have := length_takeString_lt ht
      omega
    · cases h
    · rename_i ht
      cases h
      have := length_takeSymbol_lt ht
      rw [List.length_cons] at this
      omega

/-- The tokens of a text, each with the place of the last character looked at,
and how they end. -/
structure Tokens where
  tokens : List (Token × Place)
  /-- What follows the tokens, unless the text ends there. -/
  failure : Option LexError
  /-- The place where they end. -/
  endPlace : Place
  deriving DecidableEq, Inhabited

/-- Take all tokens from characters and their places, which have one place more
for the end, after the tokens found so far, the newest first. -/
def tokensFrom (found : List (Token × Place)) (cs : List Char) (places : List Place) : Tokens :=
  match _h : lexToken cs with
  | .token t width seen rest =>
    tokensFrom ((t, places[seen - 1]?.getD default) :: found) rest (places.drop width)
  | .finish seen => ⟨found.reverse, none, places[seen - 1]?.getD default⟩
  | .failure e seen => ⟨found.reverse, some e, places[seen - 1]?.getD default⟩
termination_by cs.length
decreasing_by exact length_lexToken_lt ‹_›

/-- All tokens of a text. -/
def tokenize (text : String) : Tokens :=
  let lines := lines text
  tokensFrom [] (charsOf lines) (placesFrom 1 lines ++ [endOf lines])

end CallText
end SquareDance
