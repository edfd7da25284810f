/-
# Compiling call definitions

A text of call definitions becomes a call book and its bytes.  Compiling stops at
the first problem.  Tags that are used and not defined are reported together, at the
first use of one of them, when the whole text has been read.

The parser works on tokens without their places.  Where it counts the tokens left,
`Tokens.placeOf` finds the place.
-/

import SquareDance.CallText.Definition

namespace SquareDance
namespace CallText

/-- The place of the first of the tokens left, given their number. -/
def Tokens.placeOf (t : Tokens) (left : Nat) : Place :=
  (t.tokens[t.tokens.length - left]?.map (·.2)).getD t.endPlace

/-- The call book that tokens make up, and the table of its tags. -/
def parse (tokens : List Token) (failure : Option LexError) :
    Except Stop (CallBook × TagTable Nat) :=
  (Parser.book { tokens, failure }).map (·.1)

/-- What becomes of a text of call definitions. -/
structure Compilation where
  book : CallBook
  tags : TagTable Nat
  bytes : List UInt8
  cautions : List Caution

/-- Compile a text of call definitions. -/
def compile (text : String) : Except Report Compilation :=
  let t := tokenize text
  match parse (t.tokens.map (·.1)) t.failure with
  | .error stop => .error (.placed stop.problem (t.placeOf stop.left) stop.call)
  | .ok (book, tags) =>
    match tags.firstUndefinedUse fun a b => b < a with
    | some use => .error (.placed (.undefinedTags tags.undefined) (t.placeOf use.place) use.call)
    | none =>
      match book.toBytes with
      | .error e => .error (.unplaced (.unwritable e))
      | .ok bytes =>
        .ok { book, tags, bytes, cautions := tags.unreferenced.map .unreferencedTag }

end CallText
end SquareDance
