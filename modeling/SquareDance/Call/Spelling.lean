/-
# Reading destinations

A destination is spelled with the letters of its turn, slide and roll, the spot
and the letter of the direction, in either case: `CAL12W`, `fr4e`.

The reader takes the spot from the digits wherever they stand.  As many
characters as the word has letters, without the last one, are read as marks from
the left; the last character of the word must be a direction.
-/

import SquareDance.Call.Destination

namespace SquareDance
namespace Destination

/-- Why a text is no destination. -/
inductive SpellingError where
  | improperSpecifier
  | numberOutOfRange
  | improperDirection
  deriving DecidableEq, Inhabited

/-- What is wrong, as text. -/
def SpellingError.message : SpellingError → String
  | improperSpecifier => "Improper callarray specifier"
  | numberOutOfRange => "Callarray number out of range"
  | improperDirection => "Improper callarray direction specifier"

/-- A turn as far as its letters have been read.  `extra` counts the letters of a
run beyond the second one; a run that is not closed is no turn. -/
structure TurnReading where
  turn : Turn := {}
  extra : Nat := 0
  deriving DecidableEq, Inhabited

namespace TurnReading

/-- The turn after a run is closed: three letters, four or five. -/
def close (s : TurnReading) : TurnReading :=
  match s.extra with
  | 0 => ⟨⟨.aac, s.turn.reverse⟩, 0⟩
  | 1 => ⟨⟨.aaac, s.turn.reverse⟩, 0⟩
  | 2 => ⟨⟨.aaaac, s.turn.reverse⟩, 0⟩
  | _ => s

/-- Read one letter of a turn, if it can follow. -/
def step? (s : TurnReading) (c : Char) : Option TurnReading :=
  match s.turn.code with
  | .plain =>
    if s.turn.reverse then none
    else if c = 'Z' then some ⟨⟨.plain, true⟩, s.extra⟩
    else some ⟨⟨.a, c = 'C'⟩, s.extra⟩
  | .a =>
    if c = 'Z' then none
    else if (c == 'C') == s.turn.reverse then some ⟨⟨.aa, s.turn.reverse⟩, s.extra⟩
    else some ⟨⟨.ac, s.turn.reverse⟩, s.extra⟩
  | .aa =>
    if c = 'Z' then none
    else if (c == 'C') == s.turn.reverse then some { s with extra := s.extra + 1 }
    else some s.close
  | _ => none

/-- Read the letters of a turn from the front; what follows them is left over. -/
def read? (s : TurnReading) : List Char → Option (TurnReading × List Char)
  | [] => some (s, [])
  | c :: rest =>
    if c = 'Z' ∨ c = 'A' ∨ c = 'C' then (s.step? c).bind (·.read? rest)
    else some (s, c :: rest)

end TurnReading

/-- Read the mark of a slide from the front, if there is one. -/
def readSlide : List Char → Option SlideMark × List Char
  | 'F' :: rest => (some .f, rest)
  | 'G' :: rest => (some .g, rest)
  | rest => (none, rest)

/-- Read the mark of a roll, which comes last. -/
def readRoll? : List Char → Option (Option RollMark)
  | [] => some none
  | ['R'] => some (some .r)
  | ['L'] => some (some .l)
  | ['M'] => some (some .m)
  | _ => none

/-- The number that the digits of a word make, whatever stands between them. -/
def digitsValue (cs : List Char) : Nat :=
  (cs.filter (·.isDigit)).foldl (fun n c => n * 10 + (c.toNat - '0'.toNat)) 0

/-- The marks of a word: as many characters as it has letters, less one.  A word
without letters has no such part. -/
def marksOf? (cs : List Char) : Option (List Char) :=
  let letters := cs.countP (!·.isDigit)
  if letters = 0 then none else some (cs.take (letters - 1))

/-- Read the marks of a word. -/
def readMarks? (cs : List Char) : Option (Turn × Option SlideMark × Option RollMark) := do
  let marks ← marksOf? cs
  let (reading, rest) ← TurnReading.read? {} marks
  let (slide, rest) := readSlide rest
  if reading.extra ≠ 0 then none
  let roll ← readRoll? rest
  return (reading.turn, slide, roll)

/-- Read a destination. -/
def ofText (text : String) : Except SpellingError Destination := do
  let cs := text.toList.map Char.toUpper
  let some (turn, slide, roll) := readMarks? cs | throw .improperSpecifier
  let position := digitsValue cs
  if !isValidPosition position then throw .numberOutOfRange
  let some direction := cs.getLast?.bind Direction.ofLetter? | throw .improperDirection
  return { turn, slide, roll, direction, position := UInt8.ofNat position }

end Destination

/-- Read an entry: `0`, or a destination, which a second coordinate may follow after a
space. -/
def Entry.ofText (text : String) : Except Destination.SpellingError Entry := do
  if text = "0" then return .empty
  match text.splitOn " " with
  | [spelling, y] =>
    let d ← Destination.ofText spelling
    return .dest { d with y := y.toNat?.map UInt16.ofNat }
  | _ =>
    let d ← Destination.ofText text
    return .dest d

end SquareDance
