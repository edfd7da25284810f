/-
# Lines of a text and places in it

A text is a list of lines.  A line ends with a line feed, carriage returns before
it do not count, and a last line needs no line feed.  Whoever reads the text sees
every line, the last one too, end with a line feed.

A place is a character that has been read: the number of its line, its column and
the line itself.  The end of the text is a place as well, on a line after the
last one that has no text.
-/

namespace SquareDance
namespace CallText

/-- A place in a text. -/
structure Place where
  /-- The number of the line, from 1. -/
  line : Nat
  /-- The number of characters before it on the line. -/
  column : Nat
  /-- The line, unless the text has ended. -/
  text : Option String
  deriving DecidableEq, Inhabited

/-- A place is before another. -/
def Place.isBefore (a b : Place) : Bool :=
  a.line < b.line || a.line == b.line && a.column < b.column

/-- The line whose characters, the last one first, are as given. -/
def lineOf (reversed : List Char) : List Char :=
  (reversed.dropWhile (· = '\r')).reverse

/-- The lines of a text of which the beginning of the first line, the last
character first, has been read. -/
def linesFrom (reversed : List Char) : List Char → List (List Char)
  | [] => if reversed.isEmpty then [] else [lineOf reversed]
  | c :: rest =>
    if c = '\n' then lineOf reversed :: linesFrom [] rest else linesFrom (c :: reversed) rest

/-- The lines of a text. -/
def lines (text : String) : List (List Char) := linesFrom [] text.toList

/-- The characters that are read from some lines. -/
def charsOf (lines : List (List Char)) : List Char := lines.flatMap (· ++ ['\n'])

/-- The places of the characters of a line, its line feed included. -/
def placesOfLine (number : Nat) (line : List Char) : List Place :=
  let text := String.ofList line
  (List.range (line.length + 1)).map fun column => ⟨number, column, some text⟩

/-- The places of the characters of some lines, of which the first has the given
number. -/
def placesFrom (number : Nat) : List (List Char) → List Place
  | [] => []
  | line :: rest => placesOfLine number line ++ placesFrom (number + 1) rest

/-- The end of some lines: on a line after the last, in the column of its line
feed. -/
def endOf (lines : List (List Char)) : Place :=
  ⟨lines.length + 1, (lines.getLast?.map (·.length)).getD 0, none⟩

/-- There is a place for every character and for the end of every line. -/
theorem length_placesFrom (number : Nat) (lines : List (List Char)) :
    (placesFrom number lines).length = (charsOf lines).length := by
  induction lines generalizing number with
  | nil => rfl
  | cons line rest ih =>
    have h : charsOf (line :: rest) = line ++ ['\n'] ++ charsOf rest := by simp [charsOf]
    simp [placesFrom, placesOfLine, ih, h]
    omega

end CallText
end SquareDance
