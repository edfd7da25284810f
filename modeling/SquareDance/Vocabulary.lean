/-
# Vocabularies

A vocabulary is a table of words, each known by its position.  A position whose
word is empty is out of use: later words keep their numbers, and no word names
it.
-/

namespace SquareDance

/-- A numbered list of words. -/
abbrev Vocabulary := List String

namespace Vocabulary

/-- The number of a word: its first position in the table. -/
def index? (table : Vocabulary) (word : String) : Option Nat :=
  if word = "" then none else table.idxOf? word

end Vocabulary
end SquareDance
