/-
# What is wrong with call definitions

A problem ends the reading of call definitions.  The report of it tells the line,
the call that was read last and the place on the line, which it marks by a bar:

    Error at line 3:
    Unknown level.
      Last call was: foo
    call "bar" mainstreem
                         |
-/

import SquareDance.CallBook.Bytes
import SquareDance.CallText.Place
import SquareDance.CallText.Tags
import SquareDance.CallText.Token

namespace SquareDance
namespace CallText

/-- What is wrong. -/
inductive Problem where
  /-- A token is malformed or out of place. -/
  | malformed (message : String)
  /-- A word is not in the table that it should be in. -/
  | unknown (what : String)
  | unexpectedEnd
  | duplicateTag (name : String)
  | tooManyTags
  | undefinedTags (names : List String)
  /-- An array has more or fewer entries than its setup has people. -/
  | entryCount (found expected : Nat)
  | unwritable (e : CallBook.WriteError)
  deriving DecidableEq, Inhabited

namespace Problem

/-- What is wrong, as text. -/
def message : Problem → String
  | malformed message => message
  | unknown what => "Unknown " ++ what
  | unexpectedEnd => "Unexpected end of file"
  | duplicateTag _ => "Multiple definition of a call tag"
  | tooManyTags => "Sorry, too many tagged calls"
  | undefinedTags names => "Tags not defined: " ++ ", ".intercalate names
  | entryCount found expected =>
    "Callarray list is too " ++ (if found < expected then "short" else "long")
      ++ " for this call"
  | unwritable e => e.message

/-- What is wrong when a tag is refused. -/
def ofTagError : TagError → Problem
  | .duplicate name => duplicateTag name
  | .tooMany => tooManyTags

end Problem

/-- A report of a problem. -/
structure Report where
  problem : Problem
  /-- The number of the line, from 1; 0 if the problem belongs to no line. -/
  line : Nat
  /-- The call that was read last. -/
  lastCall : Option String
  /-- The line, unless the text has ended. -/
  sourceLine : Option String
  column : Nat
  deriving DecidableEq, Inhabited

namespace Report

/-- A report of a problem that belongs to no line. -/
def unplaced (problem : Problem) : Report :=
  { problem, line := 0, lastCall := none, sourceLine := none, column := 0 }

/-- A report of a problem at a place. -/
def placed (problem : Problem) (place : Place) (lastCall : Option String) : Report :=
  { problem, line := place.line, lastCall, sourceLine := place.text, column := place.column }

/-- A report as text. -/
def render (r : Report) : String :=
  if r.line = 0 then "Error:\n" ++ r.problem.message ++ ".\n"
  else
    let counts := match r.problem with
      | .entryCount found expected =>
        "Error data are:   " ++ toString found ++ "   " ++ toString expected ++ "\n"
      | _ => ""
    let call := match r.lastCall with
      | some name => "  Last call was: " ++ name ++ "\n"
      | none => "\n"
    let source := match r.sourceLine with
      | some line => line ++ "\n" ++ String.ofList (List.replicate r.column ' ') ++ "|\n"
      | none => ""
    "Error at line " ++ toString r.line ++ ":\n" ++ r.problem.message ++ ".\n" ++ counts ++ call
      ++ source

end Report

/-- Something that may be wrong with call definitions that can be compiled. -/
inductive Caution where
  | unreferencedTag (name : String)
  deriving DecidableEq, Inhabited

/-- What may be wrong, as text. -/
def Caution.message : Caution → String
  | unreferencedTag name => "Tag \"" ++ name ++ "\" is defined but never used"

end CallText
end SquareDance
