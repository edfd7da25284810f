/-
# Tags

A tag is a name by which definitions refer to a call.  A tag gets its number when
it is first mentioned, by a reference or by the call that it belongs to, so that a
call may be referred to before it is defined.  The base tags come first, with fixed
numbers; the first of them stands for no call and cannot be defined.

A table has two parts, which are changed one after the other: what is known of each
tag, in the order of the numbers, and a map from the names to the numbers.  The
number of a name is looked up in the map, the name of a number among the tags.

The table remembers where each tag was first referred to.  It does not matter to it
what a place is; who asks for the earliest reference says which of two places is
the earlier one.
-/

import SquareDance.CallText.Words

namespace SquareDance

/-- Where a tag was used: a place in a text, and the call whose definition it
stands in. -/
structure TagUse (π : Type) where
  place : π
  call : Option String
  deriving DecidableEq, Inhabited

/-- What is known of a tag. -/
structure TagEntry (π : Type) where
  name : String
  isDefined : Bool := false
  /-- The first reference to the tag. -/
  firstUse : Option (TagUse π) := none
  deriving DecidableEq, Inhabited

/-- Why a tag is refused. -/
inductive TagError where
  | duplicate (name : String)
  | tooMany
  deriving DecidableEq, Inhabited

/-- A table of tags: the tags in the order of their numbers, and their numbers by name. -/
structure TagTable (π : Type) where
  entries : Array (TagEntry π)
  /-- The number of each name.  Of two pairs with one name the first counts, so that to
  put a pair in front is to insert it into the map. -/
  byName : List (String × Nat)
  deriving DecidableEq

namespace TagTable

variable {π : Type}

/-- The greatest size of a table. -/
def maxSize : Nat := 8190

/-- The map that gives names their numbers, inserted one after the other. -/
def numbersOf (names : List String) : List (String × Nat) :=
  names.zipIdx.foldl (fun numbers pair => pair :: numbers) []

/-- The table of the base tags. -/
def base : TagTable π where
  entries := (Words.baseTags.zipIdx.map fun (name, i) => { name, isDefined := i == 0 }).toArray
  byName := numbersOf Words.baseTags

instance : Inhabited (TagTable π) := ⟨base⟩

/-- How many tags there are. -/
def size (t : TagTable π) : Nat := t.entries.size

/-- The number of a tag, as the map has it. -/
def index? (t : TagTable π) (name : String) : Option Nat := t.byName.lookup name

/-- The tag with a given number. -/
def name? (t : TagTable π) (i : Nat) : Option String := t.entries[i]?.map (·.name)

/-- A call is defined for a tag. -/
def isDefined (t : TagTable π) (i : Nat) : Bool := t.entries[i]?.any (·.isDefined)

/-- Put a tag that is not there into both parts of the table. -/
def add (t : TagTable π) (name : String) : TagTable π where
  entries := t.entries.push { name }
  byName := (name, t.size) :: t.byName

/-- The number of a tag, and the table after the tag was put into it if the map did not
have it. -/
def findOrAdd (t : TagTable π) (name : String) : Except TagError (Nat × TagTable π) :=
  match t.index? name with
  | some i => .ok (i, t)
  | none =>
    if t.size < maxSize then .ok (t.size, t.add name) else .error .tooMany

/-- Change what is known of a tag. -/
def modify (t : TagTable π) (i : Nat) (f : TagEntry π → TagEntry π) : TagTable π :=
  { t with entries := t.entries.modify i f }

/-- Define a tag: a call belongs to it. -/
def define (t : TagTable π) (name : String) : Except TagError (Nat × TagTable π) := do
  let (i, t) ← t.findOrAdd name
  if t.isDefined i then throw (.duplicate name)
  return (i, t.modify i fun e => { e with isDefined := true })

/-- Refer to a tag. -/
def reference (t : TagTable π) (name : String) (use : TagUse π) :
    Except TagError (Nat × TagTable π) := do
  let (i, t) ← t.findOrAdd name
  return (i, t.modify i fun e => { e with firstUse := e.firstUse <|> some use })

/-- The tags that are used and not defined. -/
def undefined (t : TagTable π) : List String :=
  (t.entries.toList.filter fun e => e.firstUse.isSome && !e.isDefined).map (·.name)

/-- The first of the earliest uses. -/
def earliest? (earlier : π → π → Bool) : List (TagUse π) → Option (TagUse π)
  | [] => none
  | u :: rest =>
    match earliest? earlier rest with
    | none => some u
    | some v => if earlier v.place u.place then some v else some u

/-- The earliest reference to a tag that is not defined. -/
def firstUndefinedUse (t : TagTable π) (earlier : π → π → Bool) : Option (TagUse π) :=
  earliest? earlier ((t.entries.toList.filter (!·.isDefined)).filterMap (·.firstUse))

/-- The tags, other than base tags, that are defined and not used. -/
def unreferenced (t : TagTable π) : List String :=
  ((t.entries.toList.drop Words.baseTags.length).filter
    fun e => e.isDefined && e.firstUse.isNone).map (·.name)

/-- There are 45 base tags. -/
@[simp] theorem size_base : (base : TagTable π).size = 45 := rfl

end TagTable
end SquareDance
