/-
# Call definitions

A call has a name, a level and one or more bodies; the first is the main one and
the others continue it when it is danced as a compound.  A body has flags, a
schema and a definition of the form that the schema asks for.  Flag words are kept
as they are written.
-/

import SquareDance.Call.Destination
import SquareDance.Call.Flags
import SquareDance.Call.Schema
import SquareDance.Call.SetupNames
import SquareDance.Level
import SquareDance.Predicate

namespace SquareDance

/-- The number of a tag, by which definitions refer to calls. -/
abbrev TagId := UInt16

/-- The head of a group of alternative definitions, which hold if the call is
modified by the keys. -/
structure AlternateHeader where
  level : Level
  keys : UInt32
  deriving DecidableEq, Inhabited

/-- Where the people of an array definition end. -/
inductive EndPlace where
  | plain (index : UInt8)
  /-- Centers and ends end in setups of their own. -/
  | concentric (inner outer : UInt8)
  deriving DecidableEq, Inhabited

/-- What is said when no clause of a definition applies. -/
inductive CannedMessage where
  | cantDo
  | cantDoCallInSetup
  | noSelect
  deriving DecidableEq, Inhabited

namespace CannedMessage

/-- All messages, in the order of their codes. -/
def all : List CannedMessage := [cantDo, cantDoCallInSetup, noSelect]

/-- The word for a message in a text. -/
def name : CannedMessage → String
  | cantDo => "predscantdo"
  | cantDoCallInSetup => "predscantdocallinsetup"
  | noSelect => "predsnoselect"

/-- The canned message with a given name. -/
def ofName? (s : String) : Option CannedMessage := all.find? (·.name == s)

/-- **A message is found by its name.** -/
@[simp] theorem ofName?_name (m : CannedMessage) : ofName? m.name = some m := by
  cases m <;> rfl

/-- The number of a canned message. -/
def code : CannedMessage → UInt16
  | cantDo => 0
  | cantDoCallInSetup => 1
  | noSelect => 2

/-- The canned message with a given number. -/
def ofCode? (n : UInt16) : Option CannedMessage :=
  if n = 0 then some cantDo
  else if n = 1 then some cantDoCallInSetup
  else if n = 2 then some noSelect
  else none

/-- A message is read back from its code. -/
@[simp] theorem ofCode?_code (m : CannedMessage) : ofCode? m.code = some m := by
  cases m <;> rfl

end CannedMessage

/-- What is said when no clause of a definition applies: a text of its own, or a
canned one. -/
inductive ClausesMessage where
  | text (s : String)
  | canned (m : CannedMessage)
  deriving DecidableEq, Inhabited

/-- Destinations for the people of whom a predicate holds. -/
structure Clause where
  predicate : Predicate
  entries : List Entry
  deriving DecidableEq, Inhabited

/-- The destinations of an array definition. -/
inductive ArrayBody where
  | plain (entries : List Entry)
  /-- Clauses are tried in order; the first whose predicate holds wins. -/
  | clauses (message : ClausesMessage) (clauses : List Clause)
  deriving DecidableEq, Inhabited

/-- The destinations from one starting setup. -/
structure ArrayDef where
  /-- The number of the starting setup. -/
  start : UInt8
  finish : EndPlace
  /-- Flags, those left out that `finish` and `body` imply. -/
  flags : UInt32 := 0
  restriction : UInt8 := 0
  qualifier : UInt32 := 0
  body : ArrayBody
  deriving DecidableEq, Inhabited

/-- Array definitions that hold together, all of them or none. -/
structure ArrayGroup where
  alternate : Option AlternateHeader := none
  defs : List ArrayDef
  deriving DecidableEq, Inhabited

/-- A thing in the definition of arrays: the head of a group, or a member of it. -/
inductive ArrayItem where
  | header (h : AlternateHeader)
  | member (d : ArrayDef)
  deriving DecidableEq

namespace ArrayGroup

/-- Sort things into the members before the first head and the groups after it. -/
def splitItems : List ArrayItem → List ArrayDef × List ArrayGroup
  | [] => ([], [])
  | .member d :: rest => (d :: (splitItems rest).1, (splitItems rest).2)
  | .header h :: rest =>
    ([], { alternate := some h, defs := (splitItems rest).1 } :: (splitItems rest).2)

/-- The groups that things make up; members before the first head are a group
without one. -/
def ofItems (items : List ArrayItem) : List ArrayGroup :=
  let (defs, groups) := splitItems items
  if defs.isEmpty then groups else { defs } :: groups

end ArrayGroup

/-- One matrix of offsets. -/
structure MatrixGroup where
  alternate : Option AlternateHeader := none
  entries : List Entry
  deriving DecidableEq, Inhabited

/-- A reference to a call, with modifiers for it. -/
structure SubCall where
  tag : TagId
  modifiers1 : UInt32 := 0
  modifiersh : UInt32 := 0
  deriving DecidableEq, Inhabited

/-- How a call is danced. -/
inductive Definition where
  | nothing
  | array (groups : List ArrayGroup)
  | matrix (flags : UInt32) (groups : List MatrixGroup)
  | sequential (parts : List SubCall)
  | concentric (inner outer : SubCall)
  | sameAs (tag : TagId)
  deriving DecidableEq, Inhabited

/-- One definition of a call, with its flags. -/
structure CallBody where
  flags : CallFlags := {}
  schema : Schema
  definition : Definition
  deriving DecidableEq

/-- A call. -/
structure Call where
  name : String
  level : Level
  tag : Option TagId := none
  body : CallBody
  continuations : List CallBody := []
  deriving DecidableEq

/-- All bodies of a call, the main one first. -/
def Call.bodies (c : Call) : List CallBody := c.body :: c.continuations

/-- A set of calls, as compiled. -/
structure CallBook where
  version : String := ""
  /-- The size of the table of tags at the time of compilation. -/
  tagCount : UInt16 := 0
  calls : List Call := []
  deriving DecidableEq, Inhabited

namespace CallBook

/-- The number of call headers: one for each body. -/
def headerCount (b : CallBook) : Nat := (b.calls.flatMap (·.bodies)).length

/-- The first call of a given name. -/
def find? (b : CallBook) (name : String) : Option Call := b.calls.find? (·.name == name)

end CallBook
end SquareDance
