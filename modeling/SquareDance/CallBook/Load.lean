/-
# Loading call books

The loader reads what `CallBook.toBytes` writes, and nothing else: it knows the
records by the highest bits of their first halfword, and stops with an error at
the first thing that writing cannot have put there.
-/

import SquareDance.CallBook.Bytes
import SquareDance.CallBook.Reader
import SquareDance.Text.Hex

namespace SquareDance
namespace CallBook

/-- Why bytes are not a call book. -/
inductive LoadError where
  | truncated (size : Nat)
  | badMagic (found : UInt16)
  | unsupportedVersion (found : UInt16)
  | unexpectedRecord (offset : Nat) (word : UInt16)
  | unknownLevel (level : UInt16)
  | unknownSchema (schema : UInt8)
  | unknownSetup (setup : UInt16)
  | unknownPredicate (predicate : UInt16)
  | badEntry (word : UInt16)
  | invalidText (offset : Nat)
  | countMismatch (expected : UInt16) (found : Nat)
  | trailingBytes (count : Nat)
  deriving DecidableEq, Inhabited

/-- What is wrong, as text. -/
def LoadError.message : LoadError → String
  | truncated size => "database ends unexpectedly at byte " ++ toString size
  | badMagic n => "not a call database (magic number " ++ toString n.toNat ++ ")"
  | unsupportedVersion n =>
    "database format version " ++ toString n.toNat ++ " is not supported"
  | unexpectedRecord offset word =>
    "unexpected record " ++ Text.hex4 word ++ " at byte " ++ toString offset
  | unknownLevel n => "unknown level " ++ toString n.toNat
  | unknownSchema n => "unknown schema " ++ toString n.toNat
  | unknownSetup n => "unknown setup " ++ toString n.toNat
  | unknownPredicate n => "unknown predicate " ++ toString n.toNat
  | badEntry w => "bad callarray entry " ++ Text.hex4 w
  | invalidText offset => "text at byte " ++ toString offset ++ " is not UTF-8"
  | countMismatch expected found =>
    "header says " ++ toString expected.toNat ++ " calls, found " ++ toString found
  | trailingBytes n => toString n ++ " bytes after the end mark"

/-- The error of a fault in a file of a given size. -/
def Fault.toError (size : Nat) : Fault → LoadError
  | truncated => .truncated size
  | badMagic n => .badMagic n
  | unsupportedVersion n => .unsupportedVersion n
  | unexpectedRecord left word => .unexpectedRecord (size - left) word
  | unknownLevel n => .unknownLevel n
  | unknownSchema n => .unknownSchema n
  | unknownSetup n => .unknownSetup n
  | unknownPredicate n => .unknownPredicate n
  | badEntry w => .badEntry w
  | invalidText left => .invalidText (size - left)

namespace Reader

open Consumer

/-- The halfword that comes next, if there is one. -/
def peek? : List UInt8 → Option UInt16
  | a :: b :: _ => some (halfwordOf a b)
  | _ => none

/-- The bits of a halfword that tell the kind of a record. -/
def kindMask : UInt16 := 0xE000

/-- The bits of a halfword that hold a tag. -/
def tagMask : UInt16 := 0x1FFF

/-- A sub-call or an alternate header comes next. -/
def subCallNext (bytes : List UInt8) : Bool :=
  (peek? bytes).any fun w => w &&& kindMask == subCallMark

/-- An array definition comes next. -/
def arrayDefNext (bytes : List UInt8) : Bool :=
  (peek? bytes).any fun w => w &&& arrayMark != 0

/-- A clause comes next. -/
def clauseNext (bytes : List UInt8) : Bool := peek? bytes == some predicateMark

/-- Stop at what comes next, or at its absence. -/
def unexpected {α : Type} : Reader α := fun bytes =>
  match peek? bytes with
  | some word => .error (.unexpectedRecord bytes.length word)
  | none => .error .truncated

/-- To stop leaves nothing to go on with. -/
theorem takes_unexpected {α : Type} : Takes (unexpected : Reader α) := by
  intro bytes x rest h
  unfold unexpected at h
  split at h <;> cases h

/-- Read a text of some bytes. -/
def text (n : Nat) : Reader String := do
  let bytes ← left
  let raw ← take n
  require (Text.ofUtf8? raw) (.invalidText bytes.length)

/-- A text takes its bytes, which may be none. -/
theorem keeps_text (n : Nat) : (text n).Keeps :=
  keeps_left.bind fun _ => (keeps_take n).bind fun _ => keeps_require _ _

/-- Read a text of some bytes that is filled up to whole halfwords. -/
def paddedText (n : Nat) : Reader String := do
  let bytes ← left
  let raw ← take (n + n % 2)
  require (Text.ofUtf8? (raw.take n)) (.invalidText bytes.length)

/-- A padded text takes whole halfwords, which may be none. -/
theorem keeps_paddedText (n : Nat) : (paddedText n).Keeps :=
  keeps_left.bind fun _ => (keeps_take _).bind fun _ => keeps_require _ _

/-- Read the tag of a sub-call. -/
def subCallTag : Reader TagId := do
  let bytes ← left
  if subCallNext bytes then
    let word ← halfword
    return word &&& tagMask
  else unexpected

/-- The tag of a sub-call is a halfword. -/
theorem takes_subCallTag : subCallTag.Takes :=
  keeps_left.bind_takes fun bytes => by
    split
    · exact takes_halfword.bind fun _ => .pure _
    · exact takes_unexpected

/-- Read a sub-call. -/
def subCall : Reader SubCall := do
  let tag ← subCallTag
  let modifiers1 ← fullword
  let modifiersh ← fullword
  return { tag, modifiers1, modifiersh }

/-- A sub-call begins with its tag. -/
theorem takes_subCall : subCall.Takes :=
  takes_subCallTag.bind fun _ =>
    takes_fullword.keeps.bind fun _ => takes_fullword.keeps.bind fun _ => .pure _

/-- Read an alternate header. -/
def alternate : Reader AlternateHeader := do
  let word ← halfword
  let level ← require (Level.ofIndex? (word &&& tagMask).toNat) (.unknownLevel (word &&& tagMask))
  let keys ← fullword
  return { level, keys }

/-- An alternate header begins with its level. -/
theorem takes_alternate : alternate.Takes :=
  takes_halfword.bind fun _ => (keeps_require _ _).bind fun _ =>
    takes_fullword.keeps.bind fun _ => .pure _

/-- Read an entry of an array. -/
def entry : Reader Entry := do
  let word ← halfword
  if word = 0 then return .empty
  else
    let d ← require (Destination.ofWord? word none) (.badEntry word)
    return .dest d

/-- An entry is a halfword. -/
theorem takes_entry : entry.Takes :=
  takes_halfword.bind fun word => by
    split
    · exact .pure _
    · exact (keeps_require _ _).bind fun _ => .pure _

/-- Read an entry of a matrix. -/
def matrixEntry : Reader Entry := do
  let word ← halfword
  if word = 0 then return .empty
  else
    let y ← halfword
    let d ← require (Destination.ofWord? word (some y)) (.badEntry word)
    return .dest d

/-- An entry of a matrix is one halfword or two. -/
theorem takes_matrixEntry : matrixEntry.Takes :=
  takes_halfword.bind fun word => by
    split
    · exact .pure _
    · exact takes_halfword.keeps.bind fun _ => (keeps_require _ _).bind fun _ => .pure _

/-- Read a matrix with an alternate header. -/
def alternateMatrix (count : Nat) : Reader MatrixGroup := do
  let header ← alternate
  let entries ← many matrixEntry count
  return { alternate := some header, entries }

/-- A matrix with a header begins with it. -/
theorem takes_alternateMatrix (count : Nat) : (alternateMatrix count).Takes :=
  takes_alternate.bind fun _ => (keeps_many takes_matrixEntry.keeps count).bind fun _ => .pure _

/-- Read the matrices of a definition: one without a header, then those with one. -/
def matrixGroups (count : Nat) : Reader (List MatrixGroup) := do
  let entries ← many matrixEntry count
  let more ← whileNext subCallNext (alternateMatrix count) (takes_alternateMatrix count)
  return { entries } :: more

/-- Read the number of an ending setup from a halfword that holds it. -/
def endSetup (word : UInt16) : Reader UInt8 :=
  let index := word &&& 0xFF
  require (if EndSetup.isIndex index.toNat then some index.toUInt8 else none)
    (.unknownSetup index)

/-- The number of a setup is in a halfword that was read before. -/
theorem keeps_endSetup (word : UInt16) : (endSetup word).Keeps := by
  unfold endSetup
  exact keeps_require _ _

/-- Read where the people of an array definition end. -/
def endPlace (flags : UInt32) (setups : UInt16) : Reader EndPlace := do
  let inner ← endSetup setups
  if flags &&& concentricFlag ≠ 0 then
    let word ← halfword
    let outer ← endSetup word
    return .concentric inner outer
  else return .plain inner

/-- Only the second setup takes something. -/
theorem keeps_endPlace (flags : UInt32) (setups : UInt16) : (endPlace flags setups).Keeps :=
  (keeps_endSetup _).bind fun _ => by
    split
    · exact takes_halfword.keeps.bind fun _ => (keeps_endSetup _).bind fun _ => .pure _
    · exact .pure _

/-- Read what is said when no clause applies. -/
def message : Reader ClausesMessage := do
  let bytes ← left
  let head ← halfword
  if head &&& arrayMark ≠ 0 then
    let m ← require (CannedMessage.ofCode? (head &&& ~~~arrayMark))
      (.unexpectedRecord bytes.length head)
    return .canned m
  else
    let s ← paddedText head.toNat
    return .text s

/-- What is said begins with a halfword for its kind or its length. -/
theorem takes_message : message.Takes :=
  keeps_left.bind_takes fun _ => takes_halfword.bind fun _ => by
    split
    · exact (keeps_require _ _).bind fun _ => .pure _
    · exact (keeps_paddedText _).bind fun _ => .pure _

/-- Read a clause with a number of entries. -/
def clause (count : Nat) : Reader Clause := do
  let _ ← halfword
  let index ← halfword
  let predicate ← require (Predicate.ofIndex? index.toNat) (.unknownPredicate index)
  let entries ← many entry count
  return { predicate, entries }

/-- A clause begins with its mark. -/
theorem takes_clause (count : Nat) : (clause count).Takes :=
  takes_halfword.bind fun _ => takes_halfword.keeps.bind fun _ =>
    (keeps_require _ _).bind fun _ => (keeps_many takes_entry.keeps count).bind fun _ => .pure _

/-- Read the destinations of an array definition. -/
def arrayBody (flags : UInt32) (count : Nat) : Reader ArrayBody := do
  if flags &&& clausesFlag ≠ 0 then
    let message ← message
    let clauses ← whileNext clauseNext (clause count) (takes_clause count)
    return .clauses message clauses
  else
    let entries ← many entry count
    return .plain entries

/-- Destinations take what they are made of, which may be nothing. -/
theorem keeps_arrayBody (flags : UInt32) (count : Nat) : (arrayBody flags count).Keeps := by
  unfold arrayBody
  split
  · exact takes_message.keeps.bind fun _ =>
      (keeps_whileNext clauseNext (takes_clause count)).bind fun _ => .pure _
  · exact (keeps_many takes_entry.keeps count).bind fun _ => .pure _

/-- Read an array definition. -/
def arrayDef : Reader ArrayDef := do
  let high ← halfword
  let word ← fullword
  let flags := (high &&& ~~~arrayMark).toUInt32 <<< 7 ||| word >>> 25
  let setups ← halfword
  let count ← require (StartSetup.entryCount? (setups >>> 8).toNat) (.unknownSetup (setups >>> 8))
  let finish ← endPlace flags setups
  let body ← arrayBody flags count
  return {
    finish, body
    start := (setups >>> 8).toUInt8
    flags := flags &&& ~~~(clausesFlag ||| concentricFlag)
    restriction := (word >>> 17).toUInt8
    qualifier := word &&& 0x1FFFF }

/-- An array definition begins with its flags. -/
theorem takes_arrayDef : arrayDef.Takes :=
  takes_halfword.bind fun _ => takes_fullword.keeps.bind fun _ => takes_halfword.keeps.bind fun _ =>
    (keeps_require _ _).bind fun _ => (keeps_endPlace _ _).bind fun _ =>
      (keeps_arrayBody _ _).bind fun _ => .pure _

/-- Read a thing in the definition of arrays. -/
def arrayItem : Reader ArrayItem := do
  let bytes ← left
  if arrayDefNext bytes then
    let d ← arrayDef
    return .member d
  else
    let h ← alternate
    return .header h

/-- Whether it is a definition or a header, something is read. -/
theorem takes_arrayItem : arrayItem.Takes :=
  keeps_left.bind_takes fun bytes => by
    split
    · exact takes_arrayDef.bind fun _ => .pure _
    · exact takes_alternate.bind fun _ => .pure _

/-- Read the groups of an array definition, none of them empty. -/
def arrayGroups : Reader (List ArrayGroup) := do
  let items ← whileNext (fun bytes => arrayDefNext bytes || subCallNext bytes) arrayItem
    takes_arrayItem
  let groups := ArrayGroup.ofItems items
  let bytes ← left
  if (peek? bytes).isNone || groups.isEmpty || groups.any (·.defs.isEmpty) then unexpected
  else return groups

/-- Read the parts of a sequential definition: one, then those that follow. -/
def parts : Reader (List SubCall) := do
  let first ← subCall
  let more ← whileNext subCallNext subCall takes_subCall
  return first :: more

/-- Read a definition of a given form. -/
def definition : SchemaKind → Reader Definition
  | .nothing => return .nothing
  | .array => do
    let groups ← arrayGroups
    return .array groups
  | .matrix => do
    let flags ← fullword
    let groups ← matrixGroups 2
    return .matrix flags groups
  | .partnerMatrix => do
    let flags ← fullword
    let groups ← matrixGroups 16
    return .matrix flags groups
  | .sequential => do
    let parts ← parts
    return .sequential parts
  | .concentric => do
    let inner ← subCall
    let outer ← subCall
    return .concentric inner outer
  | .sameAs => do
    let tag ← subCallTag
    return .sameAs tag

/-- Groups of arrays take the bytes that they are read from. -/
theorem keeps_arrayGroups : arrayGroups.Keeps :=
  (keeps_whileNext _ _).bind fun _ => keeps_left.bind fun _ => by
    split
    · exact takes_unexpected.keeps
    · exact .pure _

/-- Matrices take the bytes that they are read from. -/
theorem keeps_matrixGroups (count : Nat) : (matrixGroups count).Keeps :=
  (keeps_many takes_matrixEntry.keeps count).bind fun _ =>
    (keeps_whileNext _ _).bind fun _ => .pure _

/-- The parts of a sequence take the bytes that they are read from. -/
theorem keeps_parts : parts.Keeps :=
  takes_subCall.keeps.bind fun _ => (keeps_whileNext _ _).bind fun _ => .pure _

/-- A definition takes the bytes that it is read from, which may be none. -/
theorem keeps_definition (k : SchemaKind) : (definition k).Keeps := by
  cases k with
  | nothing => exact .pure _
  | array => exact keeps_arrayGroups.bind fun _ => .pure _
  | matrix =>
    exact takes_fullword.keeps.bind fun _ => (keeps_matrixGroups 2).bind fun _ => .pure _
  | partnerMatrix =>
    exact takes_fullword.keeps.bind fun _ => (keeps_matrixGroups 16).bind fun _ => .pure _
  | sequential => exact keeps_parts.bind fun _ => .pure _
  | concentric =>
    exact takes_subCall.keeps.bind fun _ => takes_subCall.keeps.bind fun _ => .pure _
  | sameAs => exact takes_subCallTag.keeps.bind fun _ => .pure _

/-- Read a body, and its name: that of a call is not empty, and a continuation
has none. -/
def body (isNamed : Bool) : Reader (String × CallBody) := do
  let overflow ← halfword
  let flags1 ← fullword
  let heritable ← fullword
  let bytes ← left
  let word ← halfword
  let schema ← require (Schema.ofIndex? word.toUInt8.toNat) (.unknownSchema word.toUInt8)
  let length := (word >>> 8).toNat
  check (isNamed == (length != 0)) (.unexpectedRecord bytes.length word)
  let name ← text length
  let definition ← definition schema.kind
  return (name, { flags := { flags1, overflow, heritable }, schema, definition })

/-- A body begins with its flags. -/
theorem takes_body (isNamed : Bool) : (body isNamed).Takes :=
  takes_halfword.bind fun _ => takes_fullword.keeps.bind fun _ => takes_fullword.keeps.bind fun _ =>
    keeps_left.bind fun _ => takes_halfword.keeps.bind fun _ => (keeps_require _ _).bind fun _ =>
      (keeps_check _ _).bind fun _ => (keeps_text _).bind fun _ =>
        (keeps_definition _).bind fun _ => .pure _

/-- Read a call without its continuations, after its first halfword. -/
def call (word : UInt16) : Reader Call := do
  let tag := word &&& tagMask
  let index ← byte
  let level ← require (Level.ofIndex? index.toNat) (.unknownLevel index.toUInt16)
  let (name, body) ← body true
  return { name, level, tag := if tag = 0 then none else some tag, body }

/-- A call begins with its level. -/
theorem takes_call (word : UInt16) : (call word).Takes :=
  takes_byte.bind fun _ => (keeps_require _ _).bind fun _ => (takes_body true).keeps.bind fun _ =>
    .pure _

/-- Read a record and add it to the calls before it, the newest first: a call, or
a continuation of the newest one. -/
def record (calls : List Call) : Reader (List Call) := do
  let bytes ← left
  let word ← halfword
  if word = continuationMark then
    let (_, body) ← body false
    match calls with
    | [] => throw (.unexpectedRecord bytes.length word)
    | c :: before => return { c with continuations := c.continuations ++ [body] } :: before
  else if word &&& kindMask = callMark then
    let c ← call word
    return c :: calls
  else throw (.unexpectedRecord bytes.length word)

/-- A record begins with a halfword for its kind. -/
theorem takes_record (calls : List Call) : (record calls).Takes :=
  keeps_left.bind_takes fun _ => takes_halfword.bind fun _ => by
    split
    · refine (takes_body false).keeps.bind fun _ => ?_
      cases calls with
      | nil => exact (Takes.throw _).keeps
      | cons c before => exact .pure _
    · split
      · exact (takes_call _).keeps.bind fun _ => .pure _
      · exact (Takes.throw _).keeps

/-- Read one more record, or the end mark, after the calls so far, the newest
first. -/
def recordStep (calls : List Call) : Reader (List Call ⊕ List Call) := do
  if peek? (← left) = some endMark then
    let _ ← halfword
    return .inr calls.reverse
  else
    let calls ← record calls
    return .inl calls

/-- After a record there are fewer bytes for the next. -/
theorem turns_recordStep (calls : List Call) : (recordStep calls).Turns :=
  keeps_left.bind_turns fun _ => by
    split
    · exact takes_halfword.keeps.bind_turns fun _ => .done _
    · exact ((takes_record calls).bind fun _ => .pure _).turns

/-- Read the records up to the end mark. -/
def records : Reader (List Call) := loop recordStep turns_recordStep []

/-- Read a call book, and the number of headers that it says it has. -/
def book : Reader (UInt16 × CallBook) := do
  let magic ← halfword
  check (magic == magicNumber) (.badMagic magic)
  let version ← halfword
  check (version == formatVersion) (.unsupportedVersion version)
  let expected ← halfword
  let tagCount ← halfword
  let length ← halfword
  let version ← text length.toNat
  let calls ← records
  return (expected, { version, tagCount, calls })

end Reader

/-- Load a call book. -/
def load (bytes : List UInt8) : Except LoadError CallBook :=
  match Reader.book bytes with
  | .error fault => .error (fault.toError bytes.length)
  | .ok ((expected, book), rest) =>
    if !rest.isEmpty then .error (.trailingBytes rest.length)
    else if book.headerCount ≠ expected.toNat then
      .error (.countMismatch expected book.headerCount)
    else .ok book

end CallBook
end SquareDance
