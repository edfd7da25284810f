/-
# Call books as bytes

A call book is written as a header and a stream of records, all numbers with the
high byte first:

| part | halfwords |
| --- | --- |
| header | 21316, 331, header count, tag count, version text |
| call | `0x2000` + tag, level (one byte), body |
| continuation | `0x3FFF`, body |
| end | 0 |

A body is its overflow flags, its two flag words, the length of the name and the
number of the schema in one halfword, the name, and the definition:

| definition | halfwords |
| --- | --- |
| array | for each group its alternate header, then its array definitions |
| matrix | the flag word, then for each group its alternate header and entries |
| sequential, concentric | the sub-calls: `0x4000` + tag and two modifier words |
| another call | `0x4000` + tag |
| alternate header | `0x4000` + level and the word of the keys |
| array definition | `0x8000` + flags, a word of flags, restriction and qualifier, the setups, the entries or the clauses |
| clauses | the length of the text and the text, or `0x8000` + message; then the clauses |
| clause | `0x6000`, the number of the predicate, the entries |

An entry of a matrix that is not empty has a second halfword.  A length or a
number that has no room in its field is refused.
-/

import SquareDance.Call
import SquareDance.Text.Utf8

namespace SquareDance
namespace CallBook

/-- Why a call book cannot be written. -/
inductive WriteError where
  | unlistedPredicate (name : String)
  | fieldOverflow (what : String)
  deriving DecidableEq, Inhabited

/-- What is wrong, as text. -/
def WriteError.message : WriteError → String
  | unlistedPredicate name => "predicate " ++ name ++ " has no database number"
  | fieldOverflow what => what ++ " does not fit its field"

/-- The bytes of a halfword. -/
def halfword (w : UInt16) : List UInt8 := [(w >>> 8).toUInt8, w.toUInt8]

/-- The bytes of a word. -/
def fullword (w : UInt32) : List UInt8 :=
  [(w >>> 24).toUInt8, (w >>> 16).toUInt8, (w >>> 8).toUInt8, w.toUInt8]

/-- The bytes of a length or a number that has to fit a halfword. -/
def fitted (n : Nat) (what : String) : Except WriteError (List UInt8) :=
  if n < 65536 then .ok (halfword (UInt16.ofNat n)) else .error (.fieldOverflow what)

/-- The number by which a file is known. -/
def magicNumber : UInt16 := 21316

/-- The version of the format. -/
def formatVersion : UInt16 := 331

/-- The kinds of records, in the highest bits of their first halfword. -/
def callMark : UInt16 := 0x2000

/-- A sub-call, or the head of a group of alternative definitions. -/
def subCallMark : UInt16 := 0x4000

/-- A clause of an array definition. -/
def predicateMark : UInt16 := 0x6000

/-- An array definition, whose flags begin below the highest bit. -/
def arrayMark : UInt16 := 0x8000

/-- A continuation of the call before it. -/
def continuationMark : UInt16 := 0x3FFF

/-- The end of the records. -/
def endMark : UInt16 := 0

/-- The flag of an array definition that has clauses. -/
def clausesFlag : UInt32 := 0x80

/-- The flag of an array definition that ends in two setups. -/
def concentricFlag : UInt32 := 0x4

/-- Flags for which an array definition has no room. -/
def arrayFlagsOverflow : UInt32 := 0xFFC00000

/-- The bytes of an alternate header. -/
def alternateBytes : Option AlternateHeader → List UInt8
  | none => []
  | some h => halfword (subCallMark ||| UInt16.ofNat h.level.index) ++ fullword h.keys

/-- The bytes of a sub-call. -/
def subCallBytes (s : SubCall) : List UInt8 :=
  halfword (subCallMark ||| s.tag) ++ fullword s.modifiers1 ++ fullword s.modifiersh

/-- The bytes of the entries of an array. -/
def entriesBytes (entries : List Entry) : List UInt8 :=
  entries.flatMap fun e => halfword e.word

/-- The bytes of an entry of a matrix. -/
def matrixEntryBytes : Entry → List UInt8
  | .empty => halfword 0
  | .dest d => halfword d.word ++ halfword (d.y.getD 0)

/-- The bytes of a text, filled up to whole halfwords. -/
def paddedText (s : String) : List UInt8 :=
  let bytes := Text.utf8 s
  if bytes.length % 2 = 0 then bytes else bytes ++ [0]

/-- The bytes of what is said when no clause applies. -/
def messageBytes : ClausesMessage → Except WriteError (List UInt8)
  | .text s => (fitted (Text.utf8 s).length "predicate message").map (· ++ paddedText s)
  | .canned m => .ok (halfword (arrayMark ||| m.code))

/-- The bytes of a clause. -/
def clauseBytes (c : Clause) : Except WriteError (List UInt8) :=
  match c.predicate.index? with
  | none => .error (.unlistedPredicate c.predicate.name)
  | some i =>
    (fitted i "predicate number").map fun number =>
      halfword predicateMark ++ number ++ entriesBytes c.entries

/-- The bytes of the destinations of an array definition. -/
def arrayBodyBytes : ArrayBody → Except WriteError (List UInt8)
  | .plain entries => .ok (entriesBytes entries)
  | .clauses message clauses => do
    let head ← messageBytes message
    let rest ← clauses.mapM clauseBytes
    return head ++ rest.flatten

/-- The flags of an array definition as written. -/
def arrayFlags (d : ArrayDef) : UInt32 :=
  let clauses := match d.body with
    | .plain _ => 0
    | .clauses _ _ => clausesFlag
  let concentric := match d.finish with
    | .plain _ => 0
    | .concentric _ _ => concentricFlag
  d.flags ||| clauses ||| concentric

/-- The bytes of the setups of an array definition. -/
def setupsBytes (start : UInt8) : EndPlace → List UInt8
  | .plain index => [start, index]
  | .concentric inner outer => [start, inner] ++ halfword outer.toUInt16

/-- The bytes of an array definition. -/
def arrayDefBytes (d : ArrayDef) : Except WriteError (List UInt8) := do
  let flags := arrayFlags d
  if flags &&& arrayFlagsOverflow ≠ 0 then throw (.fieldOverflow "callarray flags")
  let body ← arrayBodyBytes d.body
  return halfword (arrayMark ||| (flags >>> 7).toUInt16)
    ++ fullword ((flags &&& 0x7F) <<< 25 ||| d.restriction.toUInt32 <<< 17 ||| d.qualifier)
    ++ setupsBytes d.start d.finish ++ body

/-- The bytes of a group of array definitions. -/
def arrayGroupBytes (g : ArrayGroup) : Except WriteError (List UInt8) := do
  let defs ← g.defs.mapM arrayDefBytes
  return alternateBytes g.alternate ++ defs.flatten

/-- The bytes of a matrix. -/
def matrixGroupBytes (g : MatrixGroup) : List UInt8 :=
  alternateBytes g.alternate ++ g.entries.flatMap matrixEntryBytes

/-- The bytes of a definition. -/
def definitionBytes : Definition → Except WriteError (List UInt8)
  | .nothing => .ok []
  | .array groups => do
    let groups ← groups.mapM arrayGroupBytes
    return groups.flatten
  | .matrix flags groups => .ok (fullword flags ++ groups.flatMap matrixGroupBytes)
  | .sequential parts => .ok (parts.flatMap subCallBytes)
  | .concentric inner outer => .ok (subCallBytes inner ++ subCallBytes outer)
  | .sameAs tag => .ok (halfword (subCallMark ||| tag))

/-- The bytes of a body under a name, which a continuation lacks. -/
def bodyBytes (name : String) (b : CallBody) : Except WriteError (List UInt8) := do
  let nameBytes := Text.utf8 name
  if 255 < nameBytes.length then throw (.fieldOverflow "call name")
  let definition ← definitionBytes b.definition
  return halfword b.flags.overflow ++ fullword b.flags.flags1 ++ fullword b.flags.heritable
    ++ [UInt8.ofNat nameBytes.length, UInt8.ofNat b.schema.index] ++ nameBytes ++ definition

/-- The bytes of a continuation. -/
def continuationBytes (b : CallBody) : Except WriteError (List UInt8) := do
  let body ← bodyBytes "" b
  return halfword continuationMark ++ body

/-- The bytes of a call. -/
def callBytes (c : Call) : Except WriteError (List UInt8) := do
  let body ← bodyBytes c.name c.body
  let continuations ← c.continuations.mapM continuationBytes
  return halfword (callMark ||| c.tag.getD 0) ++ [UInt8.ofNat c.level.index] ++ body
    ++ continuations.flatten

/-- The bytes of a call book. -/
def toBytes (b : CallBook) : Except WriteError (List UInt8) := do
  let count ← fitted b.headerCount "call count"
  let version := Text.utf8 b.version
  let length ← fitted version.length "version string"
  let calls ← b.calls.mapM callBytes
  return halfword magicNumber ++ halfword formatVersion ++ count ++ halfword b.tagCount
    ++ length ++ version ++ calls.flatten ++ halfword endMark

end CallBook
end SquareDance
