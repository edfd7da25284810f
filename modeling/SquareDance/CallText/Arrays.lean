/-
# Array definitions

An array definition names the setups in which people start and end, then its
options, then the destinations: an array with an entry for each place, or clauses
with an array each.

    setup 1x4 1x4
       qualifier wave_only
       array [2S 1N 4S 3N]

An entry is 0, or a destination; in a matrix a number follows each destination.
-/

import SquareDance.CallText.FlagWords
import SquareDance.CallText.Modifiers
import SquareDance.Call.Qualifier
import SquareDance.Call.Spelling

namespace SquareDance

/-- A word that is part of a qualifier, besides its name. -/
inductive Qualifier.Sign where
  | left
  | right
  | live
  | tBone
  | notTBone
  | explicit
  /-- A number follows. -/
  | number
  deriving DecidableEq, Inhabited

namespace Qualifier

/-- What a word before the name of a qualifier stands for. -/
def Sign.ofWord? : String → Option Sign
  | "left" => some .left
  | "out" => some .left
  | "right" => some .right
  | "in" => some .right
  | "live" => some .live
  | "tbone" => some .tBone
  | "ntbone" => some .notTBone
  | "explicit" => some .explicit
  | "num" => some .number
  | _ => none

/-- Add a sign that stands alone; of the T-bone signs only one may be given.  A sign
that needs a number adds nothing by itself. -/
def addSign (bits : UInt32) : Sign → Except String UInt32
  | .left => .ok (bits ||| left)
  | .right => .ok (bits ||| right)
  | .live => .ok (bits ||| live)
  | .tBone =>
    if bits &&& (tBone ||| notTBone) ≠ 0 then
      .error "Can't specify both \"tbone\" and \"ntbone\""
    else .ok (bits ||| tBone)
  | .notTBone =>
    if bits &&& (tBone ||| notTBone) ≠ 0 then
      .error "Can't specify both \"tbone\" and \"ntbone\""
    else .ok (bits ||| notTBone)
  | .explicit =>
    if bits &&& (tBone ||| notTBone) ≠ 0 then
      .error "Can't specify \"explicit\" and \"tbone\""
    else .ok (bits ||| (tBone ||| notTBone))
  | .number => .ok bits

/-- Add a number. -/
def addNumber (bits n : UInt32) : Except String UInt32 :=
  if maxNumber < n then .error "Number may not be greater than 14"
  else .ok (bits ||| (n + 1) * numberUnit)

end Qualifier

namespace ArrayFlags

/-- The flag that a word before a restriction stands for. -/
def strengthOfWord? : String → Option UInt32
  | "unusual" => some unusual
  | "forbidden" => some forbidden
  | "resolve_ok" => some resolveOk
  | "controversial" => some controversial
  | "serious_violation" => some seriousViolation
  | "assume_dpt" => some assumeDpt
  | "each_1x3" => some each1x3
  | _ => none

/-- The flag that an option of an array definition stands for. -/
def ofOption? : String → Option UInt32
  | "rotate" => some rotate
  | "no_cutting_through" => some noCuttingThrough
  | "no_facing_ends" => some noFacingEnds
  | "other_elongate" => some otherElongate
  | "really_want_diamond" => some reallyWantDiamond
  | "no_compress" => some noCompress
  | "plus_eighth_rotation" => some plusEighthRotation
  | _ => none

end ArrayFlags

namespace CallText
namespace Parser

open Consumer

/-! ### Entries -/

/-- The number that follows a destination in a matrix. -/
def offset : Parser UInt16 := do
  let n ← number "Improper y coordinate"
  if n < 65536 then return n.toUInt16 else malformed "Improper y coordinate"

/-- The parser goes on to the number. -/
theorem takes_offset : offset.Takes :=
  (takes_number _).bind fun _ => by
    split
    · exact .pure _
    · exact keeps_fail _

/-- The entry that the parser looks at, or none at the closing bracket. -/
def entryHere? (matrix : Bool) : Parser (Option Entry) := do
  match ← current? with
  | some .rightBracket => return none
  | some (.number 0) => return some .empty
  | some (.word s) =>
    let d ← accepted ((Destination.ofText s).mapError (·.message))
    if matrix then
      let y ← offset
      return some (.dest { d with y := some y })
    else return some (.dest d)
  | _ => malformed "Improper callarray element"

/-- An entry takes a token only if it has an offset. -/
theorem keeps_entryHere? (matrix : Bool) : (entryHere? matrix).Keeps :=
  keeps_current?.bind fun _ => by
    split
    · exact .pure _
    · exact .pure _
    · refine (keeps_accepted _).bind fun _ => ?_
      split
      · exact takes_offset.keeps.bind fun _ => .pure _
      · exact .pure _
    · exact keeps_fail _

/-- Go on to an entry and add it to those before it, the newest first, or stop at
the closing bracket. -/
def entryStep (matrix : Bool) (entries : List Entry) :
    Parser (List Entry ⊕ List Entry) := do
  advance
  match ← entryHere? matrix with
  | none => return .inr entries.reverse
  | some e => return .inl (e :: entries)

/-- The parser goes on to every entry. -/
theorem takes_entryStep (matrix : Bool) (entries : List Entry) :
    (entryStep matrix entries).Takes :=
  takes_advance.bind fun _ => (keeps_entryHere? _).bind fun _ => by
    split
    · exact .pure _
    · exact .pure _

/-- An array of a given number of entries, up to the closing bracket. -/
def entries (expected : Nat) (matrix : Bool) : Parser (List Entry) := do
  if !(← isAt .leftBracket) then malformed "Missing left bracket in callarray list"
  else
    let entries ← loop (entryStep matrix) (fun b => (takes_entryStep matrix b).turns) []
    if entries.length = expected then return entries
    else fail (.entryCount entries.length expected)

/-- An array is read from the front. -/
theorem keeps_entries (expected : Nat) (matrix : Bool) : (entries expected matrix).Keeps :=
  (keeps_isAt _).bind fun _ => by
    split
    · exact keeps_fail _
    · refine (keeps_loop _ (fun b => (takes_entryStep matrix b).keeps) []).bind fun _ => ?_
      split
      · exact .pure _
      · exact keeps_fail _

/-! ### Clauses -/

/-- Go on to a clause and add it to those before it, the newest first, or stop at
what is none. -/
def clauseStep (size : Nat) (clauses : List Clause) :
    Parser (List Clause ⊕ List Clause) := do
  advanceOrEnd
  if ← isAtWord "if" then
    let word ← symbol "Improper predicate"
    let predicate ← orFail (Predicate.ofName? word) (.unknown "predicate")
    advance
    let entries ← entries size false
    return .inl ({ predicate, entries } :: clauses)
  else return .inr clauses.reverse

/-- The parser goes on to every clause, and to what follows the last. -/
theorem takes_clauseStep (size : Nat) (clauses : List Clause) :
    (clauseStep size clauses).Takes :=
  takes_advanceOrEnd.bind fun _ => (keeps_isAtWord _).bind fun _ => by
    split
    · exact (takes_symbol _).keeps.bind fun _ => (keeps_orFail _ _).bind fun _ =>
        takes_advance.keeps.bind fun _ => (keeps_entries _ _).bind fun _ => .pure _
    · exact .pure _

/-- Clauses, up to what is none. -/
def clauses (size : Nat) : Parser (List Clause) :=
  loop (clauseStep size) (fun b => (takes_clauseStep size b).turns) []

/-- Clauses are read from the front. -/
theorem keeps_clauses (size : Nat) : (clauses size).Keeps :=
  keeps_loop _ (fun b => (takes_clauseStep size b).keeps) []

/-! ### Qualifiers and restrictions -/

/-- Add a sign to those of a qualifier before it, or stop at another word. -/
def qualifierStep (bits : UInt32) : Parser (UInt32 ⊕ UInt32) := do
  match (← symbol?).bind Qualifier.Sign.ofWord? with
  | none => return .inr bits
  | some .number =>
    let n ← number "Need a qualifier number here"
    let bits ← accepted (Qualifier.addNumber bits n)
    advance
    return .inl bits
  | some sign =>
    let bits ← accepted (Qualifier.addSign bits sign)
    advance
    return .inl bits

/-- Every sign of a qualifier is left behind. -/
theorem turns_qualifierStep (bits : UInt32) : (qualifierStep bits).Turns :=
  keeps_symbol?.bind_turns fun _ => by
    split
    · exact .done _
    · exact ((takes_number _).keeps.bind_takes fun _ => (keeps_accepted _).bind_takes fun _ =>
        takes_advance.bind fun _ => .pure _).turns
    · exact ((keeps_accepted _).bind_takes fun _ => takes_advance.bind fun _ => .pure _).turns

/-- A word that is no sign stays where it is. -/
theorem keeps_qualifierStep (bits : UInt32) : (qualifierStep bits).Keeps :=
  keeps_symbol?.bind fun _ => by
    split
    · exact .pure _
    · exact (takes_number _).keeps.bind fun _ => (keeps_accepted _).bind fun _ =>
        takes_advance.keeps.bind fun _ => .pure _
    · exact (keeps_accepted _).bind fun _ => takes_advance.keeps.bind fun _ => .pure _

/-- A qualifier, up to its name. -/
def qualifier : Parser UInt32 := do
  advance
  let bits ← loop qualifierStep turns_qualifierStep 0
  let word ← symbolHere "Improper qualifier"
  let code ← orFail (Qualifier.index? word) (.unknown "qualifier")
  return bits ||| UInt32.ofNat code

/-- The parser goes on to a qualifier. -/
theorem takes_qualifier : qualifier.Takes :=
  takes_advance.bind fun _ => (keeps_loop _ keeps_qualifierStep 0).bind fun _ =>
    (keeps_symbolHere _).bind fun _ => (keeps_orFail _ _).bind fun _ => .pure _

/-- A restriction, up to the name of its qualifier: the flag of its strength, and the
number of the qualifier. -/
def restriction : Parser (UInt32 × UInt8) := do
  let first ← symbol "Improper restriction specifier"
  match ArrayFlags.strengthOfWord? first with
  | some strength =>
    let word ← symbol "Improper restriction specifier"
    let code ← orFail (Qualifier.index? word) (.unknown "restriction specifier")
    return (strength, UInt8.ofNat code)
  | none =>
    let code ← orFail (Qualifier.index? first) (.unknown "restriction specifier")
    return (0, UInt8.ofNat code)

/-- The parser goes on to a restriction. -/
theorem takes_restriction : restriction.Takes :=
  (takes_symbol _).bind fun _ => by
    split
    · exact (takes_symbol _).keeps.bind fun _ => (keeps_orFail _ _).bind fun _ => .pure _
    · exact (keeps_orFail _ _).bind fun _ => .pure _

/-! ### Definitions -/

/-- The name of an ending setup. -/
def endSetup (message what : String) : Parser UInt8 := do
  let word ← symbol message
  let index ← orFail (EndSetup.index? word) (.unknown what)
  return UInt8.ofNat index

/-- The parser goes on to the name of a setup. -/
theorem takes_endSetup (message what : String) : (endSetup message what).Takes :=
  (takes_symbol _).bind fun _ => (keeps_orFail _ _).bind fun _ => .pure _

/-- The two ending setups of centers and ends, and the flag for the rotation of the
outer one. -/
def concentricEnd : Parser (EndPlace × UInt32) := do
  let inner ← endSetup "Improper setup specifier" "setup specifier"
  let outer ← endSetup "Improper setup specifier" "setup specifier"
  match ← number "Improper second rotation" with
  | 0 => return (.concentric inner outer, 0)
  | 1 => return (.concentric inner outer, ArrayFlags.rotateOuter)
  | _ => malformed "Improper second rotation"

/-- The parser goes on to the name of the inner setup. -/
theorem takes_concentricEnd : concentricEnd.Takes :=
  (takes_endSetup _ _).bind fun _ => (takes_endSetup _ _).keeps.bind fun _ =>
    (takes_number _).keeps.bind fun _ => by
      split
      · exact .pure _
      · exact .pure _
      · exact keeps_fail _

/-- The options of an array definition. -/
structure ArrayOptions where
  finish : EndPlace
  flags : UInt32 := 0
  restriction : UInt8 := 0
  qualifier : UInt32 := 0
  deriving DecidableEq, Inhabited

/-- The part of an array definition that a word begins. -/
inductive ArrayPart where
  | entries
  | clausesWithText
  | clausesWithMessage (m : CannedMessage)
  | qualifier
  | restriction
  | concentricEnd
  | flag (bits : UInt32)
  deriving DecidableEq, Inhabited

/-- The part that a word begins. -/
def ArrayPart.ofWord? (word : String) : Option ArrayPart :=
  match word with
  | "array" => some .entries
  | "preds" => some .clausesWithText
  | "qualifier" => some .qualifier
  | "restriction" => some .restriction
  | "concendsetup" => some .concentricEnd
  | _ =>
    (CannedMessage.ofName? word).map .clausesWithMessage
      <|> (ArrayFlags.ofOption? word).map .flag

/-- Stop: a word begins no part of an array definition. -/
def misplacedPart {α : Type} : Parser α :=
  malformed "Item in illegal context while parsing setups/preds/arrays"

/-- Read a part of an array definition with a number of entries, after its word: more
options, or the destinations, which come last. -/
def arrayPart (size : Nat) (o : ArrayOptions) : ArrayPart → Parser (ArrayOptions ⊕ ArrayBody)
  | .entries => do
    advance
    let entries ← entries size false
    advanceOrEnd
    return .inr (.plain entries)
  | .clausesWithText => do
    let message ← text "Missing string"
    let clauses ← clauses size
    return .inr (.clauses (.text message) clauses)
  | .clausesWithMessage m => do
    let clauses ← clauses size
    return .inr (.clauses (.canned m) clauses)
  | .qualifier => do
    if o.qualifier ≠ 0 then malformed "Only one qualifier is allowed"
    else
      let qualifier ← qualifier
      return .inl { o with qualifier }
  | .restriction => do
    let (strength, restriction) ← restriction
    return .inl { o with flags := o.flags ||| strength, restriction }
  | .concentricEnd =>
    match o.finish with
    | .concentric _ _ => misplacedPart
    | .plain index => do
      if index.toNat ≠ EndSetup.concentricIndex then
        malformed "concendsetup with wrong end_setup"
      else
        let (finish, flag) ← concentricEnd
        return .inl { o with finish, flags := o.flags ||| flag }
  | .flag bits => return .inl { o with flags := o.flags ||| bits }

/-- A part of an array definition is read from the front. -/
theorem keeps_arrayPart (size : Nat) (o : ArrayOptions) (p : ArrayPart) :
    (arrayPart size o p).Keeps := by
  cases p with
  | entries =>
    exact takes_advance.keeps.bind fun _ => (keeps_entries _ _).bind fun _ =>
      takes_advanceOrEnd.keeps.bind fun _ => .pure _
  | clausesWithText =>
    exact (takes_text _).keeps.bind fun _ => (keeps_clauses _).bind fun _ => .pure _
  | clausesWithMessage m => exact (keeps_clauses _).bind fun _ => .pure _
  | qualifier =>
    rw [arrayPart]
    split
    · exact keeps_fail _
    · exact takes_qualifier.keeps.bind fun _ => .pure _
  | restriction => exact takes_restriction.keeps.bind fun _ => .pure _
  | concentricEnd =>
    rw [arrayPart]
    split
    · exact keeps_fail _
    · split
      · exact keeps_fail _
      · exact takes_concentricEnd.keeps.bind fun _ => .pure _
  | flag bits => exact .pure _

/-- Go on to a part of an array definition and read it. -/
def arrayPartStep (size : Nat) (o : ArrayOptions) :
    Parser (ArrayOptions ⊕ (ArrayOptions × ArrayBody)) := do
  advance
  let word ← indicator
  match ArrayPart.ofWord? word with
  | none => misplacedPart
  | some part =>
    match ← arrayPart size o part with
    | .inl o => return .inl o
    | .inr body => return .inr (o, body)

/-- The parser goes on to every part of an array definition. -/
theorem takes_arrayPartStep (size : Nat) (o : ArrayOptions) :
    (arrayPartStep size o).Takes :=
  takes_advance.bind fun _ => keeps_indicator.bind fun _ => by
    split
    · exact keeps_fail _
    · refine (keeps_arrayPart _ _ _).bind fun _ => ?_
      split
      · exact .pure _
      · exact .pure _

/-- An array definition with the flags that stood before it. -/
def arrayDef (flags : UInt32) : Parser ArrayDef := do
  let word ← symbol "Improper starting setup"
  let start ← orFail (StartSetup.index? word) (.unknown "start setup")
  let size := (StartSetup.entryCount? start).getD 0
  let index ← endSetup "Improper ending setup" "ending setup"
  let (o, body) ← loop (arrayPartStep size) (fun o => (takes_arrayPartStep size o).turns)
    { finish := .plain index, flags }
  return {
    body
    start := UInt8.ofNat start
    finish := o.finish
    flags := o.flags
    restriction := o.restriction
    qualifier := o.qualifier }

/-- The parser goes on to the first setup of an array definition. -/
theorem takes_arrayDef (flags : UInt32) : (arrayDef flags).Takes :=
  (takes_symbol _).bind fun _ => (keeps_orFail _ _).bind fun _ =>
    (takes_endSetup _ _).keeps.bind fun _ =>
      (keeps_loop _ (fun o => (takes_arrayPartStep _ o).keeps) _).bind fun _ => .pure _

/-- The things in the definition of arrays so far, the newest first, and what is to
be read next: an array definition with the flags that stood before it. -/
structure ArrayProgress where
  items : List ArrayItem := []
  flags : UInt32
  deriving DecidableEq

/-- Read an array definition, and the head of a group if one follows. -/
def arrayStep (p : ArrayProgress) : Parser (ArrayProgress ⊕ List ArrayItem) := do
  let d ← arrayDef p.flags
  let items := .member d :: p.items
  match ← current? with
  | none => return .inr items.reverse
  | some _ =>
    let word ← indicator
    if word = "setup" then return .inl { items, flags := 0 }
    else if word = "alternate_definition" then
      let header ← alternateHeader
      advance
      let flags ← arrayFlags
      if ← isAtWord "setup" then return .inl { items := .header header :: items, flags }
      else malformed "Need \"setup\" indicator"
    else return .inr items.reverse

/-- There is an array definition in every turn. -/
theorem takes_arrayStep (p : ArrayProgress) : (arrayStep p).Takes :=
  (takes_arrayDef _).bind fun _ => keeps_current?.bind fun _ => by
    split
    · exact .pure _
    · refine keeps_indicator.bind fun _ => ?_
      split
      · exact .pure _
      · split
        · refine takes_alternateHeader.keeps.bind fun _ => takes_advance.keeps.bind fun _ =>
            keeps_arrayFlags.bind fun _ => (keeps_isAtWord _).bind fun _ => ?_
          split
          · exact .pure _
          · exact keeps_fail _
        · exact .pure _

/-- The groups of array definitions, of which the first has flags before it, up to
what is none. -/
def arrayGroups (flags : UInt32) : Parser (List ArrayGroup) := do
  let items ← loop arrayStep (fun p => (takes_arrayStep p).turns) { flags }
  return ArrayGroup.ofItems items

/-- There is one array definition at least. -/
theorem takes_arrayGroups (flags : UInt32) : (arrayGroups flags).Takes :=
  (takes_loop _ takes_arrayStep _).bind fun _ => .pure _

end Parser
end CallText
end SquareDance
