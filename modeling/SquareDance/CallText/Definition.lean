/-
# Definitions, calls and call books

A text of call definitions is a version and calls.  A call is its name, its level,
perhaps a tag, and bodies; a body is flags, a schema and what the schema asks for.

    version "12"
    call "swing thru" mainstream tag swing
       take_right_hands seq any_hand_swing [] seq centers_trade []
-/

import SquareDance.CallText.Arrays

namespace SquareDance
namespace CallText
namespace Parser

open Consumer

/-! ### Matrices -/

/-- Go on to a flag of a matrix and add it to those before it, or stop at what is no
symbol. -/
def matrixFlagStep (flags : UInt32) : Parser (UInt32 ⊕ UInt32) := do
  advance
  match ← symbol? with
  | none => return .inr flags
  | some word =>
    let i ← orFail (Words.matrixFlags.index? word) (.unknown "matrix call flag")
    return .inl (flags ||| Words.bit i)

/-- The parser goes on to every flag, and to what follows the last. -/
theorem takes_matrixFlagStep (flags : UInt32) : (matrixFlagStep flags).Takes :=
  takes_advance.bind fun _ => keeps_symbol?.bind fun _ => by
    split
    · exact .pure _
    · exact (keeps_orFail _ _).bind fun _ => .pure _

/-- The matrices so far, the newest first, and the head of the next. -/
structure MatrixProgress where
  groups : List MatrixGroup := []
  alternate : Option AlternateHeader := none
  deriving DecidableEq

/-- Read a matrix of a number of entries, and the head of the next if one follows. -/
def matrixStep (count : Nat) (p : MatrixProgress) :
    Parser (MatrixProgress ⊕ List MatrixGroup) := do
  let entries ← entries count true
  let groups := { alternate := p.alternate, entries } :: p.groups
  advanceOrEnd
  if ← isAtWord "alternate_definition" then
    let header ← alternateHeader
    advance
    return .inl { groups, alternate := some header }
  else return .inr groups.reverse

/-- The parser leaves a matrix behind in every turn. -/
theorem takes_matrixStep (count : Nat) (p : MatrixProgress) : (matrixStep count p).Takes :=
  (keeps_entries _ _).bind_takes fun _ => takes_advanceOrEnd.bind fun _ =>
    (keeps_isAtWord _).bind fun _ => by
      split
      · exact takes_alternateHeader.keeps.bind fun _ => takes_advance.keeps.bind fun _ => .pure _
      · exact .pure _

/-- The flags of a matrix and its groups, each of a number of entries. -/
def matrices (count : Nat) : Parser Definition := do
  let flags ← loop matrixFlagStep (fun b => (takes_matrixFlagStep b).turns) 0
  let groups ← loop (matrixStep count) (fun p => (takes_matrixStep count p).turns) {}
  return .matrix flags groups

/-- The parser goes on from the schema to the flags. -/
theorem takes_matrices (count : Nat) : (matrices count).Takes :=
  (takes_loop _ takes_matrixFlagStep 0).bind fun _ =>
    (keeps_loop _ (fun p => (takes_matrixStep count p).keeps) {}).bind fun _ => .pure _

/-! ### Bodies -/

/-- Go on to a part of a sequence and add it to those before it, the newest first, or
stop at what is none. -/
def partStep (flags : CallFlags) (parts : List SubCall) :
    Parser (List SubCall ⊕ List SubCall) := do
  advanceOrEnd
  if ← isAtWord "seq" then
    let part ← subCall "Improper seq symbol" true flags
    return .inl (part :: parts)
  else return .inr parts.reverse

/-- The parser goes on to every part, and to what follows the last. -/
theorem takes_partStep (flags : CallFlags) (parts : List SubCall) :
    (partStep flags parts).Takes :=
  takes_advanceOrEnd.bind fun _ => (keeps_isAtWord _).bind fun _ => by
    split
    · exact (takes_subCall _ _ _).keeps.bind fun _ => .pure _
    · exact .pure _

/-- The parts of a sequence. -/
def parts (flags : CallFlags) : Parser (List SubCall) := do
  let first ← subCall "Improper seq symbol" true flags
  loop (partStep flags) (fun b => (takes_partStep flags b).turns) [first]

/-- There is one part at least. -/
theorem takes_parts (flags : CallFlags) : (parts flags).Takes :=
  (takes_subCall _ _ _).bind fun _ => keeps_loop _ (fun b => (takes_partStep flags b).keeps) _

/-- A definition of a given form.  Only array definitions have array flags; another
name of a call has no flags and no tag. -/
def definition (flags : CallFlags) (arrayFlags : UInt32) (isTagged : Bool) :
    SchemaKind → Parser Definition
  | .array => do
    let groups ← arrayGroups arrayFlags
    return .array groups
  | .nothing => do
    advanceOrEnd
    return .nothing
  | .matrix => matrices 2
  | .partnerMatrix => matrices 16
  | .sequential => do
    let parts ← parts flags
    return .sequential parts
  | .sameAs => do
    if !flags.isEmpty || isTagged then malformed "Flags not allowed with alias"
    else
      let word ← symbol "Improper alias symbol"
      let tag ← referToTag word
      advanceOrEnd
      return .sameAs tag
  | .concentric => do
    let inner ← subCall "Improper conc symbol" false flags
    let outer ← subCall "Improper conc symbol" false flags
    advanceOrEnd
    return .concentric inner outer

/-- The parser goes on from the schema, whatever the form of the definition is. -/
theorem takes_definition (flags : CallFlags) (arrayFlags : UInt32) (isTagged : Bool)
    (k : SchemaKind) : (definition flags arrayFlags isTagged k).Takes := by
  cases k with
  | array => exact (takes_arrayGroups _).bind fun _ => .pure _
  | nothing => exact takes_advanceOrEnd.bind fun _ => .pure _
  | matrix => exact takes_matrices 2
  | partnerMatrix => exact takes_matrices 16
  | sequential => exact (takes_parts _).bind fun _ => .pure _
  | sameAs =>
    rw [definition]
    split
    · exact takes_fail _
    · exact (takes_symbol _).bind fun _ => (keeps_referToTag _).bind fun _ =>
        takes_advanceOrEnd.keeps.bind fun _ => .pure _
  | concentric =>
    exact (takes_subCall _ _ _).bind fun _ => (takes_subCall _ _ _).keeps.bind fun _ =>
      takes_advanceOrEnd.keeps.bind fun _ => .pure _

/-- A body, from its first flag or its schema. -/
def body (isTagged : Bool) : Parser CallBody := do
  let flags ← callFlags
  let arrayFlags ← arrayFlags
  let word ← indicator
  let schema ← orFail (Schema.ofName? word)
    (.malformed "Can't determine call definition type")
  if arrayFlags ≠ 0 ∧ schema.kind ≠ .array then
    malformed "Simple_funny or lateral_to_selectees out of place"
  else
    let definition ← definition flags arrayFlags isTagged schema.kind
    return { flags, schema, definition }

/-- The parser goes on from the schema, whether there are flags before it or not. -/
theorem takes_body (isTagged : Bool) : (body isTagged).Takes :=
  keeps_callFlags.bind_takes fun _ => keeps_arrayFlags.bind_takes fun _ =>
    keeps_indicator.bind_takes fun _ => (keeps_orFail _ _).bind_takes fun _ => by
      split
      · exact takes_fail _
      · exact (takes_definition _ _ _ _).bind fun _ => .pure _

/-! ### Calls -/

/-- The bodies of a call so far: the main one and its continuations, the newest
first. -/
structure BodyProgress where
  main : CallBody
  continuations : List CallBody := []
  deriving DecidableEq

/-- The last body so far. -/
def BodyProgress.last (p : BodyProgress) : CallBody := p.continuations.head?.getD p.main

/-- Read a continuation, or stop at the next call or the end. -/
def continuationStep (isTagged : Bool) (p : BodyProgress) :
    Parser (BodyProgress ⊕ List CallBody) := do
  match ← symbol? with
  | none => return .inr p.continuations.reverse
  | some word =>
    if word = "call" then return .inr p.continuations.reverse
    else if p.last.schema.kind = .sameAs then
      malformed "Compound definitions not allowed on alias"
    else
      let body ← body isTagged
      return .inl { p with continuations := body :: p.continuations }

/-- Every continuation takes something. -/
theorem turns_continuationStep (isTagged : Bool) (p : BodyProgress) :
    (continuationStep isTagged p).Turns :=
  keeps_symbol?.bind_turns fun _ => by
    split
    · exact .done _
    · split
      · exact .done _
      · split
        · exact turns_fail _
        · exact ((takes_body _).bind fun _ => .pure _).turns

/-- What is no continuation stays where it is. -/
theorem keeps_continuationStep (isTagged : Bool) (p : BodyProgress) :
    (continuationStep isTagged p).Keeps :=
  keeps_symbol?.bind fun _ => by
    split
    · exact .pure _
    · split
      · exact .pure _
      · split
        · exact keeps_fail _
        · exact (takes_body _).keeps.bind fun _ => .pure _

/-- The tag of a call, if the parser looks at one. -/
def tag? : Parser (Option TagId) := do
  if ← isAtWord "tag" then
    let word ← symbol "Improper tag"
    let tag ← defineTag word
    advance
    let _ ← indicator
    return some tag
  else return none

/-- A tag is read from the front, if there is one. -/
theorem keeps_tag? : tag?.Keeps :=
  (keeps_isAtWord _).bind fun _ => by
    split
    · exact (takes_symbol _).keeps.bind fun _ => (keeps_defineTag _).bind fun _ =>
        takes_advance.keeps.bind fun _ => keeps_indicator.bind fun _ => .pure _
    · exact .pure _

/-- A call, from the word `call` to the next one. -/
def call : Parser Call := do
  let name ← text "Improper call name"
  setCall name
  let word ← symbol "Improper level"
  let level ← orFail (Level.ofName? word) (.unknown "level")
  advance
  let _ ← indicator
  let tag ← tag?
  let body ← body tag.isSome
  let continuations ← loop (continuationStep tag.isSome)
    (turns_continuationStep tag.isSome) { main := body }
  return { name, level, tag, body, continuations }

/-- The parser goes on to the name of a call. -/
theorem takes_call : call.Takes :=
  (takes_text _).bind fun _ => (keeps_setCall _).bind fun _ => (takes_symbol _).keeps.bind fun _ =>
    (keeps_orFail _ _).bind fun _ => takes_advance.keeps.bind fun _ =>
      keeps_indicator.bind fun _ => keeps_tag?.bind fun _ => (takes_body _).keeps.bind fun _ =>
        (keeps_loop _ (keeps_continuationStep _) _).bind fun _ => .pure _

/-- Read a call and add it to those before it, the newest first, or stop at the end. -/
def callStep (calls : List Call) : Parser (List Call ⊕ List Call) := do
  match ← current? with
  | none => return .inr calls.reverse
  | some _ =>
    let word ← indicator
    if word = "call" then
      let c ← call
      return .inl (c :: calls)
    else malformed "Item in illegal context"

/-- Every call takes something. -/
theorem turns_callStep (calls : List Call) : (callStep calls).Turns :=
  keeps_current?.bind_turns fun _ => by
    split
    · exact .done _
    · refine keeps_indicator.bind_turns fun _ => ?_
      split
      · exact (takes_call.bind fun _ => .pure _).turns
      · exact turns_fail _

/-- The version of a text. -/
def version : Parser String := do
  present
  let word ← symbolHere "Improper \"version\" indicator"
  if word = "version" then text "Improper version string -- must be in quotes"
  else malformed "Missing version specification"

/-- A whole text: the call book, and the table of its tags. -/
def book : Parser (CallBook × TagTable Nat) := do
  let version ← version
  advanceOrEnd
  let calls ← loop callStep turns_callStep []
  let r ← left
  return ({ version, tagCount := UInt16.ofNat r.tags.size, calls }, r.tags)

end Parser
end CallText
end SquareDance
