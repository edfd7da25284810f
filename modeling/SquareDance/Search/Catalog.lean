/-
# The catalog of a search

A search chooses from a catalog of calls.  The name of a call tells by escapes what
has to be filled in: `@6` stands for people, `@h` for a direction, `@v` for a
tagging call.  Tagging calls are no choices of their own; they are listed by class,
and every one of them in class 0.
-/

import SquareDance.Call
import SquareDance.CallText.Words

namespace SquareDance

/-- What has to be filled in before a call can be used. -/
structure Needs where
  designator : Bool := false
  direction : Bool := false
  /-- Numbers have to be odd. -/
  oddNumbers : Bool := false
  /-- The class of a tagging call. -/
  tagger : Option Nat := none
  circulator : Bool := false
  deriving DecidableEq, Inhabited

namespace Needs

/-- Add what an escape stands for. -/
def addEscape (n : Needs) : Char → Needs
  | '6' | 'k' | 'K' | 'V' => { n with designator := true }
  | 'h' => { n with direction := true }
  | 'D' => { n with oddNumbers := true }
  | 'v' => { n with tagger := some 0 }
  | 'w' => { n with tagger := some 1 }
  | 'x' => { n with tagger := some 2 }
  | 'y' => { n with tagger := some 3 }
  | 'N' => { n with circulator := true }
  | _ => n

/-- Add what the escapes in a text stand for. -/
def addEscapes (n : Needs) : List Char → Needs
  | '@' :: c :: rest => (n.addEscape c).addEscapes rest
  | _ :: rest => n.addEscapes rest
  | [] => n

/-- What the name of a call asks for. -/
def ofName (name : String) : Needs := addEscapes {} name.toList

end Needs

/-- A call of a catalog. -/
structure CatalogCall where
  name : String
  level : Level
  flags1 : UInt32
  needs : Needs
  deriving DecidableEq, Inhabited

namespace CatalogCall

/-- A call that needs what its name asks for. -/
def make (name : String) (level : Level) (flags1 : UInt32) : CatalogCall :=
  { name, level, flags1, needs := .ofName name }

/-- The flag of a matrix that is about designated people. -/
def matrixDesignates : UInt32 := 0x1

/-- The flag of a matrix that takes a number. -/
def matrixTakesNumber : UInt32 := 0x400

/-- A call of a call book.  One that is a matrix may need people and a number
without saying so in its name. -/
def ofCall (c : Call) : CatalogCall :=
  let plain := make c.name c.level c.body.flags.flags1
  match c.body.definition with
  | .matrix flags _ =>
    { plain with
      needs := { plain.needs with
        designator := plain.needs.designator || flags &&& matrixDesignates != 0 }
      flags1 :=
        if flags &&& matrixTakesNumber ≠ 0 then plain.flags1 ||| CallFlags.numberUnit
        else plain.flags1 }
  | _ => plain

/-- How many numbers the call needs. -/
def numberCount (c : CatalogCall) : Nat :=
  ((c.flags1 &&& CallFlags.numberMask) / CallFlags.numberUnit).toNat

/-- The class of a tagging call. -/
def taggerClass? (c : CatalogCall) : Option Nat :=
  match ((c.flags1 &&& CallFlags.taggerMask) / CallFlags.taggerUnit).toNat with
  | 0 => none
  | n + 1 => some n

/-- The call can be used for circulating. -/
def isCirculator (c : CatalogCall) : Bool := c.flags1 &&& CallFlags.circulator != 0

/-- A scan may use the call for tagging: it is not barred, and it needs no choice of
its own. -/
def isScannableTagger (c : CatalogCall) : Bool :=
  c.flags1 &&& (CallFlags.notInResolve ||| CallFlags.numberMask) == 0
    && c.needs.tagger.isNone && !c.needs.circulator && !c.needs.designator && !c.needs.direction

end CatalogCall

/-- The number of a concept, which the catalog only hands on. -/
abbrev ConceptId := UInt16

/-- What a search chooses from. -/
structure Catalog where
  calls : Array CatalogCall := #[]
  /-- The tagging calls by class. -/
  taggers : Vector (Array CatalogCall) 4 := Vector.replicate 4 #[]
  /-- The positions in `calls` of those for circulating. -/
  circulators : Array Nat := #[]
  /-- The concepts that a random choice may insert. -/
  concepts : List ConceptId := []
  /-- The concepts that the scans try. -/
  scanConcepts : List ConceptId := []
  deriving DecidableEq

namespace Catalog

instance : Inhabited Catalog := ⟨{}⟩

/-- The number of classes of tagging calls. -/
def classCount : Nat := 4

/-- The tagging calls of a class; there are none of a class that does not exist. -/
def taggersOf (c : Catalog) (cls : Nat) : Array CatalogCall := c.taggers[cls]?.getD #[]

/-- Put a tagging call into a class. -/
def addTagger (c : Catalog) (cls : Nat) (call : CatalogCall) : Catalog :=
  if h : cls < 4 then { c with taggers := c.taggers.set cls (c.taggers[cls].push call) } else c

/-- Put a call of class 0 that needs a tagging call itself into the other classes,
where it needs one of the same class. -/
def addNested (c : Catalog) (call : CatalogCall) : Catalog :=
  [1, 2, 3].foldl
    (fun c cls => c.addTagger cls { call with needs := { call.needs with tagger := some cls } }) c

/-- Put a tagging call of a given class where it belongs. -/
def addTagging (c : Catalog) (cls : Nat) (call : CatalogCall) : Catalog :=
  if cls ≠ 0 then (c.addTagger 0 call).addTagger cls call
  else if call.needs.tagger.isSome then (c.addNested call).addTagger 0 call
  else c.addTagger 0 call

/-- Put a call that is no tagging call where it belongs. -/
def addPlain (c : Catalog) (call : CatalogCall) : Catalog :=
  { c with
    calls := c.calls.push call
    circulators :=
      if call.isCirculator then c.circulators.push c.calls.size else c.circulators }

/-- Put a call where it belongs.  A call of a class beyond the last is no tagging
call. -/
def add (c : Catalog) (call : CatalogCall) : Catalog :=
  match call.taggerClass? with
  | some cls => if cls < classCount then c.addTagging cls call else c.addPlain call
  | none => c.addPlain call

/-- The catalog of some calls. -/
def ofCalls (calls : List CatalogCall) : Catalog := calls.foldl add {}

/-- The catalog of a call book. -/
def ofBook (b : CallBook) : Catalog := ofCalls (b.calls.map .ofCall)

end Catalog
end SquareDance
