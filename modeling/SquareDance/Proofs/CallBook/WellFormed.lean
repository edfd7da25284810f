/-
# Well-formed call books

What a call book has to be so that its bytes say all of it.  Every definition has the
form that its schema asks for, every list the length that a reader will expect, every
number room in its field.  `CallBody.IsWellFormed` leaves the length of texts open;
`CallBody.Fits` bounds it.
-/

import Mathlib.Algebra.Ring.Nat
import SquareDance.CallBook.Bytes

namespace SquareDance

open CallBook (clausesFlag concentricFlag arrayFlagsOverflow)

namespace Entry

/-- A destination has a spot that can be packed, and has or lacks a second coordinate. -/
def IsPacked (hasY : Bool) : Entry → Prop
  | empty => True
  | dest d => Destination.isValidPosition d.position.toNat = true ∧ d.y.isSome = hasY

instance (hasY : Bool) : (e : Entry) → Decidable (e.IsPacked hasY)
  | empty => inferInstanceAs (Decidable True)
  | dest _ => inferInstanceAs (Decidable (_ ∧ _))

/-- Entries as many as expected. -/
def AreRow (hasY : Bool) (count : Nat) (entries : List Entry) : Prop :=
  entries.length = count ∧ ∀ e ∈ entries, e.IsPacked hasY

instance (hasY : Bool) (count : Nat) (entries : List Entry) :
    Decidable (AreRow hasY count entries) := inferInstanceAs (Decidable (_ ∧ _))

end Entry

namespace EndPlace

/-- Ending setups are numbers of the table. -/
def IsWellFormed : EndPlace → Prop
  | plain index => EndSetup.isIndex index.toNat = true
  | concentric inner outer =>
    EndSetup.isIndex inner.toNat = true ∧ EndSetup.isIndex outer.toNat = true

instance : (p : EndPlace) → Decidable p.IsWellFormed
  | plain _ => inferInstanceAs (Decidable (_ = _))
  | concentric _ _ => inferInstanceAs (Decidable (_ ∧ _))

end EndPlace

namespace ClausesMessage

/-- The length of a text is below the mark of a canned message. -/
def Fits : ClausesMessage → Prop
  | text s => (Text.utf8 s).length ≤ 0x7FFF
  | canned _ => True

instance : (m : ClausesMessage) → Decidable m.Fits
  | text _ => inferInstanceAs (Decidable (_ ≤ _))
  | canned _ => inferInstanceAs (Decidable True)

end ClausesMessage

namespace ArrayBody

/-- Each row has the expected number of entries, and predicates have numbers. -/
def IsWellFormed (count : Nat) : ArrayBody → Prop
  | plain entries => Entry.AreRow false count entries
  | clauses _ cs =>
    ∀ c ∈ cs, c.predicate ∈ Predicate.all ∧ Entry.AreRow false count c.entries

instance (count : Nat) : (b : ArrayBody) → Decidable (b.IsWellFormed count)
  | plain entries => inferInstanceAs (Decidable (Entry.AreRow false count entries))
  | clauses _ cs => inferInstanceAs (Decidable
      (∀ c ∈ cs, c.predicate ∈ Predicate.all ∧ Entry.AreRow false count c.entries))

/-- What is said when no clause applies fits. -/
def Fits : ArrayBody → Prop
  | plain _ => True
  | clauses message _ => message.Fits

instance : (b : ArrayBody) → Decidable b.Fits
  | plain _ => inferInstanceAs (Decidable True)
  | clauses message _ => inferInstanceAs (Decidable message.Fits)

end ArrayBody

/-- An array definition has known setups, a row of entries for each starting spot, and
none of the flags that `finish` and `body` imply. -/
structure ArrayDef.IsWellFormed (d : ArrayDef) : Prop where
  body : ∃ count ∈ StartSetup.entryCount? d.start.toNat, d.body.IsWellFormed count
  finish : d.finish.IsWellFormed
  flags_overflow : d.flags &&& arrayFlagsOverflow = 0
  flags_clauses : d.flags &&& clausesFlag = 0
  flags_concentric : d.flags &&& concentricFlag = 0
  qualifier_lt : d.qualifier.toNat < 2 ^ 17

instance (d : ArrayDef) : Decidable d.IsWellFormed :=
  decidable_of_iff ((∃ count ∈ StartSetup.entryCount? d.start.toNat, d.body.IsWellFormed count) ∧
      d.finish.IsWellFormed ∧ d.flags &&& arrayFlagsOverflow = 0 ∧ d.flags &&& clausesFlag = 0 ∧
      d.flags &&& concentricFlag = 0 ∧ d.qualifier.toNat < 2 ^ 17)
    ⟨fun ⟨h₁, h₂, h₃, h₄, h₅, h₆⟩ => ⟨h₁, h₂, h₃, h₄, h₅, h₆⟩,
     fun ⟨h₁, h₂, h₃, h₄, h₅, h₆⟩ => ⟨h₁, h₂, h₃, h₄, h₅, h₆⟩⟩

/-- There is a group, none is empty, and each but the first has a head. -/
structure ArrayGroup.AreWellFormed (groups : List ArrayGroup) : Prop where
  ne_nil : groups ≠ []
  defs_ne_nil : ∀ g ∈ groups, g.defs ≠ []
  defs : ∀ g ∈ groups, ∀ d ∈ g.defs, d.IsWellFormed
  alternate : ∀ g ∈ groups.tail, g.alternate.isSome = true

instance (groups : List ArrayGroup) : Decidable (ArrayGroup.AreWellFormed groups) :=
  decidable_of_iff (groups ≠ [] ∧ (∀ g ∈ groups, g.defs ≠ []) ∧
      (∀ g ∈ groups, ∀ d ∈ g.defs, d.IsWellFormed) ∧
      ∀ g ∈ groups.tail, g.alternate.isSome = true)
    ⟨fun ⟨h₁, h₂, h₃, h₄⟩ => ⟨h₁, h₂, h₃, h₄⟩, fun ⟨h₁, h₂, h₃, h₄⟩ => ⟨h₁, h₂, h₃, h₄⟩⟩

/-- The first matrix has no head, each other has one. -/
def MatrixGroup.AreWellFormed (count : Nat) : List MatrixGroup → Prop
  | [] => False
  | first :: more => (first.alternate = none ∧ ∀ g ∈ more, g.alternate.isSome = true) ∧
    ∀ g ∈ first :: more, Entry.AreRow true count g.entries

instance (count : Nat) : (groups : List MatrixGroup) →
    Decidable (MatrixGroup.AreWellFormed count groups)
  | [] => inferInstanceAs (Decidable False)
  | _ :: _ => inferInstanceAs (Decidable (_ ∧ _))

/-- A tag that leaves room for the mark of a record. -/
def TagId.Fits (t : TagId) : Prop := t < 0x2000

instance (t : TagId) : Decidable t.Fits := inferInstanceAs (Decidable (t < 0x2000))

/-- A definition has the form that its schema asks for. -/
def Definition.IsWellFormed (k : SchemaKind) : Definition → Prop
  | .nothing => k = .nothing
  | .array groups => k = .array ∧ ArrayGroup.AreWellFormed groups
  | .matrix _ groups => ∃ count ∈ k.matrixEntries?, MatrixGroup.AreWellFormed count groups
  | .sequential parts => k = .sequential ∧ parts ≠ [] ∧ ∀ s ∈ parts, TagId.Fits s.tag
  | .concentric inner outer => k = .concentric ∧ TagId.Fits inner.tag ∧ TagId.Fits outer.tag
  | .sameAs tag => k = .sameAs ∧ TagId.Fits tag

instance (k : SchemaKind) : (d : Definition) → Decidable (d.IsWellFormed k)
  | .nothing => inferInstanceAs (Decidable (_ = _))
  | .array _ => inferInstanceAs (Decidable (_ ∧ _))
  | .matrix _ groups =>
    inferInstanceAs (Decidable (∃ count ∈ k.matrixEntries?, MatrixGroup.AreWellFormed count groups))
  | .sequential _ => inferInstanceAs (Decidable (_ ∧ _))
  | .concentric _ _ => inferInstanceAs (Decidable (_ ∧ _))
  | .sameAs _ => inferInstanceAs (Decidable (_ ∧ _))

/-- Each message of an array definition fits. -/
def Definition.Fits : Definition → Prop
  | .array groups => ∀ g ∈ groups, ∀ d ∈ g.defs, d.body.Fits
  | _ => True

instance : (d : Definition) → Decidable d.Fits
  | .array groups => inferInstanceAs (Decidable (∀ g ∈ groups, ∀ d ∈ g.defs, d.body.Fits))
  | .nothing | .matrix _ _ | .sequential _ | .concentric _ _ | .sameAs _ =>
    inferInstanceAs (Decidable True)

namespace CallBody

/-- A body has the definition that its schema asks for. -/
def IsWellFormed (b : CallBody) : Prop := b.definition.IsWellFormed b.schema.kind

instance (b : CallBody) : Decidable b.IsWellFormed :=
  inferInstanceAs (Decidable (b.definition.IsWellFormed b.schema.kind))

/-- Each message of the definition fits. -/
def Fits (b : CallBody) : Prop := b.definition.Fits

instance (b : CallBody) : Decidable b.Fits := inferInstanceAs (Decidable b.definition.Fits)

end CallBody

/-- A call without a tag, or with one that is not taken for the mark of another record. -/
def Call.TagFits : Option TagId → Prop
  | none => True
  | some t => 1 ≤ t.toNat ∧ t.toNat ≤ 0x1FFE

instance : (tag : Option TagId) → Decidable (Call.TagFits tag)
  | none => inferInstanceAs (Decidable True)
  | some _ => inferInstanceAs (Decidable (_ ∧ _))

/-- A call has a name of one byte to 255, a tag that fits,
and bodies that are well formed. -/
structure Call.IsWellFormed (c : Call) : Prop where
  name_pos : 1 ≤ (Text.utf8 c.name).length
  name_le : (Text.utf8 c.name).length ≤ 255
  tag : Call.TagFits c.tag
  bodies : ∀ b ∈ c.bodies, b.IsWellFormed ∧ b.Fits

instance (c : Call) : Decidable c.IsWellFormed :=
  decidable_of_iff (1 ≤ (Text.utf8 c.name).length ∧ (Text.utf8 c.name).length ≤ 255 ∧
      Call.TagFits c.tag ∧ ∀ b ∈ c.bodies, b.IsWellFormed ∧ b.Fits)
    ⟨fun ⟨h₁, h₂, h₃, h₄⟩ => ⟨h₁, h₂, h₃, h₄⟩, fun ⟨h₁, h₂, h₃, h₄⟩ => ⟨h₁, h₂, h₃, h₄⟩⟩

/-- The header of a call book can hold its counts, and its calls are well formed. -/
structure CallBook.IsWellFormed (b : CallBook) : Prop where
  count_le : b.headerCount ≤ 65535
  version_le : (Text.utf8 b.version).length ≤ 65535
  calls : ∀ c ∈ b.calls, c.IsWellFormed

instance (b : CallBook) : Decidable b.IsWellFormed :=
  decidable_of_iff (b.headerCount ≤ 65535 ∧ (Text.utf8 b.version).length ≤ 65535 ∧
      ∀ c ∈ b.calls, c.IsWellFormed)
    ⟨fun ⟨h₁, h₂, h₃⟩ => ⟨h₁, h₂, h₃⟩, fun ⟨h₁, h₂, h₃⟩ => ⟨h₁, h₂, h₃⟩⟩

end SquareDance
