/-
# Room in a call book

The writer refuses some numbers that have no room in their field: counts, the lengths of
names and of the version, flags beyond the word of an array definition, predicates without
a number.  It packs others without a look: tags beside the mark of a record, the qualifier
beside the restriction, flags that the end or the clauses of an array definition imply, the
length of a message beside the mark of a canned one.

`IsShaped` says that a call book has the form its schemas ask for, `HasRoom` that the
numbers of the second kind fit.  What is written of a shaped call book has room for the
numbers of the first kind, so the two make it well formed: `CallBook.isWellFormed_of_toBytes`.
Main statement: of the call books of a fixed shape that are written, those are read back
that have room, and only those, `load_iff_hasRoom`.  The others are loaded as something
else or not at all.
-/

import SquareDance.Proofs.CallBook.Rewriting

namespace SquareDance

open CallBook (clausesFlag concentricFlag arrayFlagsOverflow)

/-! ### Shape -/

/-- Each row has the expected number of entries. -/
def ArrayBody.IsShaped (count : Nat) : ArrayBody → Prop
  | plain entries => Entry.AreRow false count entries
  | clauses _ cs => ∀ c ∈ cs, Entry.AreRow false count c.entries

instance (count : Nat) : (b : ArrayBody) → Decidable (b.IsShaped count)
  | .plain entries => inferInstanceAs (Decidable (Entry.AreRow false count entries))
  | .clauses _ cs =>
    inferInstanceAs (Decidable (∀ c ∈ cs, Entry.AreRow false count c.entries))

/-- An array definition has known setups and a row of entries for each starting spot. -/
def ArrayDef.IsShaped (d : ArrayDef) : Prop :=
  (∃ count ∈ StartSetup.entryCount? d.start.toNat, d.body.IsShaped count) ∧
    d.finish.IsWellFormed

instance (d : ArrayDef) : Decidable d.IsShaped :=
  inferInstanceAs (Decidable ((∃ count ∈ StartSetup.entryCount? d.start.toNat,
    d.body.IsShaped count) ∧ d.finish.IsWellFormed))

/-- There is a group, none is empty, and each but the first has a head. -/
structure ArrayGroup.AreShaped (groups : List ArrayGroup) : Prop where
  ne_nil : groups ≠ []
  defs_ne_nil : ∀ g ∈ groups, g.defs ≠ []
  defs : ∀ g ∈ groups, ∀ d ∈ g.defs, d.IsShaped
  alternate : ∀ g ∈ groups.tail, g.alternate.isSome = true

instance (groups : List ArrayGroup) : Decidable (ArrayGroup.AreShaped groups) :=
  decidable_of_iff (groups ≠ [] ∧ (∀ g ∈ groups, g.defs ≠ []) ∧
      (∀ g ∈ groups, ∀ d ∈ g.defs, d.IsShaped) ∧
      ∀ g ∈ groups.tail, g.alternate.isSome = true)
    ⟨fun ⟨h₁, h₂, h₃, h₄⟩ => ⟨h₁, h₂, h₃, h₄⟩, fun ⟨h₁, h₂, h₃, h₄⟩ => ⟨h₁, h₂, h₃, h₄⟩⟩

/-- A definition has the form that its schema asks for, whatever its numbers are. -/
def Definition.IsShaped (k : SchemaKind) : Definition → Prop
  | .nothing => k = .nothing
  | .array groups => k = .array ∧ ArrayGroup.AreShaped groups
  | .matrix _ groups => ∃ count ∈ k.matrixEntries?, MatrixGroup.AreWellFormed count groups
  | .sequential parts => k = .sequential ∧ parts ≠ []
  | .concentric _ _ => k = .concentric
  | .sameAs _ => k = .sameAs

instance (k : SchemaKind) : (d : Definition) → Decidable (d.IsShaped k)
  | .nothing => inferInstanceAs (Decidable (_ = _))
  | .array _ => inferInstanceAs (Decidable (_ ∧ _))
  | .matrix _ groups =>
    inferInstanceAs (Decidable (∃ count ∈ k.matrixEntries?, MatrixGroup.AreWellFormed count groups))
  | .sequential _ => inferInstanceAs (Decidable (_ ∧ _))
  | .concentric _ _ => inferInstanceAs (Decidable (_ = _))
  | .sameAs _ => inferInstanceAs (Decidable (_ = _))

/-- Every call has a name, and every body the definition that its schema asks for. -/
def CallBook.IsShaped (b : CallBook) : Prop :=
  ∀ c ∈ b.calls, c.name ≠ "" ∧ ∀ body ∈ c.bodies, body.definition.IsShaped body.schema.kind

instance (b : CallBook) : Decidable b.IsShaped :=
  inferInstanceAs (Decidable (∀ c ∈ b.calls, c.name ≠ "" ∧
    ∀ body ∈ c.bodies, body.definition.IsShaped body.schema.kind))

/-! ### Room -/

/-- The message, the flags and the qualifier of an array definition leave the bits beside
them alone. -/
structure ArrayDef.HasRoom (d : ArrayDef) : Prop where
  message : d.body.Fits
  flags_clauses : d.flags &&& clausesFlag = 0
  flags_concentric : d.flags &&& concentricFlag = 0
  qualifier_lt : d.qualifier.toNat < 2 ^ 17

instance (d : ArrayDef) : Decidable d.HasRoom :=
  decidable_of_iff (d.body.Fits ∧ d.flags &&& clausesFlag = 0 ∧ d.flags &&& concentricFlag = 0 ∧
      d.qualifier.toNat < 2 ^ 17)
    ⟨fun ⟨h₁, h₂, h₃, h₄⟩ => ⟨h₁, h₂, h₃, h₄⟩, fun ⟨h₁, h₂, h₃, h₄⟩ => ⟨h₁, h₂, h₃, h₄⟩⟩

/-- The numbers of a definition leave the bits beside them alone. -/
def Definition.HasRoom : Definition → Prop
  | .array groups => ∀ g ∈ groups, ∀ d ∈ g.defs, d.HasRoom
  | .sequential parts => ∀ s ∈ parts, TagId.Fits s.tag
  | .concentric inner outer => TagId.Fits inner.tag ∧ TagId.Fits outer.tag
  | .sameAs tag => TagId.Fits tag
  | .nothing | .matrix _ _ => True

instance : (d : Definition) → Decidable d.HasRoom
  | .array groups => inferInstanceAs (Decidable (∀ g ∈ groups, ∀ d ∈ g.defs, d.HasRoom))
  | .sequential parts => inferInstanceAs (Decidable (∀ s ∈ parts, TagId.Fits s.tag))
  | .concentric _ _ => inferInstanceAs (Decidable (_ ∧ _))
  | .sameAs tag => inferInstanceAs (Decidable (TagId.Fits tag))
  | .nothing | .matrix _ _ => inferInstanceAs (Decidable True)

/-- The tags of the calls and the numbers of their definitions leave the bits beside them
alone. -/
def CallBook.HasRoom (b : CallBook) : Prop :=
  ∀ c ∈ b.calls, Call.TagFits c.tag ∧ ∀ body ∈ c.bodies, body.definition.HasRoom

instance (b : CallBook) : Decidable b.HasRoom :=
  inferInstanceAs (Decidable (∀ c ∈ b.calls, Call.TagFits c.tag ∧
    ∀ body ∈ c.bodies, body.definition.HasRoom))

/-! ### What is well formed has room -/

/-- A well-formed definition whose messages fit has room for them. -/
theorem Definition.IsWellFormed.hasRoom {k : SchemaKind} {d : Definition}
    (h : d.IsWellFormed k) (hfits : d.Fits) : d.HasRoom := by
  cases d with
  | array groups =>
    obtain ⟨-, hgroups⟩ := h
    intro g hg d hd
    have hd' := hgroups.defs g hg d hd
    exact ⟨hfits g hg d hd, hd'.flags_clauses, hd'.flags_concentric, hd'.qualifier_lt⟩
  | sequential parts => exact h.2.2
  | concentric inner outer => exact h.2
  | sameAs tag => exact h.2
  | nothing | matrix => trivial

/-- **A well-formed call book has room** for all its numbers. -/
theorem CallBook.IsWellFormed.hasRoom {b : CallBook} (h : b.IsWellFormed) : b.HasRoom :=
  fun c hc => ⟨(h.calls c hc).tag, fun body hbody =>
    ((h.calls c hc).bodies body hbody).1.hasRoom ((h.calls c hc).bodies body hbody).2⟩

/-! ### What is written -/

/-- A text other than the empty one has a byte. -/
theorem Text.one_le_length_utf8 (s : String) : 1 ≤ (Text.utf8 s).length ↔ s ≠ "" := by
  constructor
  · rintro h rfl
    exact absurd h (by decide)
  · intro h
    by_contra hlt
    have hnil : Text.utf8 s = Text.utf8 "" := List.length_eq_zero_iff.1 (by omega)
    have hs := (Text.ofUtf8?_utf8 s).symm.trans (congrArg Text.ofUtf8? hnil)
    rw [Text.ofUtf8?_utf8] at hs
    exact h (Option.some.inj hs)

namespace CallBook

section Steps

variable {α β : Type}

/-- A step after another that succeeds goes on from what the first gives. -/
theorem write_bind_eq_ok {x : Except WriteError α} {f : α → Except WriteError β} {y : β} :
    (x >>= f) = .ok y ↔ ∃ a, x = .ok a ∧ f a = .ok y := by
  cases x with
  | error e => simp [bind, Except.bind]
  | ok a => simp [bind, Except.bind]

/-- **A list that is written piece by piece has no piece that is refused.** -/
theorem exists_of_mapM_eq_ok {f : α → Except WriteError β} {xs : List α} {ys : List β}
    (h : xs.mapM f = .ok ys) : ∀ x ∈ xs, ∃ y, f x = .ok y := by
  induction xs generalizing ys with
  | nil => simp
  | cons x xs ih =>
    rw [List.mapM_cons] at h
    obtain ⟨y, hy, h⟩ := write_bind_eq_ok.1 h
    obtain ⟨_, hxs, -⟩ := write_bind_eq_ok.1 h
    exact List.forall_mem_cons.2 ⟨⟨y, hy⟩, ih hxs⟩

end Steps

/-- A length that is written fits a halfword. -/
theorem lt_of_fitted {n : Nat} {what : String} {bytes : List UInt8}
    (h : fitted n what = .ok bytes) : n < 65536 := by
  unfold fitted at h
  split at h
  · assumption
  · cases h

/-- A predicate that is written has a number. -/
theorem mem_of_clauseBytes {c : Clause} {bytes : List UInt8} (h : clauseBytes c = .ok bytes) :
    c.predicate ∈ Predicate.all := by
  unfold clauseBytes at h
  split at h
  · cases h
  · rename_i i hi
    exact List.isSome_idxOf?.1 (Option.isSome_iff_exists.2 ⟨i, hi⟩)

/-- **An array definition that is written has no flags beyond its word.** -/
theorem of_arrayDefBytes {d : ArrayDef} {bytes : List UInt8} (h : arrayDefBytes d = .ok bytes) :
    d.flags &&& arrayFlagsOverflow = 0 ∧ ∃ bytes', arrayBodyBytes d.body = .ok bytes' := by
  have hflags : arrayFlags d &&& arrayFlagsOverflow = 0 := by
    by_contra hne
    rw [arrayDefBytes, if_pos hne] at h
    cases h
  rw [arrayDefBytes, if_neg (not_not.2 hflags)] at h
  obtain ⟨bytes', hbytes, -⟩ := write_bind_eq_ok.1 h
  rw [arrayFlags_eq, UInt32.or_and_distrib, UInt32.or_and_distrib, UInt32.or_eq_zero_iff,
    UInt32.or_eq_zero_iff] at hflags
  exact ⟨hflags.1.1, bytes', hbytes⟩

/-- A body that is written has a name that fits. -/
theorem of_bodyBytes {name : String} {b : CallBody} {bytes : List UInt8}
    (h : bodyBytes name b = .ok bytes) : (Text.utf8 name).length ≤ 255 ∧
      ∃ bytes', definitionBytes b.definition = .ok bytes' := by
  have hname : ¬ 255 < (Text.utf8 name).length := by
    intro hlt
    rw [bodyBytes, if_pos hlt] at h
    cases h
  rw [bodyBytes, if_neg hname] at h
  obtain ⟨bytes', hbytes, -⟩ := write_bind_eq_ok.1 h
  exact ⟨Nat.not_lt.1 hname, bytes', hbytes⟩

/-- A call that is written has a name that fits, and bodies whose definitions are not refused. -/
theorem of_callBytes {c : Call} {bytes : List UInt8} (h : callBytes c = .ok bytes) :
    (Text.utf8 c.name).length ≤ 255 ∧
      ∀ b ∈ c.bodies, ∃ bytes', definitionBytes b.definition = .ok bytes' := by
  obtain ⟨_, hbody, h⟩ := write_bind_eq_ok.1 h
  obtain ⟨_, hcontinuations, -⟩ := write_bind_eq_ok.1 h
  obtain ⟨hname, hdefinition⟩ := of_bodyBytes hbody
  refine ⟨hname, List.forall_mem_cons.2 ⟨hdefinition, fun b hb => ?_⟩⟩
  obtain ⟨_, hb⟩ := exists_of_mapM_eq_ok hcontinuations b hb
  obtain ⟨_, hb, -⟩ := write_bind_eq_ok.1 hb
  exact (of_bodyBytes hb).2

/-- **A call book that is written has room for its counts and its texts**, and none of its
definitions is refused. -/
theorem of_toBytes {b : CallBook} {bytes : List UInt8} (h : b.toBytes = .ok bytes) :
    b.headerCount ≤ 65535 ∧ (Text.utf8 b.version).length ≤ 65535 ∧
      ∀ c ∈ b.calls, (Text.utf8 c.name).length ≤ 255 ∧
        ∀ body ∈ c.bodies, ∃ bytes', definitionBytes body.definition = .ok bytes' := by
  obtain ⟨_, hcount, h⟩ := write_bind_eq_ok.1 h
  obtain ⟨_, hversion, h⟩ := write_bind_eq_ok.1 h
  obtain ⟨_, hcalls, -⟩ := write_bind_eq_ok.1 h
  refine ⟨Nat.le_of_lt_succ (lt_of_fitted hcount), Nat.le_of_lt_succ (lt_of_fitted hversion),
    fun c hc => ?_⟩
  obtain ⟨_, hc⟩ := exists_of_mapM_eq_ok hcalls c hc
  exact of_callBytes hc

end CallBook

/-! ### Shape and room make well formed -/

/-- Destinations with a shape are well formed if they are written. -/
theorem ArrayBody.IsShaped.isWellFormed {count : Nat} {b : ArrayBody} {bytes : List UInt8}
    (hs : b.IsShaped count) (h : CallBook.arrayBodyBytes b = .ok bytes) :
    b.IsWellFormed count := by
  cases b with
  | plain entries => exact hs
  | clauses message cs =>
    obtain ⟨_, -, h⟩ := CallBook.write_bind_eq_ok.1 h
    obtain ⟨_, hcs, -⟩ := CallBook.write_bind_eq_ok.1 h
    intro c hc
    obtain ⟨_, hc'⟩ := CallBook.exists_of_mapM_eq_ok hcs c hc
    exact ⟨CallBook.mem_of_clauseBytes hc', hs c hc⟩

/-- An array definition with a shape and room is well formed if it is written. -/
theorem ArrayDef.IsShaped.isWellFormed {d : ArrayDef} {bytes : List UInt8} (hs : d.IsShaped)
    (hr : d.HasRoom) (h : CallBook.arrayDefBytes d = .ok bytes) : d.IsWellFormed := by
  obtain ⟨⟨count, hcount, hbody⟩, hfinish⟩ := hs
  obtain ⟨hflags, _, hbytes⟩ := CallBook.of_arrayDefBytes h
  exact ⟨⟨count, hcount, hbody.isWellFormed hbytes⟩, hfinish, hflags, hr.flags_clauses,
    hr.flags_concentric, hr.qualifier_lt⟩

/-- **A definition with a shape and room that is written is well formed**, and its messages
fit. -/
theorem Definition.IsShaped.isWellFormed {k : SchemaKind} {d : Definition} {bytes : List UInt8}
    (hs : d.IsShaped k) (hr : d.HasRoom) (h : CallBook.definitionBytes d = .ok bytes) :
    d.IsWellFormed k ∧ d.Fits := by
  cases d with
  | nothing => exact ⟨hs, trivial⟩
  | array groups =>
    obtain ⟨hk, hs⟩ := hs
    obtain ⟨_, hgroups, -⟩ := CallBook.write_bind_eq_ok.1 h
    have hdefs : ∀ g ∈ groups, ∀ d ∈ g.defs, d.IsWellFormed := by
      intro g hg d hd
      obtain ⟨_, hg'⟩ := CallBook.exists_of_mapM_eq_ok hgroups g hg
      obtain ⟨_, hdefs, -⟩ := CallBook.write_bind_eq_ok.1 hg'
      obtain ⟨_, hd'⟩ := CallBook.exists_of_mapM_eq_ok hdefs d hd
      exact (hs.defs g hg d hd).isWellFormed (hr g hg d hd) hd'
    exact ⟨⟨hk, hs.ne_nil, hs.defs_ne_nil, hdefs, hs.alternate⟩,
      fun g hg d hd => (hr g hg d hd).message⟩
  | matrix flags groups => exact ⟨hs, trivial⟩
  | sequential parts => exact ⟨⟨hs.1, hs.2, hr⟩, trivial⟩
  | concentric inner outer => exact ⟨⟨hs, hr⟩, trivial⟩
  | sameAs tag => exact ⟨⟨hs, hr⟩, trivial⟩

namespace CallBook

/-- **A call book with a shape and room that is written is well formed.** -/
theorem isWellFormed_of_toBytes {b : CallBook} {bytes : List UInt8} (hs : b.IsShaped)
    (hr : b.HasRoom) (h : b.toBytes = .ok bytes) : b.IsWellFormed := by
  obtain ⟨hcount, hversion, hcalls⟩ := of_toBytes h
  refine ⟨hcount, hversion, fun c hc => ?_⟩
  obtain ⟨hname, hdefinitions⟩ := hcalls c hc
  obtain ⟨hne, hshaped⟩ := hs c hc
  obtain ⟨htag, hroom⟩ := hr c hc
  refine ⟨?_, hname, htag, fun body hbody => ?_⟩
  · exact (Text.one_le_length_utf8 _).2 hne
  · obtain ⟨_, hbytes⟩ := hdefinitions body hbody
    exact (hshaped body hbody).isWellFormed (hroom body hbody) hbytes

/-- **A well-formed call book is loaded from what is written of it.** -/
theorem load_of_isWellFormed {b : CallBook} {bytes : List UInt8} (hwf : b.IsWellFormed)
    (h : b.toBytes = .ok bytes) : load bytes = .ok b := by
  obtain ⟨bytes', hbytes, hread⟩ := Reader.exists_toBytes hwf
  obtain rfl : bytes = bytes' := Except.ok.inj (h.symm.trans hbytes)
  exact load_of_book hwf.count_le hread

/-- **What is written is read back if it has room, and only then.**  The writer refuses a
call book of the shape of its schemas, or its bytes load as that call book just if no tag,
flag, qualifier or message has bits beyond its field. -/
theorem load_iff_hasRoom {b : CallBook} (hs : b.IsShaped) :
    (∃ e, b.toBytes = .error e) ∨
      ∃ bytes, b.toBytes = .ok bytes ∧ (load bytes = .ok b ↔ b.HasRoom) := by
  cases h : b.toBytes with
  | error e => exact .inl ⟨e, rfl⟩
  | ok bytes =>
    refine .inr ⟨bytes, rfl, fun hload => ?_, fun hr => ?_⟩
    · exact (of_load hload).1.hasRoom
    · exact load_of_isWellFormed (isWellFormed_of_toBytes hs hr h) h

/-- A call book with a definition of each kind is written and read back just if it has room. -/
theorem load_iff_hasRoom_mixedBook : mixedBook.IsShaped ∧
    ((∃ e, mixedBook.toBytes = .error e) ∨
      ∃ bytes, mixedBook.toBytes = .ok bytes ∧ (load bytes = .ok mixedBook ↔ mixedBook.HasRoom)) :=
  ⟨by decide +kernel, load_iff_hasRoom (by decide +kernel)⟩

/-- A call without a definition under a given tag. -/
def taggedBook (tag : TagId) : CallBook where
  calls := [{ name := "x", level := .mainstream, tag := some tag
              body := { schema := ⟨129, by decide⟩, definition := .nothing } }]

/-- A tag beyond its field spills into the mark of the record, where it is lost: the call is
written without an error and loaded under another tag. -/
theorem load_taggedBook_spilled : (taggedBook 0x2001).IsShaped ∧
    ∃ bytes, (taggedBook 0x2001).toBytes = .ok bytes ∧ load bytes = .ok (taggedBook 1) ∧
      taggedBook 1 ≠ taggedBook 0x2001 := by
  refine ⟨by decide +kernel, _, rfl, by decide +kernel, by decide +kernel⟩

end CallBook
end SquareDance
