/-
# What a text of call definitions means

A text that can be read means a call book that is sound: each body has the definition
that its schema asks for, each tag stands for one call at most and has a number of the
table, and another name of a call has nothing of its own, so that no name leads to
another name.  Main statement: `parse_sound`.

The table of tags grows while the text is read.  What is said of tags at one place
holds at all later ones, and the calls so far have the tags that are defined so far.
-/

import Mathlib.Data.List.Nodup
import SquareDance.CallText.Compile
import SquareDance.Proofs.CallText.Arrays

namespace SquareDance

/-! ### Sound calls -/

namespace Definition

/-- The tags that a definition refers to. -/
def tags : Definition → List TagId
  | nothing | array _ | matrix _ _ => []
  | sequential parts => parts.map (·.tag)
  | concentric inner outer => [inner.tag, outer.tag]
  | sameAs tag => [tag]

/-- The array definitions of a definition. -/
def arrayDefs : Definition → List ArrayDef
  | array groups => groups.flatMap (·.defs)
  | _ => []

/-- The first group of array definitions has no head. -/
def BeginsPlain : Definition → Prop
  | array groups => ∃ g more, groups = g :: more ∧ g.alternate = none
  | _ => True

/-- A definition has the form that its schema asks for, begins without a head, and
refers to tags of a table of a given size. -/
structure IsSound (k : SchemaKind) (tagCount : Nat) (d : Definition) : Prop where
  isWellFormed : d.IsWellFormed k
  beginsPlain : d.BeginsPlain
  tags_lt : ∀ t ∈ d.tags, t.toNat < tagCount

/-- A definition stays sound when the table of tags grows. -/
theorem IsSound.mono {k : SchemaKind} {n n' : Nat} {d : Definition} (h : d.IsSound k n)
    (hn : n ≤ n') : d.IsSound k n' :=
  ⟨h.isWellFormed, h.beginsPlain, fun t ht => Nat.lt_of_lt_of_le (h.tags_lt t ht) hn⟩

end Definition

/-- A call with sound bodies, of which only the last may be another name of a call, and
then without flags and in a call without a tag. -/
structure Call.IsSound (tagCount : Nat) (c : Call) : Prop where
  tag_lt : ∀ t, c.tag = some t → t.toNat < tagCount
  tag_ne_zero : c.tag ≠ some 0
  bodies : ∀ b ∈ c.bodies, b.definition.IsSound b.schema.kind tagCount
  flags_of_sameAs : ∀ b ∈ c.bodies, b.schema.kind = .sameAs →
    b.flags.isEmpty = true ∧ c.tag = none
  sameAs_last : ∀ b ∈ c.bodies.dropLast, b.schema.kind ≠ .sameAs

/-- A call stays sound when the table of tags grows. -/
theorem Call.IsSound.mono {n n' : Nat} {c : Call} (h : c.IsSound n) (hn : n ≤ n') :
    c.IsSound n' :=
  ⟨fun t ht => Nat.lt_of_lt_of_le (h.tag_lt t ht) hn, h.tag_ne_zero,
    fun b hb => (h.bodies b hb).mono hn, h.flags_of_sameAs, h.sameAs_last⟩

/-- The array definitions of a call. -/
def Call.arrayDefs (c : Call) : List ArrayDef := c.bodies.flatMap (·.definition.arrayDefs)

/-- A call book that tokens mean, and the table of its tags. -/
structure CallText.IsSound (tokens : List CallText.Token) (b : CallBook) (tags : TagTable Nat) :
    Prop where
  calls : ∀ c ∈ b.calls, c.IsSound tags.size
  tags_nodup : (b.calls.filterMap (·.tag)).Nodup
  tagCount : b.tagCount.toNat = tags.size
  size_le : tags.size ≤ TagTable.maxSize
  setups : CallText.SetupWords tokens (b.calls.flatMap (·.arrayDefs))
  sameAs_target : ∀ c ∈ b.calls, ∀ body ∈ c.bodies, ∀ t, body.definition = .sameAs t →
    ∀ c' ∈ b.calls, c'.tag = some t → ∀ body' ∈ c'.bodies, body'.schema.kind ≠ .sameAs

namespace CallText
namespace Parser

open Consumer

variable {r rest : Reading}

/-! ### Matrices and parts -/

/-- A flag of matrices is taken from the front. -/
theorem leads_matrixFlagStep (flags : UInt32) : Leads (matrixFlagStep flags) :=
  leads_advance.bind fun _ => leads_symbol?.bind fun _ => by
    split
    · exact .pure _
    · exact (leads_orFail _ _).bind fun _ => .pure _

/-- A turn of the loop reads a matrix, and perhaps the head of another. -/
theorem of_matrixStep {count : Nat} {p : MatrixProgress}
    {out : MatrixProgress ⊕ List MatrixGroup} (h : matrixStep count p r = .ok (out, rest)) :
    r.Reaches rest ∧ ∃ entries, Entry.AreRow true count entries ∧
      (out = .inr (⟨p.alternate, entries⟩ :: p.groups).reverse ∨
        ∃ a, out = .inl ⟨⟨p.alternate, entries⟩ :: p.groups, some a⟩) := by
  obtain ⟨entries, r₁, h₁, h⟩ := bind_eq_ok.1 h
  obtain ⟨_, r₂, h₂, h⟩ := bind_eq_ok.1 h
  obtain ⟨_, r₃, h₃, h⟩ := bind_eq_ok.1 h
  obtain rfl := isAt_eq_ok h₃
  obtain ⟨hr₁, hrow⟩ := of_entries h₁
  have hr := hr₁.trans (leads_advanceOrEnd _ _ _ h₂)
  split at h
  · obtain ⟨a, r₄, h₄, h⟩ := bind_eq_ok.1 h
    obtain ⟨_, r₅, h₅, h⟩ := bind_eq_ok.1 h
    obtain ⟨rfl, rfl⟩ := pure_eq_ok.1 h
    exact ⟨hr.trans ((leads_alternateHeader _ _ _ h₄).trans (leads_advance _ _ _ h₅)), entries,
      hrow, .inr ⟨a, rfl⟩⟩
  · obtain ⟨rfl, rfl⟩ := pure_eq_ok.1 h
    exact ⟨hr, entries, hrow, .inl rfl⟩

/-- **The turns of the loop make up matrices**, of which the first has the head so far. -/
theorem of_matrixGroups {count : Nat} {p : MatrixProgress} {groups : List MatrixGroup}
    {ht : ∀ p, (matrixStep count p).Turns}
    (h : loop (matrixStep count) ht p r = .ok (groups, rest)) : r.Reaches rest ∧
      ∃ first more, groups = p.groups.reverse ++ first :: more ∧ first.alternate = p.alternate ∧
        (∀ g ∈ more, g.alternate.isSome = true) ∧
          ∀ g ∈ first :: more, Entry.AreRow true count g.entries := by
  refine loop_induct (motive := fun p r groups rest => r.Reaches rest ∧ ∃ first more,
    groups = p.groups.reverse ++ first :: more ∧ first.alternate = p.alternate ∧
      (∀ g ∈ more, g.alternate.isSome = true) ∧
        ∀ g ∈ first :: more, Entry.AreRow true count g.entries) ?_ ?_ h
  · intro p r groups rest h
    obtain ⟨hr, entries, hrow, hout | ⟨a, hout⟩⟩ := of_matrixStep h
    · cases hout
      exact ⟨hr, ⟨p.alternate, entries⟩, [], by simp, rfl, by simp,
        List.forall_mem_singleton.2 hrow⟩
    · cases hout
  · intro p r p' mid groups rest h ih
    obtain ⟨hr, entries, hrow, hout | ⟨a, hout⟩⟩ := of_matrixStep h
    · cases hout
    · cases hout
      obtain ⟨hr', first, more, rfl, hfirst, hmore, hrows⟩ := ih
      have hsome : first.alternate.isSome = true := by rw [hfirst]; rfl
      exact ⟨hr.trans hr', ⟨p.alternate, entries⟩, first :: more, by simp, rfl,
        List.forall_mem_cons.2 ⟨hsome, hmore⟩, List.forall_mem_cons.2 ⟨hrow, hrows⟩⟩

/-- **Matrices are well formed.** -/
theorem of_matrices {count : Nat} {d : Definition} (h : matrices count r = .ok (d, rest)) :
    r.Reaches rest ∧ ∃ flags groups, d = .matrix flags groups ∧
      MatrixGroup.AreWellFormed count groups := by
  obtain ⟨flags, r₁, h₁, h⟩ := bind_eq_ok.1 h
  obtain ⟨groups, r₂, h₂, h⟩ := bind_eq_ok.1 h
  obtain ⟨rfl, rfl⟩ := pure_eq_ok.1 h
  obtain ⟨hr₂, first, more, rfl, hfirst, hmore, hrows⟩ := of_matrixGroups h₂
  exact ⟨(leads_loop _ leads_matrixFlagStep 0 _ _ _ h₁).trans hr₂, flags, _, rfl,
    ⟨hfirst, hmore⟩, hrows⟩

/-- A part of a sequence is taken from the front, and its tag may be added. -/
theorem leads_partStep (flags : CallFlags) (before : List SubCall) :
    Leads (partStep flags before) :=
  leads_advanceOrEnd.bind fun _ => (leads_isAt _).bind fun _ => by
    split
    · exact (leads_subCall _ _ _).bind fun _ => .pure _
    · exact .pure _

/-- A turn of the loop finds a part, whose tag is in the table, or something else. -/
theorem of_partStep {flags : CallFlags} {before : List SubCall}
    {out : List SubCall ⊕ List SubCall} (hr : r.tags.IsWellKept)
    (h : partStep flags before r = .ok (out, rest)) :
    r.Reaches rest ∧ ((∃ s, out = .inl (s :: before) ∧ s.tag.toNat < rest.tags.size) ∨
      out = .inr before.reverse) := by
  obtain ⟨_, r₁, h₁, h⟩ := bind_eq_ok.1 h
  obtain ⟨_, r₂, h₂, h⟩ := bind_eq_ok.1 h
  obtain rfl := isAt_eq_ok h₂
  have hr₁ := leads_advanceOrEnd _ _ _ h₁
  split at h
  · obtain ⟨s, r₃, h₃, h⟩ := bind_eq_ok.1 h
    obtain ⟨rfl, rfl⟩ := pure_eq_ok.1 h
    obtain ⟨hlt, hr₃⟩ := of_subCall h₃ (hr₁.tags.isWellKept hr)
    exact ⟨hr₁.trans hr₃, .inl ⟨s, rfl, hlt⟩⟩
  · obtain ⟨rfl, rfl⟩ := pure_eq_ok.1 h
    exact ⟨hr₁, .inr rfl⟩

/-- **There is a part, and each refers to a tag of the table.** -/
theorem of_parts {flags : CallFlags} {ps : List SubCall} (h : parts flags r = .ok (ps, rest))
    (hr : r.tags.IsWellKept) :
    r.Reaches rest ∧ ps ≠ [] ∧ ∀ s ∈ ps, s.tag.toNat < rest.tags.size := by
  obtain ⟨first, r₁, h₁, h⟩ := bind_eq_ok.1 h
  obtain ⟨hfirst, hr₁⟩ := of_subCall h₁ hr
  -- The table is well kept at each part, and a tag of it stays one while it grows.
  obtain ⟨hr₂, ys, rfl, hys⟩ := of_collect (I := fun r => r.tags.IsWellKept)
    (P := fun r (s : SubCall) => s.tag.toNat < r.tags.size)
    (fun _ _ hreach => hreach.tags.isWellKept)
    (fun _ _ _ hreach hs => Nat.lt_of_lt_of_le hs hreach.tags.size_le)
    (fun _ _ _ _ => of_partStep) (hr₁.tags.isWellKept hr) h
  refine ⟨hr₁.trans hr₂, by simp, List.forall_mem_append.2 ⟨?_, hys⟩⟩
  exact List.forall_mem_singleton.2 (Nat.lt_of_lt_of_le hfirst hr₂.tags.size_le)

/-! ### Bodies -/

/-- A tag of a table that is not too big leaves room for the mark of a record. -/
theorem fits_of_lt {t : TagId} {n : Nat} (h : t.toNat < n) (hn : n ≤ TagTable.maxSize) :
    TagId.Fits t := by
  have hmax : TagTable.maxSize < 8192 := by decide
  show t.toNat < 8192
  omega

/-- A definition leads on. -/
theorem reaches_definition {flags : CallFlags} {arrayFlags : UInt32} {isTagged : Bool}
    {k : SchemaKind} {d : Definition}
    (h : definition flags arrayFlags isTagged k r = .ok (d, rest))
    (hflags : FreeFlags arrayFlags) : r.Reaches rest := by
  cases k with
  | array =>
    obtain ⟨groups, r₁, h₁, h⟩ := bind_eq_ok.1 h
    obtain ⟨rfl, rfl⟩ := pure_eq_ok.1 h
    exact (of_arrayGroups h₁ hflags).1
  | nothing => exact leads_advanceOrEnd.bind (fun _ => Leads.pure _) _ _ _ h
  | matrix | partnerMatrix => exact (of_matrices h).1
  | sequential =>
    exact ((leads_subCall _ _ _).bind fun _ => leads_loop _ (leads_partStep _) _).bind
      (fun _ => Leads.pure _) _ _ _ h
  | concentric =>
    exact (leads_subCall _ _ _).bind (fun _ => (leads_subCall _ _ _).bind fun _ =>
      leads_advanceOrEnd.bind fun _ => Leads.pure _) _ _ _ h
  | sameAs =>
    rw [definition] at h
    split at h
    · cases h
    · exact (leads_symbol _).bind (fun _ => (leads_referToTag _).bind fun _ =>
        leads_advanceOrEnd.bind fun _ => Leads.pure _) _ _ _ h

/-- **A definition is sound**, the setups of its array definitions are named, and another
name of a call has no flags and no tag. -/
theorem of_definition {flags : CallFlags} {arrayFlags : UInt32} {isTagged : Bool}
    {k : SchemaKind} {d : Definition}
    (h : definition flags arrayFlags isTagged k r = .ok (d, rest))
    (hflags : FreeFlags arrayFlags) (hr : r.tags.IsWellKept) :
    r.Reaches rest ∧ d.IsSound k rest.tags.size ∧ Spans r d.arrayDefs rest ∧
      (k = .sameAs → flags.isEmpty = true ∧ isTagged = false) := by
  cases k with
  | array =>
    obtain ⟨groups, r₁, h₁, h⟩ := bind_eq_ok.1 h
    obtain ⟨rfl, rfl⟩ := pure_eq_ok.1 h
    obtain ⟨hr₁, hgroups, hfirst, hspans⟩ := of_arrayGroups h₁ hflags
    exact ⟨hr₁, ⟨⟨rfl, hgroups⟩, hfirst, by simp [Definition.tags]⟩, hspans, by simp⟩
  | nothing =>
    obtain ⟨_, r₁, h₁, h⟩ := bind_eq_ok.1 h
    obtain ⟨rfl, rfl⟩ := pure_eq_ok.1 h
    have hr₁ := leads_advanceOrEnd _ _ _ h₁
    exact ⟨hr₁, ⟨rfl, trivial, by simp [Definition.tags]⟩, .of_reaches hr₁, by simp⟩
  | matrix | partnerMatrix =>
    obtain ⟨hr₁, mflags, groups, rfl, hgroups⟩ := of_matrices h
    exact ⟨hr₁, ⟨⟨_, rfl, hgroups⟩, trivial, by simp [Definition.tags]⟩, .of_reaches hr₁, by simp⟩
  | sequential =>
    obtain ⟨ps, r₁, h₁, h⟩ := bind_eq_ok.1 h
    obtain ⟨rfl, rfl⟩ := pure_eq_ok.1 h
    obtain ⟨hr₁, hne, htags⟩ := of_parts h₁ hr
    refine ⟨hr₁, ⟨⟨rfl, hne, fun s hs => ?_⟩, trivial, List.forall_mem_map.2 htags⟩,
      .of_reaches hr₁, by simp⟩
    exact fits_of_lt (htags s hs) (hr₁.tags.isWellKept hr).size_le
  | concentric =>
    obtain ⟨inner, r₁, h₁, h⟩ := bind_eq_ok.1 h
    obtain ⟨outer, r₂, h₂, h⟩ := bind_eq_ok.1 h
    obtain ⟨_, r₃, h₃, h⟩ := bind_eq_ok.1 h
    obtain ⟨rfl, rfl⟩ := pure_eq_ok.1 h
    obtain ⟨hi, hr₁⟩ := of_subCall h₁ hr
    obtain ⟨ho, hr₂⟩ := of_subCall h₂ (hr₁.tags.isWellKept hr)
    have hr₃ := leads_advanceOrEnd _ _ _ h₃
    have hreach := hr₁.trans (hr₂.trans hr₃)
    have hi' := Nat.lt_of_lt_of_le hi (hr₂.trans hr₃).tags.size_le
    have ho' := Nat.lt_of_lt_of_le ho hr₃.tags.size_le
    have hmax := (hreach.tags.isWellKept hr).size_le
    exact ⟨hreach, ⟨⟨rfl, fits_of_lt hi' hmax, fits_of_lt ho' hmax⟩, trivial,
      List.forall_mem_cons.2 ⟨hi', List.forall_mem_singleton.2 ho'⟩⟩, .of_reaches hreach, by simp⟩
  | sameAs =>
    rw [definition] at h
    split at h
    · cases h
    · rename_i hcond
      obtain ⟨word, r₁, h₁, h⟩ := bind_eq_ok.1 h
      obtain ⟨tag, r₂, h₂, h⟩ := bind_eq_ok.1 h
      obtain ⟨_, r₃, h₃, h⟩ := bind_eq_ok.1 h
      obtain ⟨rfl, rfl⟩ := pure_eq_ok.1 h
      have hr₁ := leads_symbol _ _ _ _ h₁
      obtain ⟨ht, hr₂⟩ := of_referToTag h₂ (hr₁.tags.isWellKept hr)
      have hr₃ := leads_advanceOrEnd _ _ _ h₃
      have hreach := hr₁.trans (hr₂.trans hr₃)
      have ht' := Nat.lt_of_lt_of_le ht hr₃.tags.size_le
      refine ⟨hreach, ⟨⟨rfl, fits_of_lt ht' (hreach.tags.isWellKept hr).size_le⟩, trivial,
        List.forall_mem_singleton.2 ht'⟩, .of_reaches hreach, fun _ => ?_⟩
      simpa using hcond

/-- **A body is sound.** -/
theorem of_body {isTagged : Bool} {b : CallBody} (h : body isTagged r = .ok (b, rest))
    (hr : r.tags.IsWellKept) :
    r.Reaches rest ∧ b.definition.IsSound b.schema.kind rest.tags.size ∧
      Spans r b.definition.arrayDefs rest ∧
        (b.schema.kind = .sameAs → b.flags.isEmpty = true ∧ isTagged = false) := by
  obtain ⟨flags, r₁, h₁, h⟩ := bind_eq_ok.1 h
  obtain ⟨aflags, r₂, h₂, h⟩ := bind_eq_ok.1 h
  obtain ⟨word, r₃, h₃, h⟩ := bind_eq_ok.1 h
  obtain ⟨-, rfl⟩ := symbolHere_eq_ok h₃
  obtain ⟨schema, r₄, h₄, h⟩ := bind_eq_ok.1 h
  obtain ⟨-, rfl⟩ := orFail_eq_ok.1 h₄
  split at h
  · cases h
  · obtain ⟨d, r₅, h₅, h⟩ := bind_eq_ok.1 h
    obtain ⟨rfl, rfl⟩ := pure_eq_ok.1 h
    obtain ⟨hr₂, hfree⟩ := of_arrayFlags h₂
    have hreach := (leads_callFlags _ _ _ h₁).trans hr₂
    obtain ⟨hr₅, hsound, hspans, halias⟩ := of_definition h₅ hfree (hreach.tags.isWellKept hr)
    exact ⟨hreach.trans hr₅, hsound, (Spans.of_reaches hreach).append hspans, halias⟩

/-! ### Calls -/

/-- What is known of each body of a call. -/
def BodyIsGood (isTagged : Bool) (tagCount : Nat) (b : CallBody) : Prop :=
  b.definition.IsSound b.schema.kind tagCount ∧
    (b.schema.kind = .sameAs → b.flags.isEmpty = true ∧ isTagged = false)

/-- What is known of the bodies that come after one of a call, between two readings. -/
structure BodiesAreGood (isTagged : Bool) (r : Reading) (last : CallBody) (bs : List CallBody)
    (rest : Reading) : Prop where
  reaches : r.Reaches rest
  good : ∀ b ∈ bs, BodyIsGood isTagged rest.tags.size b
  sameAs_last : ∀ b ∈ (last :: bs).dropLast, b.schema.kind ≠ .sameAs
  spans : Spans r (bs.flatMap (·.definition.arrayDefs)) rest

/-- No bodies are good ones. -/
theorem BodiesAreGood.nil {isTagged : Bool} {last : CallBody} :
    BodiesAreGood isTagged r last [] r :=
  ⟨.refl _, by simp, by simp, .of_reaches (.refl _)⟩

/-- **A body before good ones is good with them**, unless it comes after another name of a
call. -/
theorem BodiesAreGood.cons {isTagged : Bool} {mid : Reading} {last b : CallBody}
    {bs : List CallBody} (hlast : last.schema.kind ≠ .sameAs)
    (hb : body isTagged r = .ok (b, mid)) (hr : r.tags.IsWellKept)
    (h : BodiesAreGood isTagged mid b bs rest) : BodiesAreGood isTagged r last (b :: bs) rest := by
  obtain ⟨hmid, hsound, hspans, hsameAs⟩ := of_body hb hr
  refine ⟨hmid.trans h.reaches, ?_, ?_, hspans.append h.spans⟩
  · exact List.forall_mem_cons.2 ⟨⟨hsound.mono h.reaches.tags.size_le, hsameAs⟩, h.good⟩
  · exact List.forall_mem_cons.2 ⟨hlast, h.sameAs_last⟩

/-- A turn of the loop stops, or adds a body to others of which the last is no other name of
a call. -/
theorem continuationStep_eq_ok {isTagged : Bool} {p : BodyProgress}
    {out : BodyProgress ⊕ List CallBody} (h : continuationStep isTagged p r = .ok (out, rest)) :
    (out = .inr p.continuations.reverse ∧ r = rest) ∨
      ∃ b, out = .inl { p with continuations := b :: p.continuations } ∧
        p.last.schema.kind ≠ .sameAs ∧ body isTagged r = .ok (b, rest) := by
  obtain ⟨word, r₁, h₁, h⟩ := bind_eq_ok.1 h
  obtain rfl := symbol?_eq_ok h₁
  cases word with
  | none =>
    obtain ⟨rfl, rfl⟩ := pure_eq_ok.1 h
    exact .inl ⟨rfl, rfl⟩
  | some word =>
    simp only at h
    split at h
    · obtain ⟨rfl, rfl⟩ := pure_eq_ok.1 h
      exact .inl ⟨rfl, rfl⟩
    · split at h
      · cases h
      · rename_i hlast
        obtain ⟨b, r₂, h₂, h⟩ := bind_eq_ok.1 h
        obtain ⟨rfl, rfl⟩ := pure_eq_ok.1 h
        exact .inr ⟨b, rfl, hlast, h₂⟩

/-- **The turns of the loop make up the bodies of a call**, by induction on them.  Nothing
goes on after another name of a call. -/
theorem of_continuations {isTagged : Bool} {p : BodyProgress} {bs : List CallBody}
    {ht : ∀ p, (continuationStep isTagged p).Turns}
    (h : loop (continuationStep isTagged) ht p r = .ok (bs, rest))
    (hr : r.tags.IsWellKept) :
    ∃ more, bs = p.continuations.reverse ++ more ∧ BodiesAreGood isTagged r p.last more rest := by
  refine loop_induct (motive := fun p r bs rest => r.tags.IsWellKept → ∃ more,
    bs = p.continuations.reverse ++ more ∧ BodiesAreGood isTagged r p.last more rest) ?_ ?_ h hr
  · intro p r bs rest h _
    obtain ⟨hout, rfl⟩ | ⟨b, hout, -, -⟩ := continuationStep_eq_ok h
    · cases hout
      exact ⟨[], by simp, .nil⟩
    · cases hout
  · intro p r p' mid bs rest h ih hr
    obtain ⟨hout, -⟩ | ⟨b, hout, hlast, hb⟩ := continuationStep_eq_ok h
    · cases hout
    · cases hout
      obtain ⟨more, rfl, hmore⟩ := ih ((of_body hb hr).1.tags.isWellKept hr)
      exact ⟨b :: more, by simp, hmore.cons hlast hb hr⟩

/-- **The tag of a call is defined with it**, and was not before. -/
theorem of_tag? {tag : Option TagId} (h : tag? r = .ok (tag, rest))
    (hr : r.tags.IsWellKept) : r.Reaches rest ∧ ∀ t, tag = some t →
      t.toNat < rest.tags.size ∧ r.tags.isDefined t.toNat = false ∧
        rest.tags.isDefined t.toNat = true := by
  obtain ⟨_, r₁, h₁, h⟩ := bind_eq_ok.1 h
  obtain rfl := isAt_eq_ok h₁
  split at h
  · obtain ⟨word, r₂, h₂, h⟩ := bind_eq_ok.1 h
    obtain ⟨t, r₃, h₃, h⟩ := bind_eq_ok.1 h
    obtain ⟨_, r₄, h₄, h⟩ := bind_eq_ok.1 h
    obtain ⟨_, r₅, h₅, h⟩ := bind_eq_ok.1 h
    obtain ⟨-, rfl⟩ := symbolHere_eq_ok h₅
    obtain ⟨rfl, rfl⟩ := pure_eq_ok.1 h
    have hr₂ := leads_symbol _ _ _ _ h₂
    obtain ⟨hlt, hr₃, hbefore, hafter⟩ := of_defineTag h₃ (hr₂.tags.isWellKept hr)
    have hr₄ := leads_advance _ _ _ h₄
    refine ⟨hr₂.trans (hr₃.trans hr₄), fun t' ht => ?_⟩
    obtain rfl := Option.some.inj ht
    refine ⟨Nat.lt_of_lt_of_le hlt hr₄.tags.size_le, ?_, hr₄.tags.isDefined _ hafter⟩
    exact Bool.eq_false_iff.2 fun hc =>
      Bool.eq_false_iff.1 hbefore (hr₂.tags.isDefined _ hc)
  · obtain ⟨rfl, rfl⟩ := pure_eq_ok.1 h
    exact ⟨.refl _, by simp⟩

/-- **A call is sound, and its tag is new.** -/
theorem of_call {c : Call} (h : call r = .ok (c, rest)) (hr : r.tags.IsWellKept)
    (hzero : r.tags.isDefined 0 = true) :
    r.Reaches rest ∧ c.IsSound rest.tags.size ∧ Spans r c.arrayDefs rest ∧ ∀ t, c.tag = some t →
      r.tags.isDefined t.toNat = false ∧ rest.tags.isDefined t.toNat = true := by
  obtain ⟨name, r₁, h₁, h⟩ := bind_eq_ok.1 h
  obtain ⟨_, r₂, h₂, h⟩ := bind_eq_ok.1 h
  obtain ⟨word, r₃, h₃, h⟩ := bind_eq_ok.1 h
  obtain ⟨level, r₄, h₄, h⟩ := bind_eq_ok.1 h
  obtain ⟨-, rfl⟩ := orFail_eq_ok.1 h₄
  obtain ⟨_, r₅, h₅, h⟩ := bind_eq_ok.1 h
  obtain ⟨_, r₆, h₆, h⟩ := bind_eq_ok.1 h
  obtain ⟨-, rfl⟩ := symbolHere_eq_ok h₆
  obtain ⟨tag, r₇, h₇, h⟩ := bind_eq_ok.1 h
  obtain ⟨b, r₈, h₈, h⟩ := bind_eq_ok.1 h
  obtain ⟨bs, r₉, h₉, h⟩ := bind_eq_ok.1 h
  obtain ⟨rfl, rfl⟩ := pure_eq_ok.1 h
  have hr₅ := (leads_text _ _ _ _ h₁).trans ((leads_setCall _ _ _ _ h₂).trans
    ((leads_symbol _ _ _ _ h₃).trans (leads_advance _ _ _ h₅)))
  obtain ⟨hr₇, htag⟩ := of_tag? h₇ (hr₅.tags.isWellKept hr)
  obtain ⟨hr₈, hsound, hspans, halias⟩ := of_body h₈ ((hr₅.trans hr₇).tags.isWellKept hr)
  obtain ⟨more, hbs, hr₉, hmore, hnames, hspans'⟩ :=
    of_continuations h₉ ((hr₅.trans (hr₇.trans hr₈)).tags.isWellKept hr)
  obtain rfl : bs = more := hbs
  have hnew : ∀ t, tag = some t → r.tags.isDefined t.toNat = false := fun t ht =>
    Bool.eq_false_iff.2 fun hc =>
      Bool.eq_false_iff.1 (htag t ht).2.1 (hr₅.tags.isDefined _ hc)
  have hgood : ∀ b' ∈ b :: bs, BodyIsGood tag.isSome r₉.tags.size b' :=
    List.forall_mem_cons.2 ⟨⟨hsound.mono hr₉.tags.size_le, halias⟩, hmore⟩
  refine ⟨hr₅.trans (hr₇.trans (hr₈.trans hr₉)), ⟨?_, ?_, fun b' hb' => (hgood b' hb').1, ?_,
    hnames⟩, ?_, fun t ht => ⟨hnew t ht, (hr₈.trans hr₉).tags.isDefined _ (htag t ht).2.2⟩⟩
  · exact fun t ht => Nat.lt_of_lt_of_le (htag t ht).1 (hr₈.trans hr₉).tags.size_le
  · intro ht
    have hfalse : r.tags.isDefined 0 = false := hnew 0 ht
    rw [hzero] at hfalse
    cases hfalse
  · intro b' hb' hkind
    obtain ⟨hflags, hnone⟩ := (hgood b' hb').2 hkind
    refine ⟨hflags, ?_⟩
    cases tag with
    | none => rfl
    | some t => cases hnone
  · exact (Spans.of_reaches (hr₅.trans hr₇)).append (hspans.append hspans')

/-! ### Call books -/

/-- What is known of the calls so far, the newest first, and of the tags so far. -/
structure CallsAreGood (tags : TagTable Nat) (calls : List Call) : Prop where
  isWellKept : tags.IsWellKept
  isDefined_zero : tags.isDefined 0 = true
  sound : ∀ c ∈ calls, c.IsSound tags.size
  isDefined : ∀ t ∈ calls.filterMap (·.tag), tags.isDefined t.toNat = true
  nodup : (calls.filterMap (·.tag)).Nodup

/-- **Another call keeps the calls good**: its tag was not defined, and theirs were. -/
theorem CallsAreGood.cons {calls : List Call} {c : Call} (hg : CallsAreGood r.tags calls)
    (hreach : r.Reaches rest) (hc : c.IsSound rest.tags.size)
    (htag : ∀ t, c.tag = some t →
      r.tags.isDefined t.toNat = false ∧ rest.tags.isDefined t.toNat = true) :
    CallsAreGood rest.tags (c :: calls) := by
  have hsound := List.forall_mem_cons.2
    ⟨hc, fun c' hc' => (hg.sound c' hc').mono hreach.tags.size_le⟩
  have hdefined : ∀ t ∈ calls.filterMap (·.tag), rest.tags.isDefined t.toNat = true :=
    fun t ht => hreach.tags.isDefined _ (hg.isDefined t ht)
  refine ⟨hreach.tags.isWellKept hg.isWellKept, hreach.tags.isDefined _ hg.isDefined_zero,
    hsound, ?_, ?_⟩ <;> cases ht : c.tag with
  | none =>
    rw [List.filterMap_cons_none ht]
    first | exact hdefined | exact hg.nodup
  | some t =>
    obtain ⟨hbefore, hafter⟩ := htag t ht
    rw [List.filterMap_cons_some ht]
    first
    | exact List.forall_mem_cons.2 ⟨hafter, hdefined⟩
    | refine List.nodup_cons.2 ⟨fun hmem => ?_, hg.nodup⟩
      rw [hg.isDefined t hmem] at hbefore
      cases hbefore

/-- A turn of the loop stops, or adds a call. -/
theorem callStep_eq_ok {before : List Call} {out : List Call ⊕ List Call}
    (h : callStep before r = .ok (out, rest)) : (out = .inr before.reverse ∧ r = rest) ∨
      ∃ c, out = .inl (c :: before) ∧ call r = .ok (c, rest) := by
  obtain ⟨t, r₁, h₁, h⟩ := bind_eq_ok.1 h
  obtain ⟨-, rfl⟩ := current?_eq_ok.1 h₁
  cases t with
  | none =>
    obtain ⟨rfl, rfl⟩ := pure_eq_ok.1 h
    exact .inl ⟨rfl, rfl⟩
  | some t =>
    obtain ⟨word, r₂, h₂, h⟩ := bind_eq_ok.1 h
    obtain ⟨-, rfl⟩ := symbolHere_eq_ok h₂
    split at h
    · obtain ⟨c, r₃, h₃, h⟩ := bind_eq_ok.1 h
      obtain ⟨rfl, rfl⟩ := pure_eq_ok.1 h
      exact .inr ⟨c, rfl, h₃⟩
    · cases h

/-- **The turns of the loop keep the calls good**, by induction on them. -/
theorem of_calls {before calls : List Call} (hg : CallsAreGood r.tags before)
    (h : loop callStep turns_callStep before r = .ok (calls, rest)) :
    CallsAreGood rest.tags calls.reverse ∧ ∃ more,
      calls = before.reverse ++ more ∧ Spans r (more.flatMap (·.arrayDefs)) rest := by
  refine loop_induct (motive := fun before r calls rest => CallsAreGood r.tags before →
    CallsAreGood rest.tags calls.reverse ∧ ∃ more,
      calls = before.reverse ++ more ∧ Spans r (more.flatMap (·.arrayDefs)) rest) ?_ ?_ h hg
  · intro before r calls rest h hg
    obtain ⟨hout, rfl⟩ | ⟨c, hout, -⟩ := callStep_eq_ok h
    · cases hout
      refine ⟨?_, [], by simp, .of_reaches (.refl _)⟩
      rw [List.reverse_reverse]
      exact hg
    · cases hout
  · intro before r before' mid calls rest h ih hg
    obtain ⟨hout, -⟩ | ⟨c, hout, hc⟩ := callStep_eq_ok h
    · cases hout
    · cases hout
      obtain ⟨hr, hsound, hspans, htag⟩ := of_call hc hg.isWellKept hg.isDefined_zero
      obtain ⟨hgood, more, rfl, hspans'⟩ := ih (hg.cons hr hsound htag)
      exact ⟨hgood, c :: more, by simp, hspans.append hspans'⟩

/-- What a whole book means is sound. -/
theorem of_book {tokens : List Token} {failure : Option LexError} {b : CallBook}
    {tags : TagTable Nat} (h : book { tokens, failure } = .ok ((b, tags), rest)) :
    IsSound tokens b tags := by
  obtain ⟨version, r₁, h₁, h⟩ := bind_eq_ok.1 h
  obtain ⟨_, r₂, h₂, h⟩ := bind_eq_ok.1 h
  obtain ⟨calls, r₃, h₃, h⟩ := bind_eq_ok.1 h
  obtain ⟨_, r₄, h₄, h⟩ := bind_eq_ok.1 h
  obtain ⟨rfl, rfl⟩ := left_eq_ok.1 h₄
  obtain ⟨hp, rfl⟩ := pure_eq_ok.1 h
  cases hp
  have hr₂ := (leads_version _ _ _ h₁).trans (leads_advanceOrEnd _ _ _ h₂)
  have hbase : CallsAreGood r₂.tags [] :=
    ⟨hr₂.tags.isWellKept TagTable.isWellKept_base, hr₂.tags.isDefined 0 rfl, by simp, by simp,
      List.nodup_nil⟩
  obtain ⟨hgood, more, hcalls, hspans⟩ := of_calls hbase h₃
  obtain rfl : calls = more := hcalls
  have hsound : ∀ c ∈ calls, c.IsSound r₃.tags.size := fun c hc =>
    hgood.sound c (List.mem_reverse.2 hc)
  refine ⟨hsound, ?_, ?_, hgood.isWellKept.size_le, ?_, ?_⟩
  · have hnodup := hgood.nodup
    rw [List.filterMap_reverse, List.nodup_reverse] at hnodup
    exact hnodup
  · have hmax : TagTable.maxSize < 65536 := by decide
    have hsize := hgood.isWellKept.size_le
    exact UInt16.toNat_ofNat_of_lt' (show r₃.tags.size < 65536 by omega)
  · have hwords := (Spans.of_reaches hr₂).append hspans [] .nil
    rwa [List.append_nil] at hwords
  · intro c _ body _ t _ c' hc' htag body' hbody' hkind
    obtain ⟨-, hnone⟩ := (hsound c' hc').flags_of_sameAs body' hbody' hkind
    rw [hnone] at htag
    cases htag

end Parser

/-- Tokens that have a meaning are read to it. -/
theorem book_of_parse {tokens : List Token} {failure : Option LexError} {b : CallBook}
    {tags : TagTable Nat} (h : parse tokens failure = .ok (b, tags)) :
    ∃ rest, Parser.book { tokens, failure } = .ok ((b, tags), rest) := by
  unfold parse at h
  cases hbook : Parser.book { tokens, failure } with
  | error e =>
    rw [hbook] at h
    cases h
  | ok p =>
    obtain ⟨x, rest⟩ := p
    rw [hbook] at h
    cases h
    exact ⟨rest, rfl⟩

/-- **What a text means is sound.**  Whatever call book the parser makes of tokens has
bodies of the form that their schemas ask for, whole rows, free flags and named setups;
its tags have numbers of the table, which is not too big, no two calls have the same
tag, and no other name of a call stands for another name. -/
theorem parse_sound {tokens : List Token} {failure : Option LexError} {b : CallBook}
    {tags : TagTable Nat} (h : parse tokens failure = .ok (b, tags)) :
    IsSound tokens b tags := by
  unfold parse at h
  cases hbook : Parser.book { tokens, failure } with
  | error e =>
    rw [hbook] at h
    cases h
  | ok p =>
    obtain ⟨x, rest⟩ := p
    rw [hbook] at h
    cases h
    exact Parser.of_book hbook

open Token in
/-- A text with each kind of definition, with a call that is used before it is defined,
with another name of a call, and with people who end in setups of their own. -/
def sampleTokens : List Token :=
  [word "version", text "sample",
    word "call", text "trade", word "mainstream", word "tag", word "trade",
      word "setup", word "1x2", word "1x2", word "array",
        leftBracket, word "1S", word "0S", rightBracket,
    word "call", text "also trade", word "plus",
      word "alias", word "trade",
    word "call", text "swing", word "mainstream",
      word "conc", word "trade", leftBracket, rightBracket,
        word "slip", leftBracket, rightBracket,
      word "seq", word "slip", leftBracket, rightBracket,
    word "call", text "slip", word "plus", word "tag", word "slip",
      word "setup", word "1x2", word "1x2", word "preds", text "No.",
        word "if", word "always", leftBracket, word "1N", number 0, rightBracket,
      word "alternate_definition", leftBracket, word "left", rightBracket, word "a2",
      word "setup", word "2x2", word "normal_concentric",
        word "concendsetup", word "1x2", word "1x2", number 1, word "array",
        leftBracket, number 0, number 0, number 0, number 0, rightBracket,
    word "call", text "move", word "plus",
      word "matrix", leftBracket, word "2E", number 3, word "2W", number 3, rightBracket]

/-- The sample has a meaning, and it is sound. -/
theorem parse_sound_sampleTokens : ∃ b tags, parse sampleTokens none = .ok (b, tags) ∧
    b.calls.length = 5 ∧ IsSound sampleTokens b tags := by
  obtain ⟨⟨b, tags⟩, hparse, hcount⟩ :
      ∃ p, parse sampleTokens none = .ok p ∧ p.1.calls.length = 5 := by
    have hread : (parse sampleTokens none).toOption.map (·.1.calls.length) = some 5 := by
      decide +kernel
    cases hp : parse sampleTokens none with
    | error e =>
      rw [hp] at hread
      cases hread
    | ok p =>
      rw [hp] at hread
      exact ⟨p, rfl, Option.some.inj hread⟩
  exact ⟨b, tags, hparse, hcount, parse_sound hparse⟩

end CallText
end SquareDance
