/-
# The round trip of call books

A body is followed by the record of a call, by that of a continuation or by the end
mark, and none of these is taken for more of the body: `Reader.Ends`.  The records of a
call turn the calls read so far into those and one more, which is what a step of the
reader's loop does and, by induction on the records, what a run of it does:
`Reader.Adds`.  Main statement: a well-formed call book can be written, and loading the
bytes gives it back, `load_toBytes`.
-/

import SquareDance.Proofs.CallBook.ReadBack.Arrays

namespace SquareDance
namespace CallBook
namespace Reader

open Consumer

/-! ### Bodies -/

/-- **A definition is read back**, before the record of a call or the end mark. -/
theorem exists_definitionBytes {k : SchemaKind} {d : Definition} (h : d.IsWellFormed k)
    (hfits : d.Fits) : ∃ bytes, definitionBytes d = .ok bytes ∧ ∀ rest, Ends rest →
      definition k (bytes ++ rest) = .ok (d, rest) := by
  cases d with
  | nothing =>
    obtain rfl : k = .nothing := h
    exact ⟨[], rfl, fun rest _ => rfl⟩
  | array groups =>
    obtain ⟨rfl, hgroups⟩ := h
    obtain ⟨pieces, hpieces, hread⟩ := exists_arrayGroupsBytes hgroups hfits
    refine ⟨pieces.flatten, by rw [definitionBytes, hpieces]; rfl, fun rest hr => ?_⟩
    rw [definition, bind_of_ok (hread rest hr)]
    rfl
  | matrix flags groups =>
    obtain ⟨count, hcount, hgroups⟩ := h
    refine ⟨_, rfl, fun rest hr => ?_⟩
    have hread := matrixGroups_append hgroups hr.not_subCallNext
    rw [List.append_assoc]
    cases k with
    | matrix | partnerMatrix =>
      cases hcount
      rw [definition, bind_of_ok (fullword_append flags _), bind_of_ok hread]
      rfl
    | array | nothing | sequential | sameAs | concentric => cases hcount
  | sequential ps =>
    obtain ⟨rfl, hne, htags⟩ := h
    refine ⟨_, rfl, fun rest hr => ?_⟩
    rw [definition, bind_of_ok (parts_append hne htags hr.not_subCallNext)]
    rfl
  | concentric inner outer =>
    obtain ⟨rfl, hi, ho⟩ := h
    refine ⟨_, rfl, fun rest _ => ?_⟩
    rw [List.append_assoc, definition, bind_of_ok (subCall_append hi _),
      bind_of_ok (subCall_append ho rest)]
    rfl
  | sameAs tag =>
    obtain ⟨rfl, ht⟩ := h
    refine ⟨_, rfl, fun rest _ => ?_⟩
    rw [definition, bind_of_ok (subCallTag_append ht rest)]
    rfl

/-- **A body is read back under its name**, which only that of a call has. -/
theorem exists_bodyBytes (name : String) {b : CallBody} (hname : (Text.utf8 name).length ≤ 255)
    (h : b.IsWellFormed) (hfits : b.Fits) : ∃ bytes, bodyBytes name b = .ok bytes ∧
      ∀ rest, Ends rest →
        body ((Text.utf8 name).length != 0) (bytes ++ rest) = .ok ((name, b), rest) := by
  obtain ⟨bytes, hbytes, hread⟩ := exists_definitionBytes h hfits
  have hlen : (UInt8.ofNat (Text.utf8 name).length).toUInt16.toNat = (Text.utf8 name).length := by
    rw [UInt8.toNat_toUInt16, UInt8.toNat_ofNat_of_lt' (Nat.lt_of_le_of_lt hname (by decide))]
  have hschema : Schema.ofIndex? (UInt8.ofNat b.schema.index).toNat = some b.schema := by
    rw [UInt8.toNat_ofNat_of_lt' (Nat.lt_trans b.schema.index_lt (by decide)),
      Schema.ofIndex?_index]
  refine ⟨_, by rw [bodyBytes, if_neg (Nat.not_lt.2 hname), hbytes]; rfl, fun rest hr => ?_⟩
  have hpair : ∀ (x y : UInt8) (rest : List UInt8),
      halfword ([x, y] ++ rest) = .ok (halfwordOf x y, rest) := fun _ _ _ => rfl
  simp only [List.append_assoc]
  rw [body, bind_of_ok (halfword_append _ _), bind_of_ok (fullword_append _ _),
    bind_of_ok (fullword_append _ _), bind_left,
    bind_of_ok (hpair _ _ _), halfwordOf_toUInt8, halfwordOf_high, hlen,
    bind_of_ok (require_eq_ok.2 ⟨hschema, rfl⟩),
    bind_check_self, bind_of_ok (text_append name rfl _),
    bind_of_ok (hread rest hr)]
  rfl

/-! ### Records -/

/-- The bytes of records that turn the calls so far, the newest first, into others. -/
def Adds (calls : List Call) (bytes : List UInt8) (calls' : List Call) : Prop :=
  ∀ rest, Ends rest → loop recordStep turns_recordStep calls (bytes ++ rest)
    = loop recordStep turns_recordStep calls' rest ∧ Ends (bytes ++ rest)

namespace Adds

/-- No records add no calls. -/
theorem nil (calls : List Call) : Adds calls [] calls := fun _ h => ⟨rfl, h⟩

/-- Records may be read one after the other. -/
theorem append {calls mid calls' : List Call} {b₁ b₂ : List UInt8} (h₁ : Adds calls b₁ mid)
    (h₂ : Adds mid b₂ calls') : Adds calls (b₁ ++ b₂) calls' := by
  intro rest h
  obtain ⟨hl₂, hr⟩ := h₂ rest h
  obtain ⟨hl₁, hr⟩ := h₁ (b₂ ++ rest) hr
  rw [List.append_assoc]
  exact ⟨hl₁.trans hl₂, hr⟩

/-- A record adds what the reader makes of it. -/
theorem record {calls calls' : List Call} {w : UInt16} {bytes : List UInt8}
    (hw : w ≠ endMark) (hlt : w < 0x4000) (hr : ∀ rest, Ends rest →
      record calls (CallBook.halfword w ++ (bytes ++ rest)) = .ok (calls', rest)) :
    Adds calls (CallBook.halfword w ++ bytes) calls' := by
  intro rest h
  rw [List.append_assoc]
  have hpeek := peek?_append w (bytes ++ rest)
  refine ⟨?_, w, hpeek, hlt⟩
  have hstep : recordStep calls (CallBook.halfword w ++ (bytes ++ rest))
      = .ok (.inl calls', rest) := by
    rw [recordStep, bind_left, hpeek, if_neg (by simpa using hw),
      bind_of_ok (hr rest h)]
    rfl
  exact loop_of_inl hstep

end Adds

/-- **A continuation is added to the newest call.** -/
theorem exists_continuationBytes {b : CallBody} (h : b.IsWellFormed) (hfits : b.Fits) :
    ∃ bytes, continuationBytes b = .ok bytes ∧ ∀ c calls,
      Adds (c :: calls) bytes ({ c with continuations := c.continuations ++ [b] } :: calls) := by
  obtain ⟨bytes, hbytes, hread⟩ := exists_bodyBytes "" (by decide) h hfits
  have hunnamed : ((Text.utf8 "").length != 0) = false := by decide
  rw [hunnamed] at hread
  refine ⟨_, by rw [continuationBytes, hbytes]; rfl, fun c calls => ?_⟩
  refine .record (by decide) (by decide) fun rest hr => ?_
  rw [Reader.record, bind_left, bind_of_ok (halfword_append _ _),
    if_pos rfl, bind_of_ok (hread rest hr)]
  rfl

/-- The other bodies of a call can be written, and reading them adds them to the call. -/
theorem exists_continuationsBytes {bs : List CallBody} (h : ∀ b ∈ bs, b.IsWellFormed ∧ b.Fits) :
    ∃ pieces, bs.mapM continuationBytes = .ok pieces ∧ ∀ c calls,
      Adds (c :: calls) pieces.flatten ({ c with continuations := c.continuations ++ bs } :: calls) := by
  induction bs with
  | nil =>
    refine ⟨[], rfl, fun c calls => ?_⟩
    rw [List.append_nil]
    exact .nil _
  | cons b bs ih =>
    obtain ⟨hb, hbs⟩ := List.forall_mem_cons.1 h
    obtain ⟨piece, hp, hadd⟩ := exists_continuationBytes hb.1 hb.2
    obtain ⟨pieces, hps, hadds⟩ := ih hbs
    refine ⟨piece :: pieces, by rw [List.mapM_cons, hp, hps]; rfl, fun c calls => ?_⟩
    have := (hadd c calls).append (hadds _ calls)
    rwa [List.append_assoc] at this

/-- The halfword of a call: neither the end mark nor that of a continuation. -/
theorem callWord {tag : Option TagId} (h : Call.TagFits tag) :
    ∃ w, callMark ||| tag.getD 0 = w ∧ w ≠ endMark ∧ w < 0x4000 ∧ w ≠ continuationMark ∧
      w &&& kindMask = callMark ∧ (if w &&& tagMask = 0 then none else some (w &&& tagMask)) = tag := by
  obtain ⟨t, ht, htag⟩ : ∃ t, tag.getD 0 = t ∧
      t.toNat ≤ 0x1FFE ∧ (if t = 0 then none else some t) = tag := by
    cases tag with
    | none => exact ⟨0, rfl, by decide, rfl⟩
    | some t =>
      obtain ⟨hpos, hle⟩ := h
      refine ⟨t, rfl, hle, if_neg ?_⟩
      rintro rfl
      exact absurd hpos (by decide)
  obtain ⟨hle, htag⟩ := htag
  have hlt : t < 0x2000 := by
    show t.toNat < 8192
    omega
  have hw := mark_or_toNat callMark_and_kindMask hlt
  have hw : (callMark ||| t).toNat = 8192 + t.toNat := hw
  refine ⟨_, rfl, ?_, ?_, ?_, ?_, ?_⟩ <;> rw [ht]
  · intro h
    have := hw.symm.trans (congrArg UInt16.toNat h)
    simp [endMark] at this
  · show (callMark ||| t).toNat < 16384
    omega
  · intro h
    have := hw.symm.trans (congrArg UInt16.toNat h)
    simp [continuationMark] at this
    omega
  · exact mark_or_and_kindMask callMark_and_kindMask hlt
  · rw [mark_or_and_tagMask callMark_and_kindMask hlt]
    exact htag

/-- **A call is added to the calls before it.** -/
theorem exists_callBytes {c : Call} (h : c.IsWellFormed) :
    ∃ bytes, callBytes c = .ok bytes ∧ ∀ calls, Adds calls bytes (c :: calls) := by
  obtain ⟨name, level, tag, b, continuations⟩ := c
  obtain ⟨hb, hcontinuations⟩ := List.forall_mem_cons.1 h.bodies
  obtain ⟨bytes, hbytes, hread⟩ := exists_bodyBytes name h.name_le hb.1 hb.2
  obtain ⟨pieces, hpieces, hadds⟩ := exists_continuationsBytes hcontinuations
  obtain ⟨w, hword, hend, hlt, hne, hkind, htag⟩ := callWord h.tag
  have hnamed : ((Text.utf8 name).length != 0) = true :=
    bne_iff_ne.2 (Nat.one_le_iff_ne_zero.1 h.name_pos)
  have hlevel : Level.ofIndex? (UInt8.ofNat level.index).toNat = some level := by
    cases level <;> rfl
  refine ⟨_, by rw [callBytes, hbytes, hpieces]; rfl, fun calls => ?_⟩
  have hcall : Adds calls (CallBook.halfword w ++ ([UInt8.ofNat level.index] ++ bytes))
      (⟨name, level, tag, b, []⟩ :: calls) := by
    refine .record hend hlt fun rest hr => ?_
    have hbyte : byte ([UInt8.ofNat level.index] ++ bytes ++ rest)
        = .ok (UInt8.ofNat level.index, bytes ++ rest) := rfl
    have hread := hread rest hr
    rw [hnamed] at hread
    have hcall : call w ([UInt8.ofNat level.index] ++ bytes ++ rest)
        = .ok (⟨name, level, tag, b, []⟩, rest) := by
      rw [call, bind_of_ok hbyte, bind_of_ok (require_eq_ok.2 ⟨hlevel, rfl⟩), bind_of_ok hread]
      simp only [htag]
      rfl
    rw [record, bind_left, bind_of_ok (halfword_append _ _),
      if_neg hne, if_pos hkind, bind_of_ok hcall]
    rfl
  have hall := hcall.append (hadds _ calls)
  rw [← List.append_assoc] at hall
  rw [hword]
  exact hall

/-- Calls can be written one after the other, and reading them adds all of them. -/
theorem exists_callsBytes {cs : List Call} (h : ∀ c ∈ cs, c.IsWellFormed) :
    ∃ pieces, cs.mapM callBytes = .ok pieces ∧ ∀ calls,
      Adds calls pieces.flatten (cs.reverse ++ calls) := by
  induction cs with
  | nil => exact ⟨[], rfl, fun calls => .nil calls⟩
  | cons c cs ih =>
    obtain ⟨hc, hcs⟩ := List.forall_mem_cons.1 h
    obtain ⟨piece, hp, hadd⟩ := exists_callBytes hc
    obtain ⟨pieces, hps, hadds⟩ := ih hcs
    refine ⟨piece :: pieces, by rw [List.mapM_cons, hp, hps]; rfl, fun calls => ?_⟩
    have := (hadd calls).append (hadds (c :: calls))
    rwa [List.reverse_cons, List.append_assoc]

/-- The end mark ends the records. -/
theorem loop_endMark (calls : List Call) :
    loop recordStep turns_recordStep calls (CallBook.halfword endMark) = .ok (calls.reverse, []) :=
  loop_of_inr rfl

/-- **A well-formed call book is read back from its bytes, to the last of them.** -/
theorem exists_toBytes {b : CallBook} (h : b.IsWellFormed) :
    ∃ bytes, b.toBytes = .ok bytes ∧
      book bytes = .ok ((UInt16.ofNat b.headerCount, b), []) := by
  obtain ⟨pieces, hpieces, hadds⟩ := exists_callsBytes h.calls
  have hversion : (UInt16.ofNat (Text.utf8 b.version).length).toNat
      = (Text.utf8 b.version).length :=
    UInt16.toNat_ofNat_of_lt' (Nat.lt_succ_of_le h.version_le)
  have hrecords : records (pieces.flatten ++ CallBook.halfword endMark) = .ok (b.calls, []) := by
    obtain ⟨hl, -⟩ := hadds [] (CallBook.halfword endMark) ⟨endMark, rfl, by decide⟩
    rw [records, hl, loop_endMark, List.append_nil, List.reverse_reverse]
  have hcount := fitted_of_lt (Nat.lt_succ_of_le h.count_le) "call count"
  have hlength := fitted_of_lt (Nat.lt_succ_of_le h.version_le) "version string"
  refine ⟨_, by simp only [toBytes, hcount, hlength, hpieces]; rfl, ?_⟩
  simp only [List.append_assoc]
  rw [book, bind_of_ok (halfword_append _ _), bind_check_self,
    bind_of_ok (halfword_append _ _), bind_check_self,
    bind_of_ok (halfword_append _ _), bind_of_ok (halfword_append _ _),
    bind_of_ok (halfword_append _ _), hversion, bind_of_ok (text_append _ rfl _),
    bind_of_ok hrecords]
  rfl

end Reader

/-- Bytes that are read to the last of them, with as many headers as they say, are loaded. -/
theorem load_of_book {bytes : List UInt8} {b : CallBook} (hcount : b.headerCount ≤ 65535)
    (h : Reader.book bytes = .ok ((UInt16.ofNat b.headerCount, b), [])) :
    load bytes = .ok b := by
  have hn : (UInt16.ofNat b.headerCount).toNat = b.headerCount :=
    UInt16.toNat_ofNat_of_lt' (Nat.lt_succ_of_le hcount)
  rw [load, h]
  simp [hn]

/-- **The round trip of call books.**  A well-formed call book can be written, and loading
its bytes gives it back. -/
theorem load_toBytes {b : CallBook} (h : b.IsWellFormed) :
    ∃ bytes, b.toBytes = .ok bytes ∧ load bytes = .ok b := by
  obtain ⟨bytes, hbytes, hread⟩ := Reader.exists_toBytes h
  exact ⟨bytes, hbytes, load_of_book h.count_le hread⟩

/-- A call with clauses in alternative groups, continued by a sequence; a call by matrices;
another name of the first call. -/
def mixedBook : CallBook where
  version := "39.1"
  tagCount := 9
  calls := [
    { name := "anchor", level := .c3a, tag := some 8
      body := {
        flags := { flags1 := 0x10208000, overflow := 3, heritable := 0x80000001 }
        schema := ⟨128, by decide⟩
        definition := .array [
          { defs := [
              { start := 2, finish := .concentric 2 1, flags := 0x2A0013, restriction := 7
                qualifier := 0x1F9
                body := .clauses (.text "not") [
                  { predicate := .designated .select
                    entries := [.empty, .dest { position := 36, direction := .west }] },
                  { predicate := .place .always
                    entries := [.empty, .empty] }] },
              { start := 1, finish := .plain 169
                body := .plain [.dest { turn := ⟨.aac, true⟩, slide := some .g, roll := some .m
                                        position := 0, direction := .south }] }] },
          { alternate := some { level := .plus, keys := 0xFFFFFFFF }
            defs := [{ start := 0, finish := .plain 0
                       body := .clauses (.canned .noSelect) [] }] }] }
      continuations := [
        { schema := ⟨137, by decide⟩
          definition := .sequential [{ tag := 0x1FFF, modifiersh := 5 }, { tag := 0 }] }] },
    { name := "é", level := .mainstream
      body := {
        schema := ⟨132, by decide⟩
        definition := .matrix 1 [
          { entries := [.empty, .dest { position := 24, direction := .east, y := some 65535 }] },
          { alternate := some { level := .dontShow, keys := 0 }
            entries := [.empty, .empty] }] } },
    { name := "again", level := .c4x
      body := { schema := ⟨143, by decide⟩, definition := .sameAs 8 } }]

/-- A call book with a definition of each kind is read back. -/
theorem load_toBytes_mixedBook : mixedBook.IsWellFormed ∧
    ∃ bytes, mixedBook.toBytes = .ok bytes ∧ load bytes = .ok mixedBook :=
  ⟨by decide +kernel, load_toBytes (by decide +kernel)⟩

end CallBook
end SquareDance
