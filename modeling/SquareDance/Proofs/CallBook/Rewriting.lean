/-
# Rewriting what was loaded

Bytes that are loaded can be written again.  The new bytes may differ from the old ones,
but there are as many of them, they mean the same, and writing what they mean gives them
again: `toBytes_of_load`.  So a file that is loaded and saved is settled after the first
time.
-/

import SquareDance.Proofs.CallBook.Loaded
import SquareDance.Proofs.CallBook.RoundTrip

namespace SquareDance
namespace CallBook
namespace Reader

open Consumer

variable {s rest : List UInt8}

/-- **A definition that is read has the form of its schema.** -/
theorem of_definition {k : SchemaKind} {d : Definition} (h : definition k s = .ok (d, rest)) :
    (d.IsWellFormed k ∧ d.Fits) ∧ s.length = d.size + rest.length := by
  cases k with
  | nothing =>
    obtain ⟨rfl, rfl⟩ := pure_eq_ok.1 h
    exact ⟨⟨rfl, trivial⟩, (Nat.zero_add _).symm⟩
  | array =>
    obtain ⟨groups, s₁, h₁, h⟩ := bind_eq_ok.1 h
    obtain ⟨rfl, rfl⟩ := pure_eq_ok.1 h
    obtain ⟨⟨hgroups, hfits⟩, l₁⟩ := of_arrayGroups h₁
    exact ⟨⟨⟨rfl, hgroups⟩, hfits⟩, l₁⟩
  | matrix | partnerMatrix =>
    obtain ⟨flags, s₁, h₁, h⟩ := bind_eq_ok.1 h
    obtain ⟨groups, s₂, h₂, h⟩ := bind_eq_ok.1 h
    obtain ⟨rfl, rfl⟩ := pure_eq_ok.1 h
    have l₁ := of_fullword h₁
    obtain ⟨hgroups, l₂⟩ := of_matrixGroups h₂
    refine ⟨⟨⟨_, rfl, hgroups⟩, trivial⟩, ?_⟩
    rw [Definition.size]
    omega
  | sequential =>
    obtain ⟨ps, s₁, h₁, h⟩ := bind_eq_ok.1 h
    obtain ⟨rfl, rfl⟩ := pure_eq_ok.1 h
    obtain ⟨hps, l₁⟩ := of_parts h₁
    exact ⟨⟨⟨rfl, hps⟩, trivial⟩, l₁⟩
  | concentric =>
    obtain ⟨inner, s₁, h₁, h⟩ := bind_eq_ok.1 h
    obtain ⟨outer, s₂, h₂, h⟩ := bind_eq_ok.1 h
    obtain ⟨rfl, rfl⟩ := pure_eq_ok.1 h
    obtain ⟨hi, l₁⟩ := of_subCall h₁
    obtain ⟨ho, l₂⟩ := of_subCall h₂
    refine ⟨⟨⟨rfl, hi, ho⟩, trivial⟩, ?_⟩
    rw [Definition.size]
    omega
  | sameAs =>
    obtain ⟨tag, s₁, h₁, h⟩ := bind_eq_ok.1 h
    obtain ⟨rfl, rfl⟩ := pure_eq_ok.1 h
    obtain ⟨ht, l₁⟩ := of_subCallTag h₁
    exact ⟨⟨⟨rfl, ht⟩, trivial⟩, l₁⟩

/-- **A body that is read is well formed**, under a name if it is that of a call. -/
theorem of_body {isNamed : Bool} {name : String} {b : CallBody}
    (h : body isNamed s = .ok ((name, b), rest)) :
    (b.IsWellFormed ∧ b.Fits) ∧ (isNamed = ((Text.utf8 name).length != 0) ∧
      (Text.utf8 name).length ≤ 255) ∧
        s.length = (Text.utf8 name).length + b.size + rest.length := by
  obtain ⟨overflow, s₁, h₁, h⟩ := bind_eq_ok.1 h
  obtain ⟨flags1, s₂, h₂, h⟩ := bind_eq_ok.1 h
  obtain ⟨heritable, s₃, h₃, h⟩ := bind_eq_ok.1 h
  obtain ⟨_, s₄, h₄, h⟩ := bind_eq_ok.1 h
  obtain ⟨rfl, rfl⟩ := left_eq_ok.1 h₄
  obtain ⟨word, s₅, h₅, h⟩ := bind_eq_ok.1 h
  obtain ⟨schema, s₆, h₆, h⟩ := bind_eq_ok.1 h
  obtain ⟨-, rfl⟩ := require_eq_ok.1 h₆
  obtain ⟨_, s₇, h₇, h⟩ := bind_eq_ok.1 h
  obtain ⟨hnamed, rfl⟩ := check_eq_ok.1 h₇
  obtain ⟨t, s₈, h₈, h⟩ := bind_eq_ok.1 h
  obtain ⟨d, s₉, h₉, h⟩ := bind_eq_ok.1 h
  obtain ⟨hpair, rfl⟩ := pure_eq_ok.1 h
  cases hpair
  have l₁ := of_halfword h₁
  have l₂ := of_fullword h₂
  have l₃ := of_fullword h₃
  have l₅ := of_halfword h₅
  obtain ⟨hlen, l₈⟩ := of_text h₈
  obtain ⟨hd, l₉⟩ := of_definition h₉
  have hlow : (word >>> 8).toNat ≤ 255 := by
    have hword : word.toNat < 65536 := word.toNat_lt
    simp only [UInt16.toNat_shiftRight, UInt16.reduceToNat, Nat.shiftRight_eq_div_pow,
      Nat.reducePow, Nat.reduceMod]
    omega
  rw [hlen]
  refine ⟨hd, ⟨beq_iff_eq.1 hnamed, hlow⟩, ?_⟩
  show s.length = (word >>> 8).toNat + (12 + d.size) + s₉.length
  omega

/-! ### Records -/

/-- The tag of a halfword that is that of a call. -/
theorem tag_of_callWord {w : UInt16} (hcont : w ≠ continuationMark)
    (hcall : w &&& kindMask = callMark) :
    Call.TagFits (if w &&& tagMask = 0 then none else some (w &&& tagMask)) := by
  by_cases hne : w &&& tagMask = 0
  · rw [if_pos hne]
    trivial
  · rw [if_neg hne]
    show 1 ≤ (w &&& tagMask).toNat ∧ (w &&& tagMask).toNat ≤ 0x1FFE
    have hkind := congrArg UInt16.toNat hcall
    rw [and_kindMask_toNat] at hkind
    have hkind : w.toNat / 8192 * 8192 = 8192 := hkind
    have hcont : w.toNat ≠ 16383 := fun h => hcont (UInt16.toNat_inj.1 h)
    have hne : (w &&& tagMask).toNat ≠ 0 := fun h => hne (UInt16.toNat_inj.1 h)
    rw [and_tagMask_toNat] at hne ⊢
    omega

/-- **A call that is read is well formed**, before its continuations are. -/
theorem of_call {w : UInt16} {c : Call} (hcont : w ≠ continuationMark)
    (hcall : w &&& kindMask = callMark) (h : call w s = .ok (c, rest)) :
    c.IsWellFormed ∧ 2 + s.length = c.size + rest.length := by
  obtain ⟨index, s₁, h₁, h⟩ := bind_eq_ok.1 h
  obtain ⟨level, s₂, h₂, h⟩ := bind_eq_ok.1 h
  obtain ⟨-, rfl⟩ := require_eq_ok.1 h₂
  obtain ⟨⟨name, b⟩, s₃, h₃, h⟩ := bind_eq_ok.1 h
  obtain ⟨rfl, rfl⟩ := pure_eq_ok.1 h
  have l₁ := of_byte h₁
  obtain ⟨hb, ⟨hnamed, hlen⟩, l₃⟩ := of_body h₃
  have hpos : 1 ≤ (Text.utf8 name).length :=
    Nat.one_le_iff_ne_zero.2 (bne_iff_ne.1 hnamed.symm)
  refine ⟨⟨hpos, hlen, tag_of_callWord hcont hcall, ?_⟩, ?_⟩
  · exact List.forall_mem_cons.2 ⟨hb, by simp⟩
  · show 2 + s.length = 3 + (Text.utf8 name).length + b.size + 0 + s₃.length
    omega

/-- The size of calls. -/
def totalSize (calls : List Call) : Nat := (calls.map Call.size).sum

/-- **A record keeps the calls well formed and adds its size to theirs.** -/
theorem of_record {calls calls' : List Call} (hwf : ∀ c ∈ calls, c.IsWellFormed)
    (h : record calls s = .ok (calls', rest)) :
    (∀ c ∈ calls', c.IsWellFormed) ∧
      s.length + totalSize calls = totalSize calls' + rest.length := by
  obtain ⟨_, s₀, h₀, h⟩ := bind_eq_ok.1 h
  obtain ⟨rfl, rfl⟩ := left_eq_ok.1 h₀
  obtain ⟨w, s₁, h₁, h⟩ := bind_eq_ok.1 h
  have l₁ := of_halfword h₁
  split at h
  · obtain ⟨⟨name, b⟩, s₂, h₂, h⟩ := bind_eq_ok.1 h
    obtain ⟨hb, ⟨hnamed, -⟩, l₂⟩ := of_body h₂
    have hnamed : (Text.utf8 name).length = 0 := by simpa using hnamed
    cases calls with
    | nil => exact absurd h throw_ne_ok
    | cons c before =>
      obtain ⟨rfl, rfl⟩ := pure_eq_ok.1 h
      obtain ⟨hc, hbefore⟩ := List.forall_mem_cons.1 hwf
      refine ⟨List.forall_mem_cons.2 ⟨⟨hc.name_pos, hc.name_le, hc.tag, ?_⟩, hbefore⟩, ?_⟩
      · have hbodies : ∀ b' ∈ c.body :: (c.continuations ++ [b]), b'.IsWellFormed ∧ b'.Fits := by
          rw [← List.cons_append]
          exact List.forall_mem_append.2 ⟨hc.bodies, List.forall_mem_singleton.2 hb⟩
        exact hbodies
      · simp only [totalSize, Call.size, List.map_cons, List.map_append, List.sum_cons,
          List.sum_append, List.map_nil, List.sum_nil]
        omega
  · rename_i hcont
    split at h
    · rename_i hcall
      obtain ⟨c, s₂, h₂, h⟩ := bind_eq_ok.1 h
      obtain ⟨rfl, rfl⟩ := pure_eq_ok.1 h
      obtain ⟨hc, l₂⟩ := of_call hcont hcall h₂
      refine ⟨List.forall_mem_cons.2 ⟨hc, hwf⟩, ?_⟩
      rw [totalSize, totalSize, List.map_cons, List.sum_cons]
      omega
    · exact absurd h throw_ne_ok

/-- A turn of the loop reads a record, or the end mark and no more. -/
theorem recordStep_eq_ok {calls : List Call} {out : List Call ⊕ List Call}
    (h : recordStep calls s = .ok (out, rest)) :
    (∃ calls', record calls s = .ok (calls', rest) ∧ out = .inl calls') ∨
      s.length = 2 + rest.length ∧ out = .inr calls.reverse := by
  obtain ⟨_, s₀, h₀, h⟩ := bind_eq_ok.1 h
  obtain ⟨rfl, rfl⟩ := left_eq_ok.1 h₀
  split at h
  · obtain ⟨w, s₁, h₁, h⟩ := bind_eq_ok.1 h
    obtain ⟨rfl, rfl⟩ := pure_eq_ok.1 h
    exact .inr ⟨of_halfword h₁, rfl⟩
  · obtain ⟨calls', s₁, h₁, h⟩ := bind_eq_ok.1 h
    obtain ⟨rfl, rfl⟩ := pure_eq_ok.1 h
    exact .inl ⟨calls', h₁, rfl⟩

/-- **Records up to the end mark are well-formed calls.**  By induction on the turns of
the loop, each of which keeps what is well formed and counts what it takes. -/
theorem of_recordSteps {before calls : List Call} (hwf : ∀ c ∈ before, c.IsWellFormed)
    (h : loop recordStep turns_recordStep before s = .ok (calls, rest)) :
    (∀ c ∈ calls, c.IsWellFormed) ∧
      s.length + totalSize before = 2 + totalSize calls + rest.length := by
  refine loop_induct (motive := fun before s calls rest =>
    (∀ c ∈ before, c.IsWellFormed) → (∀ c ∈ calls, c.IsWellFormed) ∧
      s.length + totalSize before = 2 + totalSize calls + rest.length) ?_ ?_ h hwf
  · intro before s calls rest hs hwf
    obtain ⟨_, -, ho⟩ | ⟨hl, ho⟩ := recordStep_eq_ok hs
    · cases ho
    · cases ho
      refine ⟨by simpa using hwf, ?_⟩
      rw [totalSize, totalSize, List.map_reverse, List.sum_reverse]
      omega
  · intro before s before' mid calls rest hs ih hwf
    obtain ⟨before'', hrec, ho⟩ | ⟨-, ho⟩ := recordStep_eq_ok hs
    · cases ho
      obtain ⟨hwf', hl⟩ := of_record hwf hrec
      obtain ⟨hcalls, hl'⟩ := ih hwf'
      exact ⟨hcalls, by omega⟩
    · cases ho

/-- A call book that is read has calls that are well formed, and takes as many bytes as its size
says. -/
theorem of_book {expected : UInt16} {b : CallBook}
    (h : book s = .ok ((expected, b), rest)) :
    (Text.utf8 b.version).length ≤ 65535 ∧ (∀ c ∈ b.calls, c.IsWellFormed) ∧
      s.length = b.size + rest.length := by
  obtain ⟨magic, s₁, h₁, h⟩ := bind_eq_ok.1 h
  obtain ⟨_, s₂, h₂, h⟩ := bind_eq_ok.1 h
  obtain ⟨-, rfl⟩ := check_eq_ok.1 h₂
  obtain ⟨version, s₃, h₃, h⟩ := bind_eq_ok.1 h
  obtain ⟨_, s₄, h₄, h⟩ := bind_eq_ok.1 h
  obtain ⟨-, rfl⟩ := check_eq_ok.1 h₄
  obtain ⟨count, s₅, h₅, h⟩ := bind_eq_ok.1 h
  obtain ⟨tagCount, s₆, h₆, h⟩ := bind_eq_ok.1 h
  obtain ⟨length, s₇, h₇, h⟩ := bind_eq_ok.1 h
  obtain ⟨t, s₈, h₈, h⟩ := bind_eq_ok.1 h
  obtain ⟨calls, s₉, h₉, h⟩ := bind_eq_ok.1 h
  obtain ⟨hpair, rfl⟩ := pure_eq_ok.1 h
  cases hpair
  have l₁ := of_halfword h₁
  have l₃ := of_halfword h₃
  have l₅ := of_halfword h₅
  have l₆ := of_halfword h₆
  have l₇ := of_halfword h₇
  obtain ⟨hlen, l₈⟩ := of_text h₈
  obtain ⟨hcalls, l₉⟩ := of_recordSteps (fun c hc => absurd hc List.not_mem_nil) h₉
  have hnone : totalSize [] = 0 := rfl
  have hlength : length.toNat < 65536 := length.toNat_lt
  refine ⟨?_, hcalls, ?_⟩
  · show (Text.utf8 t).length ≤ 65535
    omega
  · show s.length = 12 + (Text.utf8 t).length + totalSize calls + s₉.length
    omega

end Reader

/-- Bytes that are loaded are read to the last of them, and have as many headers as they
say. -/
theorem book_of_load {bytes : List UInt8} {b : CallBook} (h : load bytes = .ok b) :
    ∃ expected : UInt16, Reader.book bytes = .ok ((expected, b), []) ∧
      b.headerCount = expected.toNat := by
  unfold load at h
  split at h
  · cases h
  · rename_i expected book rest hbook
    split at h
    · cases h
    · rename_i hrest
      split at h
      · cases h
      · rename_i hcount
        cases h
        obtain rfl : rest = [] := by simpa using hrest
        exact ⟨expected, hbook, not_not.1 hcount⟩

/-- **What is loaded is well formed**, and its size is the number of the bytes. -/
theorem of_load {bytes : List UInt8} {b : CallBook} (h : load bytes = .ok b) :
    b.IsWellFormed ∧ bytes.length = b.size := by
  obtain ⟨expected, hbook, hcount⟩ := book_of_load h
  obtain ⟨hversion, hcalls, hl⟩ := Reader.of_book hbook
  have hexpected : expected.toNat < 65536 := expected.toNat_lt
  exact ⟨⟨by omega, hversion, hcalls⟩, hl⟩

/-- **Whatever is loaded can be written, and is then settled.**  The bytes written are as
many as those loaded, loading them gives the same call book, and writing what is loaded
from them gives the same bytes again. -/
theorem toBytes_of_load {bytes : List UInt8} {b : CallBook} (h : load bytes = .ok b) :
    ∃ bytes', b.toBytes = .ok bytes' ∧ bytes'.length = bytes.length ∧ load bytes' = .ok b ∧
      ∀ b', load bytes' = .ok b' → b'.toBytes = .ok bytes' := by
  obtain ⟨hwf, hl⟩ := of_load h
  obtain ⟨bytes', hbytes, hread⟩ := Reader.exists_toBytes hwf
  have hload := load_of_book hwf.count_le hread
  obtain ⟨-, hl'⟩ := of_load hload
  refine ⟨bytes', hbytes, hl'.trans hl.symm, hload, ?_⟩
  intro b' hb'
  obtain rfl : b = b' := Except.ok.inj (hload.symm.trans hb')
  exact hbytes

/-- Bytes of a call with one clause, three of them not as they are written: the high half
of the second ending setup, the byte after a text of one byte, an idle bit of a destination. -/
def looseBytes : List UInt8 :=
  [0x53, 0x44, 0x01, 0x4B, 0, 1, 0, 0, 0, 0,
   0x20, 0x01, 0, 0, 0, 0, 0, 0, 0, 0, 0, 0, 0, 1, 128, 97,
   0x80, 0x01, 0x08, 0, 0, 0, 1, 1, 0xAB, 1, 0, 1, 120, 0xFF,
   0x60, 0, 0, 0, 0x02, 0x04, 0, 0]

/-- The call book of `looseBytes`. -/
def looseBook : CallBook where
  calls := [
    { name := "a", level := .mainstream, tag := some 1
      body := {
        schema := ⟨128, Eq.refl true⟩
        definition := .array [
          { defs := [
              { start := 1, finish := .concentric 1 1
                body := .clauses (.text "x") [
                  { predicate := .designated .select
                    entries := [.dest { position := 0, direction := .north }] }] }] }] } }]

/-- Bytes that would not be written are loaded, and settled when they are written again. -/
theorem toBytes_of_load_looseBytes : load looseBytes = .ok looseBook ∧
    ∃ bytes', looseBook.toBytes = .ok bytes' ∧ bytes'.length = looseBytes.length ∧
      load bytes' = .ok looseBook ∧
        ∀ b', load bytes' = .ok b' → b'.toBytes = .ok bytes' := by
  have h : load looseBytes = .ok looseBook := by decide +kernel
  exact ⟨h, toBytes_of_load h⟩

end CallBook
end SquareDance
