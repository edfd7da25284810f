/-
# What is loaded

Whatever bytes a call book is loaded from, it is well formed, and its size is the
number of the bytes.  The lemmas `Reader.of_*` say both of each reader: what it gives
has a property, and has taken as many bytes as its size says.  A size counts what is
written of a thing, not what was read, so that it is the same for all bytes that mean
the same.

Bytes that are loaded need not be those that are written again: a byte that fills up a
text, the high half of the second ending setup and a bit of each destination are not
kept.  Main statement: what is loaded is well formed, `load_eq_ok`.
-/

import SquareDance.Proofs.CallBook.ReadBack.Arrays

namespace SquareDance

/-! ### Sizes -/

/-- The number of bytes of an entry of a matrix. -/
def Entry.matrixSize : Entry → Nat
  | empty => 2
  | dest _ => 4

/-- The number of bytes of what is said when no clause applies. -/
def ClausesMessage.size : ClausesMessage → Nat
  | text s => 2 + ((Text.utf8 s).length + (Text.utf8 s).length % 2)
  | canned _ => 2

/-- The number of bytes of a clause. -/
def Clause.size (c : Clause) : Nat := 4 + 2 * c.entries.length

/-- The number of bytes of the destinations of an array definition. -/
def ArrayBody.size : ArrayBody → Nat
  | plain entries => 2 * entries.length
  | clauses message cs => message.size + (cs.map Clause.size).sum

/-- The number of bytes of the ending setups. -/
def EndPlace.size : EndPlace → Nat
  | plain _ => 0
  | concentric _ _ => 2

/-- The number of bytes of a thing in the definition of arrays. -/
def ArrayItem.size : ArrayItem → Nat
  | header _ => 6
  | member d => 8 + d.finish.size + d.body.size

/-- The number of bytes of a matrix. -/
def MatrixGroup.size (g : MatrixGroup) : Nat :=
  (if g.alternate.isSome then 6 else 0) + (g.entries.map Entry.matrixSize).sum

/-- The number of bytes of a definition. -/
def Definition.size : Definition → Nat
  | nothing => 0
  | array groups => ((groups.flatMap ArrayGroup.items).map ArrayItem.size).sum
  | matrix _ groups => 4 + (groups.map MatrixGroup.size).sum
  | sequential parts => 10 * parts.length
  | concentric _ _ => 20
  | sameAs _ => 2

/-- The number of bytes of a body, without its name. -/
def CallBody.size (b : CallBody) : Nat := 12 + b.definition.size

/-- The number of bytes of a call. -/
def Call.size (c : Call) : Nat :=
  3 + (Text.utf8 c.name).length + c.body.size + (c.continuations.map fun b => 2 + b.size).sum

/-- The number of bytes of a call book. -/
def CallBook.size (b : CallBook) : Nat :=
  12 + (Text.utf8 b.version).length + (b.calls.map Call.size).sum

namespace ArrayGroup

/-- Sorting things into groups keeps all of them, and each group after the members
before the first head has a head. -/
theorem splitItems_items (items : List ArrayItem) :
    (splitItems items).1.map .member ++ (splitItems items).2.flatMap ArrayGroup.items = items ∧
      ∀ g ∈ (splitItems items).2, g.alternate.isSome = true := by
  induction items with
  | nil => exact ⟨rfl, by simp [splitItems]⟩
  | cons item items ih =>
    obtain ⟨hitems, hsome⟩ := ih
    cases item with
    | member d => exact ⟨congrArg (ArrayItem.member d :: ·) hitems, hsome⟩
    | header a =>
      refine ⟨congrArg (ArrayItem.header a :: ·) hitems, ?_⟩
      exact List.forall_mem_cons.2 ⟨rfl, hsome⟩

/-- **The groups that things make up are made of just these things.** -/
theorem flatMap_items_ofItems (items : List ArrayItem) :
    (ofItems items).flatMap ArrayGroup.items = items := by
  obtain ⟨hitems, -⟩ := splitItems_items items
  show (if (splitItems items).1.isEmpty then (splitItems items).2
    else { defs := (splitItems items).1 } :: (splitItems items).2).flatMap _ = _
  by_cases hnil : (splitItems items).1 = []
  · rw [hnil] at hitems ⊢
    exact hitems
  · rw [if_neg (by simpa using hnil)]
    exact hitems

/-- Only the first group may be without a header. -/
theorem isSome_of_mem_tail_ofItems {items : List ArrayItem} {g : ArrayGroup}
    (hg : g ∈ (ofItems items).tail) : g.alternate.isSome = true := by
  obtain ⟨-, hsome⟩ := splitItems_items items
  have hg : g ∈ (if (splitItems items).1.isEmpty then (splitItems items).2
    else { defs := (splitItems items).1 } :: (splitItems items).2).tail := hg
  by_cases hnil : (splitItems items).1 = []
  · rw [hnil] at hg
    exact hsome g (List.mem_of_mem_tail hg)
  · rw [if_neg (by simpa using hnil)] at hg
    exact hsome g hg

end ArrayGroup

namespace CallBook
namespace Reader

open Consumer

variable {s rest : List UInt8}

/-! ### Numbers and texts -/

/-- A byte takes one. -/
theorem of_byte {b : UInt8} (h : byte s = .ok (b, rest)) : s.length = 1 + rest.length := by
  unfold byte at h
  split at h
  · cases h
    exact Nat.add_comm _ _
  · cases h

/-- A halfword takes two bytes. -/
theorem of_halfword {w : UInt16} (h : halfword s = .ok (w, rest)) :
    s.length = 2 + rest.length := by
  unfold halfword at h
  split at h
  · cases h
    exact Nat.add_comm rest.length 2
  · cases h

/-- A fullword takes four bytes. -/
theorem of_fullword {w : UInt32} (h : fullword s = .ok (w, rest)) :
    s.length = 4 + rest.length := by
  unfold fullword at h
  split at h
  · cases h
    exact Nat.add_comm rest.length 4
  · cases h

/-- As many bytes are taken as were asked for. -/
theorem of_take {n : Nat} {raw : List UInt8} (h : take n s = .ok (raw, rest)) :
    raw.length = n ∧ s.length = n + rest.length := by
  unfold take at h
  split at h
  · rename_i hle
    cases h
    rw [List.length_take, List.length_drop]
    omega
  · cases h

/-- A text has the length that was asked for, and takes as many bytes. -/
theorem of_text {n : Nat} {t : String} (h : text n s = .ok (t, rest)) :
    (Text.utf8 t).length = n ∧ s.length = n + rest.length := by
  obtain ⟨_, s₀, h₀, h⟩ := bind_eq_ok.1 h
  obtain ⟨rfl, rfl⟩ := left_eq_ok.1 h₀
  obtain ⟨raw, s₁, h₁, h⟩ := bind_eq_ok.1 h
  obtain ⟨hraw, rfl⟩ := require_eq_ok.1 h
  rw [Text.utf8_of_ofUtf8? hraw]
  exact of_take h₁

/-- A text that is filled up has the length that was asked for, and takes an even number of bytes.
-/
theorem of_paddedText {n : Nat} {t : String} (h : paddedText n s = .ok (t, rest)) :
    (Text.utf8 t).length = n ∧ s.length = n + n % 2 + rest.length := by
  obtain ⟨_, s₀, h₀, h⟩ := bind_eq_ok.1 h
  obtain ⟨rfl, rfl⟩ := left_eq_ok.1 h₀
  obtain ⟨raw, s₁, h₁, h⟩ := bind_eq_ok.1 h
  obtain ⟨hraw, rfl⟩ := require_eq_ok.1 h
  obtain ⟨hlen, l₁⟩ := of_take h₁
  rw [Text.utf8_of_ofUtf8? hraw, List.length_take]
  exact ⟨by omega, l₁⟩

/-! ### Things that repeat -/

section Repeat

variable {α : Type} {r : Reader α} {P : α → Prop} {size : α → Nat}
  (hr : ∀ s x rest, r s = .ok (x, rest) → P x ∧ s.length = size x + rest.length)

include hr

/-- **A chain has taken the sizes of its things.** -/
theorem of_chain {next : List UInt8 → Bool} {xs : List α} (h : Chain next r s xs rest) :
    (∀ x ∈ xs, P x) ∧ s.length = (xs.map size).sum + rest.length := by
  induction h with
  | nil => simp
  | cons _ hx _ ih =>
    obtain ⟨hp, hl⟩ := hr _ _ _ hx
    obtain ⟨hps, hls⟩ := ih
    refine ⟨List.forall_mem_cons.2 ⟨hp, hps⟩, ?_⟩
    rw [List.map_cons, List.sum_cons]
    omega

/-- Things that are counted have all what each of them has, and take the sum of their sizes. -/
theorem of_many {n : Nat} {xs : List α} (h : many r n s = .ok (xs, rest)) :
    (xs.length = n ∧ ∀ x ∈ xs, P x) ∧ s.length = (xs.map size).sum + rest.length := by
  obtain ⟨hn, hc⟩ := many_eq_ok.1 h
  obtain ⟨hp, hl⟩ := of_chain hr hc
  exact ⟨⟨hn, hp⟩, hl⟩

/-- Things that repeat have all what each of them has, and take the sum of their sizes. -/
theorem of_whileNext {next : List UInt8 → Bool} {ht : r.Takes} {xs : List α}
    (h : whileNext next r ht s = .ok (xs, rest)) :
    (∀ x ∈ xs, P x) ∧ s.length = (xs.map size).sum + rest.length :=
  of_chain hr (whileNext_eq_ok.1 h).1

end Repeat

/-- Things of one size are counted. -/
theorem sum_map_const {α : Type} (xs : List α) (n : Nat) :
    (xs.map fun _ => n).sum = n * xs.length := by
  induction xs with
  | nil => rfl
  | cons x xs ih => rw [List.map_cons, List.sum_cons, ih, List.length_cons, Nat.mul_succ, Nat.add_comm]

/-! ### Sub-calls, entries and matrices -/

/-- The tag of a sub-call has room beside its mark. -/
theorem of_subCallTag {t : TagId} (h : subCallTag s = .ok (t, rest)) :
    TagId.Fits t ∧ s.length = 2 + rest.length := by
  obtain ⟨_, s₀, h₀, h⟩ := bind_eq_ok.1 h
  obtain ⟨rfl, rfl⟩ := left_eq_ok.1 h₀
  split at h
  · obtain ⟨w, s₁, h₁, h⟩ := bind_eq_ok.1 h
    obtain ⟨rfl, rfl⟩ := pure_eq_ok.1 h
    exact ⟨and_tagMask_lt w, of_halfword h₁⟩
  · unfold unexpected at h
    split at h <;> cases h

/-- A sub-call takes ten bytes, and its tag has room beside its mark. -/
theorem of_subCall {c : SubCall} (h : subCall s = .ok (c, rest)) :
    TagId.Fits c.tag ∧ s.length = 10 + rest.length := by
  obtain ⟨tag, s₁, h₁, h⟩ := bind_eq_ok.1 h
  obtain ⟨m₁, s₂, h₂, h⟩ := bind_eq_ok.1 h
  obtain ⟨m₂, s₃, h₃, h⟩ := bind_eq_ok.1 h
  obtain ⟨rfl, rfl⟩ := pure_eq_ok.1 h
  obtain ⟨ht, l₁⟩ := of_subCallTag h₁
  have l₂ := of_fullword h₂
  have l₃ := of_fullword h₃
  exact ⟨ht, by omega⟩

/-- An alternate header takes six bytes. -/
theorem of_alternate {a : AlternateHeader} (h : alternate s = .ok (a, rest)) :
    s.length = 6 + rest.length := by
  obtain ⟨w, s₁, h₁, h⟩ := bind_eq_ok.1 h
  obtain ⟨level, s₂, h₂, h⟩ := bind_eq_ok.1 h
  obtain ⟨-, rfl⟩ := require_eq_ok.1 h₂
  obtain ⟨keys, s₃, h₃, h⟩ := bind_eq_ok.1 h
  obtain ⟨rfl, rfl⟩ := pure_eq_ok.1 h
  have l₁ := of_halfword h₁
  have l₃ := of_fullword h₃
  omega

/-- An entry of an array can be packed and has no second coordinate. -/
theorem of_entry {e : Entry} (h : entry s = .ok (e, rest)) :
    e.IsPacked false ∧ s.length = 2 + rest.length := by
  obtain ⟨w, s₁, h₁, h⟩ := bind_eq_ok.1 h
  have l₁ := of_halfword h₁
  split at h
  · obtain ⟨rfl, rfl⟩ := pure_eq_ok.1 h
    exact ⟨trivial, l₁⟩
  · obtain ⟨d, s₂, h₂, h⟩ := bind_eq_ok.1 h
    obtain ⟨hd, rfl⟩ := require_eq_ok.1 h₂
    obtain ⟨rfl, rfl⟩ := pure_eq_ok.1 h
    obtain ⟨hp, hy⟩ := Destination.isValidPosition_of_ofWord? hd
    exact ⟨⟨hp, by rw [hy]; rfl⟩, l₁⟩

/-- An entry of a matrix can be packed and has a second coordinate, unless it is empty. -/
theorem of_matrixEntry {e : Entry} (h : matrixEntry s = .ok (e, rest)) :
    e.IsPacked true ∧ s.length = e.matrixSize + rest.length := by
  obtain ⟨w, s₁, h₁, h⟩ := bind_eq_ok.1 h
  have l₁ := of_halfword h₁
  split at h
  · obtain ⟨rfl, rfl⟩ := pure_eq_ok.1 h
    exact ⟨trivial, l₁⟩
  · obtain ⟨y, s₂, h₂, h⟩ := bind_eq_ok.1 h
    have l₂ := of_halfword h₂
    obtain ⟨d, s₃, h₃, h⟩ := bind_eq_ok.1 h
    obtain ⟨hd, rfl⟩ := require_eq_ok.1 h₃
    obtain ⟨rfl, rfl⟩ := pure_eq_ok.1 h
    obtain ⟨hp, hy⟩ := Destination.isValidPosition_of_ofWord? hd
    refine ⟨⟨hp, by rw [hy]; rfl⟩, ?_⟩
    rw [Entry.matrixSize]
    omega

/-- As many entries are read as were counted, each of two bytes. -/
theorem of_row {count : Nat} {entries : List Entry} (h : many entry count s = .ok (entries, rest)) :
    Entry.AreRow false count entries ∧ s.length = 2 * entries.length + rest.length := by
  obtain ⟨hrow, hl⟩ := of_many (fun _ _ _ => of_entry) h
  rw [sum_map_const] at hl
  exact ⟨hrow, hl⟩

/-- A matrix with a header is a row of as many entries as were counted. -/
theorem of_alternateMatrix {count : Nat} {g : MatrixGroup}
    (h : alternateMatrix count s = .ok (g, rest)) :
    (g.alternate.isSome = true ∧ Entry.AreRow true count g.entries) ∧
      s.length = g.size + rest.length := by
  obtain ⟨a, s₁, h₁, h⟩ := bind_eq_ok.1 h
  obtain ⟨entries, s₂, h₂, h⟩ := bind_eq_ok.1 h
  obtain ⟨rfl, rfl⟩ := pure_eq_ok.1 h
  have l₁ := of_alternate h₁
  obtain ⟨hrow, l₂⟩ := of_many (fun _ _ _ => of_matrixEntry) h₂
  refine ⟨⟨rfl, hrow⟩, ?_⟩
  show s.length = 6 + (entries.map Entry.matrixSize).sum + s₂.length
  omega

/-- The matrices are rows of as many entries as were counted, all but the first with a header. -/
theorem of_matrixGroups {count : Nat} {groups : List MatrixGroup}
    (h : matrixGroups count s = .ok (groups, rest)) :
    MatrixGroup.AreWellFormed count groups ∧
      s.length = (groups.map MatrixGroup.size).sum + rest.length := by
  obtain ⟨entries, s₁, h₁, h⟩ := bind_eq_ok.1 h
  obtain ⟨more, s₂, h₂, h⟩ := bind_eq_ok.1 h
  obtain ⟨rfl, rfl⟩ := pure_eq_ok.1 h
  obtain ⟨hrow, l₁⟩ := of_many (fun _ _ _ => of_matrixEntry) h₁
  obtain ⟨hmore, l₂⟩ := of_whileNext (fun _ _ _ => of_alternateMatrix) h₂
  refine ⟨⟨⟨rfl, fun g hg => (hmore g hg).1⟩,
    List.forall_mem_cons.2 ⟨hrow, fun g hg => (hmore g hg).2⟩⟩, ?_⟩
  rw [List.map_cons, List.sum_cons]
  show s.length = 0 + (entries.map Entry.matrixSize).sum + _ + s₂.length
  omega

/-- There is a part, and the tag of each has room beside its mark. -/
theorem of_parts {ps : List SubCall} (h : parts s = .ok (ps, rest)) :
    (ps ≠ [] ∧ ∀ s ∈ ps, TagId.Fits s.tag) ∧ s.length = 10 * ps.length + rest.length := by
  obtain ⟨first, s₁, h₁, h⟩ := bind_eq_ok.1 h
  obtain ⟨more, s₂, h₂, h⟩ := bind_eq_ok.1 h
  obtain ⟨rfl, rfl⟩ := pure_eq_ok.1 h
  obtain ⟨hfirst, l₁⟩ := of_subCall h₁
  obtain ⟨hmore, l₂⟩ := of_whileNext (fun _ _ _ => of_subCall) h₂
  rw [sum_map_const] at l₂
  refine ⟨⟨List.cons_ne_nil _ _, List.forall_mem_cons.2 ⟨hfirst, hmore⟩⟩, ?_⟩
  rw [List.length_cons]
  omega

/-! ### Array definitions -/

/-- An ending setup is one of the listed ones, and takes no byte of its own. -/
theorem of_endSetup {w : UInt16} {i : UInt8} (h : endSetup w s = .ok (i, rest)) :
    EndSetup.isIndex i.toNat = true ∧ s = rest := by
  unfold endSetup at h
  obtain ⟨hi, rfl⟩ := require_eq_ok.1 h
  split at hi
  · rename_i hindex
    cases hi
    have hlow := and_byteMask_toNat w
    rw [UInt16.toNat_toUInt8, hlow, Nat.mod_mod]
    rw [hlow] at hindex
    exact ⟨hindex, rfl⟩
  · cases hi

/-- The ending setups are listed ones, and a second one takes a halfword. -/
theorem of_endPlace {flags : UInt32} {w : UInt16} {p : EndPlace}
    (h : endPlace flags w s = .ok (p, rest)) :
    p.IsWellFormed ∧ s.length = p.size + rest.length := by
  obtain ⟨inner, s₁, h₁, h⟩ := bind_eq_ok.1 h
  obtain ⟨hi, rfl⟩ := of_endSetup h₁
  split at h
  · obtain ⟨word, s₂, h₂, h⟩ := bind_eq_ok.1 h
    obtain ⟨outer, s₃, h₃, h⟩ := bind_eq_ok.1 h
    obtain ⟨ho, rfl⟩ := of_endSetup h₃
    obtain ⟨rfl, rfl⟩ := pure_eq_ok.1 h
    exact ⟨⟨hi, ho⟩, of_halfword h₂⟩
  · obtain ⟨rfl, rfl⟩ := pure_eq_ok.1 h
    exact ⟨hi, (Nat.zero_add _).symm⟩

/-- What is said fits, whether it is a text or one of the messages. -/
theorem of_message {m : ClausesMessage} (h : message s = .ok (m, rest)) :
    m.Fits ∧ s.length = m.size + rest.length := by
  obtain ⟨_, s₀, h₀, h⟩ := bind_eq_ok.1 h
  obtain ⟨rfl, rfl⟩ := left_eq_ok.1 h₀
  obtain ⟨head, s₁, h₁, h⟩ := bind_eq_ok.1 h
  have l₁ := of_halfword h₁
  split at h
  · obtain ⟨c, s₂, h₂, h⟩ := bind_eq_ok.1 h
    obtain ⟨-, rfl⟩ := require_eq_ok.1 h₂
    obtain ⟨rfl, rfl⟩ := pure_eq_ok.1 h
    exact ⟨trivial, l₁⟩
  · rename_i hhead
    obtain ⟨t, s₂, h₂, h⟩ := bind_eq_ok.1 h
    obtain ⟨rfl, rfl⟩ := pure_eq_ok.1 h
    obtain ⟨hlen, l₂⟩ := of_paddedText h₂
    have hlt : head.toNat < 32768 := (and_arrayMark_eq_zero_iff head).1 (not_not.1 hhead)
    constructor
    · show (Text.utf8 t).length ≤ 32767
      omega
    · show s.length = 2 + ((Text.utf8 t).length + (Text.utf8 t).length % 2) + s₂.length
      rw [hlen]
      omega

/-- A clause has a listed predicate and a whole row. -/
theorem of_clause {count : Nat} {c : Clause} (h : clause count s = .ok (c, rest)) :
    (c.predicate ∈ Predicate.all ∧ Entry.AreRow false count c.entries) ∧
      s.length = c.size + rest.length := by
  obtain ⟨_, s₁, h₁, h⟩ := bind_eq_ok.1 h
  obtain ⟨index, s₂, h₂, h⟩ := bind_eq_ok.1 h
  obtain ⟨p, s₃, h₃, h⟩ := bind_eq_ok.1 h
  obtain ⟨hp, rfl⟩ := require_eq_ok.1 h₃
  obtain ⟨entries, s₄, h₄, h⟩ := bind_eq_ok.1 h
  obtain ⟨rfl, rfl⟩ := pure_eq_ok.1 h
  have l₁ := of_halfword h₁
  have l₂ := of_halfword h₂
  obtain ⟨hrow, l₄⟩ := of_row h₄
  refine ⟨⟨List.mem_of_getElem? hp, hrow⟩, ?_⟩
  show s.length = 4 + 2 * entries.length + s₄.length
  omega

/-- The destinations are those of as many slots as were counted. -/
theorem of_arrayBody {flags : UInt32} {count : Nat} {b : ArrayBody}
    (h : arrayBody flags count s = .ok (b, rest)) :
    (b.IsWellFormed count ∧ b.Fits) ∧ s.length = b.size + rest.length := by
  unfold arrayBody at h
  split at h
  · obtain ⟨m, s₁, h₁, h⟩ := bind_eq_ok.1 h
    obtain ⟨cs, s₂, h₂, h⟩ := bind_eq_ok.1 h
    obtain ⟨rfl, rfl⟩ := pure_eq_ok.1 h
    obtain ⟨hm, l₁⟩ := of_message h₁
    obtain ⟨hcs, l₂⟩ := of_whileNext (fun _ _ _ => of_clause) h₂
    refine ⟨⟨hcs, hm⟩, ?_⟩
    rw [ArrayBody.size]
    omega
  · obtain ⟨entries, s₁, h₁, h⟩ := bind_eq_ok.1 h
    obtain ⟨rfl, rfl⟩ := pure_eq_ok.1 h
    obtain ⟨hrow, l₁⟩ := of_row h₁
    exact ⟨⟨hrow, trivial⟩, l₁⟩

/-- The flags that a definition keeps have no bit too many, and none that it implies. -/
theorem keptFlags (high : UInt16) (word : UInt32) :
    let flags := ((high &&& ~~~arrayMark).toUInt32 <<< 7 ||| word >>> 25)
      &&& ~~~(clausesFlag ||| concentricFlag)
    flags &&& arrayFlagsOverflow = 0 ∧ flags &&& clausesFlag = 0 ∧
      flags &&& concentricFlag = 0 := by
  have hword : word.toNat < 4294967296 := word.toNat_lt
  have hjoined := joinedFlags_toNat high word
  refine ⟨(and_arrayFlagsOverflow_eq_zero_iff _).2 ?_, ?_, ?_⟩
  · rw [UInt32.toNat_and]
    refine Nat.lt_of_le_of_lt Nat.and_le_left ?_
    rw [hjoined]
    omega
  · rw [UInt32.and_assoc, show ~~~(clausesFlag ||| concentricFlag) &&& clausesFlag = 0 by decide,
      UInt32.and_zero]
  · rw [UInt32.and_assoc,
      show ~~~(clausesFlag ||| concentricFlag) &&& concentricFlag = 0 by decide, UInt32.and_zero]

/-- An array definition has a starting setup, ending setups and destinations that go with it. -/
theorem of_arrayDef {d : ArrayDef} (h : arrayDef s = .ok (d, rest)) :
    (d.IsWellFormed ∧ d.body.Fits) ∧ s.length = 8 + d.finish.size + d.body.size + rest.length := by
  obtain ⟨high, s₁, h₁, h⟩ := bind_eq_ok.1 h
  obtain ⟨word, s₂, h₂, h⟩ := bind_eq_ok.1 h
  obtain ⟨setups, s₃, h₃, h⟩ := bind_eq_ok.1 h
  obtain ⟨count, s₄, h₄, h⟩ := bind_eq_ok.1 h
  obtain ⟨hcount, rfl⟩ := require_eq_ok.1 h₄
  obtain ⟨finish, s₅, h₅, h⟩ := bind_eq_ok.1 h
  obtain ⟨b, s₆, h₆, h⟩ := bind_eq_ok.1 h
  obtain ⟨rfl, rfl⟩ := pure_eq_ok.1 h
  have l₁ := of_halfword h₁
  have l₂ := of_fullword h₂
  have l₃ := of_halfword h₃
  obtain ⟨hfinish, l₅⟩ := of_endPlace h₅
  obtain ⟨⟨hb, hfits⟩, l₆⟩ := of_arrayBody h₆
  obtain ⟨hover, hclauses, hconcentric⟩ := keptFlags high word
  have hstart : (setups >>> 8).toUInt8.toNat = (setups >>> 8).toNat := by
    have hsetups : setups.toNat < 65536 := setups.toNat_lt
    simp only [UInt16.toNat_toUInt8, UInt16.toNat_shiftRight, UInt16.reduceToNat,
      Nat.shiftRight_eq_div_pow, Nat.reducePow, Nat.reduceMod]
    omega
  refine ⟨⟨⟨⟨count, ?_, hb⟩, hfinish, hover, hclauses, hconcentric, ?_⟩, hfits⟩, ?_⟩
  · rw [hstart]
    exact hcount
  · rw [and_qualifierMask_toNat]
    exact Nat.mod_lt _ (by decide)
  · show s.length = 8 + finish.size + b.size + s₆.length
    omega

/-- A member of a group is well formed and fits. -/
def ItemIsGood : ArrayItem → Prop
  | .header _ => True
  | .member d => d.IsWellFormed ∧ d.body.Fits

/-- A thing in the definition of arrays takes the bytes of what it is. -/
theorem of_arrayItem {item : ArrayItem} (h : arrayItem s = .ok (item, rest)) :
    ItemIsGood item ∧ s.length = item.size + rest.length := by
  obtain ⟨_, s₀, h₀, h⟩ := bind_eq_ok.1 h
  obtain ⟨rfl, rfl⟩ := left_eq_ok.1 h₀
  split at h
  · obtain ⟨d, s₁, h₁, h⟩ := bind_eq_ok.1 h
    obtain ⟨rfl, rfl⟩ := pure_eq_ok.1 h
    exact of_arrayDef h₁
  · obtain ⟨a, s₁, h₁, h⟩ := bind_eq_ok.1 h
    obtain ⟨rfl, rfl⟩ := pure_eq_ok.1 h
    exact ⟨trivial, of_alternate h₁⟩

/-- The arrays are sorted into groups by their headers, and none of them is lost. -/
theorem of_arrayGroups {groups : List ArrayGroup} (h : arrayGroups s = .ok (groups, rest)) :
    (ArrayGroup.AreWellFormed groups ∧ ∀ g ∈ groups, ∀ d ∈ g.defs, d.body.Fits) ∧
      s.length = ((groups.flatMap ArrayGroup.items).map ArrayItem.size).sum + rest.length := by
  obtain ⟨items, s₁, h₁, h⟩ := bind_eq_ok.1 h
  obtain ⟨_, s₂, h₂, h⟩ := bind_eq_ok.1 h
  obtain ⟨rfl, rfl⟩ := left_eq_ok.1 h₂
  split at h
  · unfold unexpected at h
    split at h <;> cases h
  · rename_i hcond
    obtain ⟨rfl, rfl⟩ := pure_eq_ok.1 h
    obtain ⟨hgood, l₁⟩ := of_whileNext (fun _ _ _ => of_arrayItem) h₁
    simp only [Bool.or_eq_true, not_or, List.any_eq_true, List.isEmpty_iff, not_exists,
      not_and] at hcond
    have hdefs : ∀ g ∈ ArrayGroup.ofItems items, ∀ d ∈ g.defs, d.IsWellFormed ∧ d.body.Fits := by
      intro g hg d hd
      have hmem : ArrayItem.member d ∈ items := by
        rw [← ArrayGroup.flatMap_items_ofItems items, List.mem_flatMap]
        exact ⟨g, hg, List.mem_append_right _ (List.mem_map_of_mem hd)⟩
      exact hgood _ hmem
    refine ⟨⟨⟨hcond.1.2, hcond.2, fun g hg d hd => (hdefs g hg d hd).1, fun g hg =>
      ArrayGroup.isSome_of_mem_tail_ofItems hg⟩, fun g hg d hd => (hdefs g hg d hd).2⟩, ?_⟩
    rw [ArrayGroup.flatMap_items_ofItems]
    exact l₁

end Reader
end CallBook
end SquareDance
