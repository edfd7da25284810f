/-
# Call books are read back

The bytes of a call book have no lengths of records: where one ends is told by the
highest bits of the halfword after it.  So each statement here is about bytes with a
rest after them, and says which rests do: any, where a count says how much to read;
one that does not begin with more of the same, where things repeat.

`Spells` is that statement for things that repeat.  It composes: pieces that spell
one thing each spell the list of them, `spells_mapM`.  Main statement: a well-formed
call book can be written, and loading the bytes gives it back, `toBytes_load`.
-/

import Mathlib.Data.List.Basic
import SquareDance.Proofs.CallBook.WellFormed
import SquareDance.Proofs.CallBook.Words
import SquareDance.Proofs.Consumer

namespace SquareDance
namespace CallBook
namespace Reader

open Consumer

variable {α β : Type}

/-! ### Numbers and texts -/

/-- A halfword is read back before any rest. -/
theorem halfword_append (w : UInt16) (rest : List UInt8) :
    halfword (CallBook.halfword w ++ rest) = .ok (w, rest) := by
  show Except.ok (halfwordOf (w >>> 8).toUInt8 w.toUInt8, rest) = _
  rw [halfwordOf_bytes]

/-- The halfword that was written is the one that comes next. -/
@[simp] theorem peek?_append (w : UInt16) (rest : List UInt8) :
    peek? (CallBook.halfword w ++ rest) = some w := by
  show some (halfwordOf (w >>> 8).toUInt8 w.toUInt8) = _
  rw [halfwordOf_bytes]

/-- A fullword is read back before any rest. -/
theorem fullword_append (w : UInt32) (rest : List UInt8) :
    fullword (CallBook.fullword w ++ rest) = .ok (w, rest) := by
  show Except.ok (fullwordOf (w >>> 24).toUInt8 (w >>> 16).toUInt8 (w >>> 8).toUInt8 w.toUInt8,
    rest) = _
  rw [fullwordOf_bytes]

/-- As many bytes as were written are taken again. -/
theorem take_append {n : Nat} {bytes : List UInt8} (h : bytes.length = n) (rest : List UInt8) :
    take n (bytes ++ rest) = .ok (bytes, rest) := by
  subst h
  have hle : bytes.length ≤ (bytes ++ rest).length := by simp
  rw [take, if_pos hle, List.take_left, List.drop_left]

/-- A text of a length that is known is read back before any rest. -/
theorem text_append (s : String) {n : Nat} (h : (Text.utf8 s).length = n) (rest : List UInt8) :
    text n (Text.utf8 s ++ rest) = .ok (s, rest) := by
  rw [text, bind_left, bind_of_ok (take_append h rest)]
  exact require_eq_ok.2 ⟨Text.ofUtf8?_utf8 s, rfl⟩

/-- Filling a text up to whole halfwords adds a byte to an odd number of them. -/
theorem length_paddedText (s : String) : (CallBook.paddedText s).length
    = (Text.utf8 s).length + (Text.utf8 s).length % 2 := by
  unfold CallBook.paddedText
  by_cases h : (Text.utf8 s).length % 2 = 0
  · simp [h]
  · have h : (Text.utf8 s).length % 2 = 1 := by omega
    simp [h]

/-- The text stands before the byte that fills it up. -/
theorem take_paddedText (s : String) :
    (CallBook.paddedText s).take (Text.utf8 s).length = Text.utf8 s := by
  unfold CallBook.paddedText
  by_cases h : (Text.utf8 s).length % 2 = 0
  · simp [h]
  · simp [h]

/-- A text that was filled up is read back without the last byte. -/
theorem paddedText_append (s : String) (rest : List UInt8) :
    paddedText (Text.utf8 s).length (CallBook.paddedText s ++ rest) = .ok (s, rest) := by
  rw [paddedText, bind_left,
    bind_of_ok (take_append (length_paddedText s) rest)]
  refine require_eq_ok.2 ⟨?_, rfl⟩
  rw [take_paddedText, Text.ofUtf8?_utf8]

/-! ### Things that repeat -/

/-- Bytes that are read as a chain of things before any rest of a kind, and that are
of that kind again, put before such a rest. -/
def Spells (next : List UInt8 → Bool) (r : Reader α) (follow : List UInt8 → Prop)
    (bytes : List UInt8) (xs : List α) : Prop :=
  ∀ rest, follow rest → Chain next r (bytes ++ rest) xs rest ∧ follow (bytes ++ rest)

namespace Spells

variable {next : List UInt8 → Bool} {r : Reader α} {follow : List UInt8 → Prop}

/-- No bytes spell nothing. -/
theorem nil : Spells next r follow [] [] := fun _ h => ⟨.nil, h⟩

/-- Things may be spelled one after the other. -/
theorem append {b₁ b₂ : List UInt8} {xs ys : List α} (h₁ : Spells next r follow b₁ xs)
    (h₂ : Spells next r follow b₂ ys) : Spells next r follow (b₁ ++ b₂) (xs ++ ys) := by
  intro rest h
  obtain ⟨hy, hf⟩ := h₂ rest h
  obtain ⟨hx, hf⟩ := h₁ (b₂ ++ rest) hf
  rw [List.append_assoc]
  exact ⟨hx.append hy, hf⟩

/-- Bytes spell one thing if it is read from them before such a rest, which they are again. -/
theorem single {bytes : List UInt8} {x : α} (hr : ∀ rest, follow rest →
    r (bytes ++ rest) = .ok (x, rest) ∧ next (bytes ++ rest) = true ∧ follow (bytes ++ rest)) :
    Spells next r follow bytes [x] := by
  intro rest h
  obtain ⟨hx, hn, hf⟩ := hr rest h
  exact ⟨.single hn hx, hf⟩

/-- **Pieces that spell what each thing stands for spell what all of them do.** -/
theorem flatMap {f : β → List UInt8} {g : β → List α} {bs : List β}
    (h : ∀ b ∈ bs, Spells next r follow (f b) (g b)) :
    Spells next r follow (bs.flatMap f) (bs.flatMap g) := by
  induction bs with
  | nil => exact nil
  | cons b bs ih =>
    obtain ⟨hb, hbs⟩ := List.forall_mem_cons.1 h
    rw [List.flatMap_cons, List.flatMap_cons]
    exact hb.append (ih hbs)

/-- **Pieces that can be written spell what all of them do.** -/
theorem mapM {f : β → Except WriteError (List UInt8)} {g : β → List α} {bs : List β}
    (h : ∀ b ∈ bs, ∃ piece, f b = .ok piece ∧ Spells next r follow piece (g b)) :
    ∃ pieces, bs.mapM f = .ok pieces ∧
      Spells next r follow pieces.flatten (bs.flatMap g) := by
  induction bs with
  | nil => exact ⟨[], rfl, nil⟩
  | cons b bs ih =>
    obtain ⟨hb, hbs⟩ := List.forall_mem_cons.1 h
    obtain ⟨piece, hp, hs⟩ := hb
    obtain ⟨pieces, hps, hss⟩ := ih hbs
    refine ⟨piece :: pieces, ?_, ?_⟩
    · rw [List.mapM_cons, hp, hps]
      rfl
    · rw [List.flatten_cons, List.flatMap_cons]
      exact hs.append hss

/-- A counted list is read back from what spells it. -/
theorem many {bytes : List UInt8} {xs : List α} {n : Nat}
    (h : Spells (fun _ => true) r (fun _ => True) bytes xs) (hn : xs.length = n)
    (rest : List UInt8) : many r n (bytes ++ rest) = .ok (xs, rest) :=
  many_eq_ok.2 ⟨hn, (h rest trivial).1⟩

/-- A list of any length is read back where no more of it follows. -/
theorem whileNext {ht : r.Takes} {bytes rest : List UInt8} {xs : List α}
    (h : Spells next r follow bytes xs) (hf : follow rest) (hn : next rest = false) :
    whileNext next r ht (bytes ++ rest) = .ok (xs, rest) :=
  whileNext_eq_ok.2 ⟨(h rest hf).1, hn⟩

end Spells

/-- A list is made of its members, one by one. -/
theorem flatMap_singleton_eq (xs : List α) : xs.flatMap (fun x => [x]) = xs := by
  simp

/-! ### Sub-calls and alternate headers -/

/-- The mark of a sub-call lies in the bits that tell the kind. -/
theorem subCallMark_and_kindMask : subCallMark &&& kindMask = subCallMark := rfl

/-- The mark of a call lies in the bits that tell the kind. -/
theorem callMark_and_kindMask : callMark &&& kindMask = callMark := rfl

/-- A tag with the mark of a sub-call is seen as one, whatever follows. -/
theorem subCallNext_append {t : UInt16} (h : t < 0x2000) (rest : List UInt8) :
    subCallNext (CallBook.halfword (subCallMark ||| t) ++ rest) = true := by
  rw [subCallNext, peek?_append, Option.any_some, beq_iff_eq]
  exact mark_or_and_kindMask subCallMark_and_kindMask h

/-- A tag that leaves room for the mark is read back. -/
theorem subCallTag_append {t : UInt16} (h : t < 0x2000) (rest : List UInt8) :
    subCallTag (CallBook.halfword (subCallMark ||| t) ++ rest) = .ok (t, rest) := by
  rw [subCallTag, bind_left, if_pos (subCallNext_append h rest),
    bind_of_ok (halfword_append _ rest)]
  exact pure_eq_ok.2 ⟨mark_or_and_tagMask subCallMark_and_kindMask h, rfl⟩

/-- A sub-call that was written is seen as one. -/
theorem subCallNext_subCallBytes {s : SubCall} (h : TagId.Fits s.tag) (rest : List UInt8) :
    subCallNext (subCallBytes s ++ rest) = true := by
  rw [subCallBytes, List.append_assoc, List.append_assoc]
  exact subCallNext_append h _

/-- A sub-call is read back before any rest. -/
theorem subCall_append {s : SubCall} (h : TagId.Fits s.tag) (rest : List UInt8) :
    subCall (subCallBytes s ++ rest) = .ok (s, rest) := by
  rw [subCallBytes, List.append_assoc, List.append_assoc, subCall,
    bind_of_ok (subCallTag_append h _), bind_of_ok (fullword_append _ _),
    bind_of_ok (fullword_append _ _)]
  rfl

/-- A header has the mark that sub-calls have. -/
theorem subCallNext_alternateBytes (a : AlternateHeader) (rest : List UInt8) :
    subCallNext (alternateBytes (some a) ++ rest) = true := by
  rw [alternateBytes, List.append_assoc]
  exact subCallNext_append (level_lt a.level) _

/-- An alternate header is read back before any rest. -/
theorem alternate_append (a : AlternateHeader) (rest : List UInt8) :
    alternate (alternateBytes (some a) ++ rest) = .ok (a, rest) := by
  have hlevel : Level.ofIndex? ((subCallMark ||| UInt16.ofNat a.level.index) &&& tagMask).toNat
      = some a.level := by
    rw [mark_or_and_tagMask subCallMark_and_kindMask (level_lt a.level)]
    cases a.level <;> rfl
  rw [alternateBytes, List.append_assoc, alternate, bind_of_ok (halfword_append _ _),
    bind_of_ok (require_eq_ok.2 ⟨hlevel, rfl⟩), bind_of_ok (fullword_append _ _)]
  rfl

/-- **The parts of a sequential definition are read back.** -/
theorem parts_append {ps : List SubCall} (h : ps ≠ []) (ht : ∀ s ∈ ps, TagId.Fits s.tag)
    {rest : List UInt8} (hr : subCallNext rest = false) :
    parts (ps.flatMap subCallBytes ++ rest) = .ok (ps, rest) := by
  obtain ⟨s, ps, rfl⟩ := List.exists_cons_of_ne_nil h
  obtain ⟨hs, hps⟩ := List.forall_mem_cons.1 ht
  have hspell : Spells subCallNext subCall (fun _ => True) (ps.flatMap subCallBytes)
      (ps.flatMap fun s => [s]) :=
    .flatMap fun s hs => .single fun rest _ =>
      ⟨subCall_append (hps s hs) rest, subCallNext_subCallBytes (hps s hs) rest, trivial⟩
  rw [flatMap_singleton_eq] at hspell
  rw [List.flatMap_cons, List.append_assoc, parts, bind_of_ok (subCall_append hs _),
    bind_of_ok (hspell.whileNext trivial hr)]
  rfl

/-! ### Entries -/

/-- An entry of an array is read back before any rest. -/
theorem entry_append {e : Entry} (h : e.IsPacked false) (rest : List UInt8) :
    entry (CallBook.halfword e.word ++ rest) = .ok (e, rest) := by
  cases e with
  | empty =>
    rw [Entry.word, entry, bind_of_ok (halfword_append _ rest)]
    rfl
  | dest d =>
    obtain ⟨hp, hy⟩ := h
    have hn : d.y = none := Option.not_isSome_iff_eq_none.1 (by simp [hy])
    have hd : Destination.ofWord? d.word none = some d := by
      rw [Destination.ofWord?_word hp, ← hn]
    rw [Entry.word, entry, bind_of_ok (halfword_append _ rest),
      if_neg (Destination.word_ne_zero hp), bind_of_ok (require_eq_ok.2 ⟨hd, rfl⟩)]
    rfl

/-- An entry of a matrix is read back before any rest, with its second coordinate. -/
theorem matrixEntry_append {e : Entry} (h : e.IsPacked true) (rest : List UInt8) :
    matrixEntry (matrixEntryBytes e ++ rest) = .ok (e, rest) := by
  cases e with
  | empty =>
    rw [matrixEntryBytes, matrixEntry, bind_of_ok (halfword_append _ rest)]
    rfl
  | dest d =>
    obtain ⟨hp, hy⟩ := h
    obtain ⟨y, hy⟩ := Option.isSome_iff_exists.1 hy
    have hd : Destination.ofWord? d.word (some y) = some d := by
      rw [Destination.ofWord?_word hp, ← hy]
    rw [matrixEntryBytes, List.append_assoc, matrixEntry, bind_of_ok (halfword_append _ _),
      if_neg (Destination.word_ne_zero hp), bind_of_ok (halfword_append _ _), hy, Option.getD_some,
      bind_of_ok (require_eq_ok.2 ⟨hd, rfl⟩)]
    rfl

/-- **A row of entries is read back.** -/
theorem many_entry_append {count : Nat} {entries : List Entry}
    (h : Entry.AreRow false count entries) (rest : List UInt8) :
    many entry count (entriesBytes entries ++ rest) = .ok (entries, rest) := by
  have hspell : Spells (fun _ => true) entry (fun _ => True) (entriesBytes entries)
      (entries.flatMap fun e => [e]) :=
    .flatMap fun e he => .single fun rest _ => ⟨entry_append (h.2 e he) rest, rfl, trivial⟩
  rw [flatMap_singleton_eq] at hspell
  exact hspell.many h.1 rest

/-- A row of a matrix is read back if its length is known. -/
theorem many_matrixEntry_append {count : Nat} {entries : List Entry}
    (h : Entry.AreRow true count entries) (rest : List UInt8) :
    many matrixEntry count (entries.flatMap matrixEntryBytes ++ rest) = .ok (entries, rest) := by
  have hspell : Spells (fun _ => true) matrixEntry (fun _ => True)
      (entries.flatMap matrixEntryBytes) (entries.flatMap fun e => [e]) :=
    .flatMap fun e he => .single fun rest _ =>
      ⟨matrixEntry_append (h.2 e he) rest, rfl, trivial⟩
  rw [flatMap_singleton_eq] at hspell
  exact hspell.many h.1 rest

/-- A matrix with a header is read back if the number of its entries is known. -/
theorem alternateMatrix_append {count : Nat} {g : MatrixGroup} (ha : g.alternate.isSome = true)
    (h : Entry.AreRow true count g.entries) (rest : List UInt8) :
    alternateMatrix count (matrixGroupBytes g ++ rest) = .ok (g, rest) := by
  obtain ⟨alternate, entries⟩ := g
  obtain ⟨a, rfl⟩ := Option.isSome_iff_exists.1 ha
  rw [matrixGroupBytes, List.append_assoc, alternateMatrix, bind_of_ok (alternate_append a _),
    bind_of_ok (many_matrixEntry_append h rest)]
  rfl

/-- **The matrices of a definition are read back.** -/
theorem matrixGroups_append {count : Nat} {groups : List MatrixGroup}
    (h : MatrixGroup.AreWellFormed count groups) {rest : List UInt8}
    (hr : subCallNext rest = false) :
    matrixGroups count (groups.flatMap matrixGroupBytes ++ rest) = .ok (groups, rest) := by
  obtain _ | ⟨⟨alternate, entries⟩, more⟩ := groups
  · exact h.elim
  obtain ⟨⟨rfl, hmore⟩, hrows⟩ := h
  obtain ⟨hfirst, hrows⟩ := List.forall_mem_cons.1 hrows
  have hspell : Spells subCallNext (alternateMatrix count) (fun _ => True)
      (more.flatMap matrixGroupBytes) (more.flatMap fun g => [g]) := by
    refine .flatMap fun g hg => .single fun rest _ =>
      ⟨alternateMatrix_append (hmore g hg) (hrows g hg) rest, ?_, trivial⟩
    obtain ⟨a, ha⟩ := Option.isSome_iff_exists.1 (hmore g hg)
    rw [matrixGroupBytes, ha, List.append_assoc]
    exact subCallNext_alternateBytes a _
  rw [flatMap_singleton_eq] at hspell
  rw [List.flatMap_cons, List.append_assoc, matrixGroupBytes, alternateBytes, List.nil_append,
    matrixGroups, bind_of_ok (many_matrixEntry_append hfirst _),
    bind_of_ok (hspell.whileNext trivial hr)]
  rfl

end Reader
end CallBook
end SquareDance
