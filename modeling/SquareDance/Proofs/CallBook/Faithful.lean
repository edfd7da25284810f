/-
# What the faults of a call book say

When bytes are refused, the error says what is wrong and often where.  `LoadError.IsTrueOf` is what
each error says about the bytes: the halfword that was not expected stands at the offset that is
given, the text at the offset is not UTF-8, there are as many bytes behind the end mark.  The main
statement is that an error that is reported is true: `isTrueOf_of_load`.

A reader names a place by what is left there.  It is `Faithful` for some bytes if, wherever in them
it begins, it leaves an end of them, or its fault is true of them.  This passes from the pieces of
a reader to the whole, with one case for each way to build readers.

That there are bytes too many says something about the other bytes: they are a call book, or are
refused for no more than the number of headers.  This rests on `closed_book`.
-/

import SquareDance.Proofs.CallBook.Confined

namespace SquareDance
namespace CallBook

/-- What a fault says is so; the places that it names are ends of the bytes. -/
inductive Fault.IsTrueOf (base : List UInt8) : Fault → Prop where
  | truncated : IsTrueOf base .truncated
  | badMagic {found} (h : found ≠ magicNumber) : IsTrueOf base (.badMagic found)
  | unsupportedVersion {found} (h : found ≠ formatVersion) :
    IsTrueOf base (.unsupportedVersion found)
  | unexpectedRecord {here word} (h : here <:+ base) (hword : Reader.peek? here = some word) :
    IsTrueOf base (.unexpectedRecord here.length word)
  | unknownLevel {level} (h : Level.ofIndex? level.toNat = none) :
    IsTrueOf base (.unknownLevel level)
  | unknownSchema {schema} (h : Schema.ofIndex? schema.toNat = none) :
    IsTrueOf base (.unknownSchema schema)
  | unknownStart {setup} (h : StartSetup.entryCount? setup.toNat = none) :
    IsTrueOf base (.unknownSetup setup)
  | unknownEnd {setup} (h : EndSetup.isIndex setup.toNat = false) :
    IsTrueOf base (.unknownSetup setup)
  | unknownPredicate {predicate} (h : Predicate.ofIndex? predicate.toNat = none) :
    IsTrueOf base (.unknownPredicate predicate)
  | badEntry {word y} (h : Destination.ofWord? word y = none) : IsTrueOf base (.badEntry word)
  | invalidText {here run} (h : here <:+ base) (hrun : run <+: here)
    (htext : Text.ofUtf8? run = none) : IsTrueOf base (.invalidText here.length)

namespace Reader

open Consumer

variable {α β γ : Type} {base : List UInt8}

/-- What a reader gives is so: an end of the bytes is left, or the fault is true of them. -/
inductive Reports (base : List UInt8) : Except Fault (α × List UInt8) → Prop where
  | ok {x rest} (h : rest <:+ base) : Reports base (.ok (x, rest))
  | error {fault} (h : fault.IsTrueOf base) : Reports base (.error fault)

/-- A reader that reports what is so, wherever in the bytes it begins. -/
def Faithful (base : List UInt8) (r : Reader α) : Prop :=
  ∀ bytes, bytes <:+ base → Reports base (r bytes)

namespace Faithful

variable {r : Reader α} {f : α → Reader β}

/-- What reads nothing leaves what it began with. -/
theorem pure (x : α) : Faithful base (Pure.pure x) := fun _ h => .ok h

/-- A fault that is true may be reported anywhere. -/
theorem throw {fault : Fault} (h : fault.IsTrueOf base) :
    Faithful base (throwThe Fault fault : Reader α) := fun _ _ => .error h

/-- What the first reader leaves is where the second begins. -/
theorem bind (hr : Faithful base r) (hf : ∀ x, Faithful base (f x)) : Faithful base (r >>= f) := by
  intro bytes hbytes
  have h := hr bytes hbytes
  generalize hout : r bytes = out at h
  cases h with
  | ok hrest =>
    rw [bind_of_ok hout]
    exact hf _ _ hrest
  | error hfault =>
    rw [bind_of_error hout]
    exact .error hfault

/-- What is left is an end of the bytes. -/
theorem left {f : List UInt8 → Reader β} (hf : ∀ bytes, bytes <:+ base → Faithful base (f bytes)) :
    Faithful base (Consumer.left >>= f) := by
  intro bytes hbytes
  rw [bind_left]
  exact hf bytes hbytes bytes hbytes

/-- A halfword that is read after looking at what is left is the one that comes first there. -/
theorem left_halfword {f : List UInt8 → UInt16 → Reader β}
    (hf : ∀ bytes word, bytes <:+ base → peek? bytes = some word → Faithful base (f bytes word)) :
    Faithful base (Consumer.left >>= fun bytes => halfword >>= f bytes) := by
  intro bytes hbytes
  rw [bind_left]
  cases hx : halfword bytes with
  | error fault =>
    rw [bind_of_error hx]
    unfold halfword at hx
    split at hx <;> cases hx
    exact .error .truncated
  | ok p =>
    rw [bind_of_ok hx]
    unfold halfword at hx
    split at hx <;> cases hx
    rename_i a b rest
    exact hf _ _ hbytes rfl rest ((List.suffix_append [a, b] rest).trans hbytes)

/-- Bytes that are taken after looking at what is left are the first ones there. -/
theorem left_take {n : Nat} {f : List UInt8 → List UInt8 → Reader β}
    (hf : ∀ bytes raw, bytes <:+ base → raw <+: bytes → Faithful base (f bytes raw)) :
    Faithful base (Consumer.left >>= fun bytes => take n >>= f bytes) := by
  intro bytes hbytes
  rw [bind_left]
  cases hx : take n bytes with
  | error fault =>
    rw [bind_of_error hx]
    unfold take at hx
    split at hx <;> cases hx
    exact .error .truncated
  | ok p =>
    rw [bind_of_ok hx]
    unfold take at hx
    split at hx <;> cases hx
    exact hf _ _ hbytes (List.take_prefix _ _) _ ((List.drop_suffix _ _).trans hbytes)

end Faithful

/-! ### Pieces -/

/-- A fault is reported where something is missing, so it is to be true there only. -/
theorem faithful_require {x : Option α} {fault : Fault} (h : x = none → fault.IsTrueOf base) :
    Faithful base (require x fault) := by
  cases x with
  | none => exact .throw (h rfl)
  | some a => exact .pure a

/-- A fault is reported where a check fails, so it is to be true there only. -/
theorem faithful_check {b : Bool} {fault : Fault} (h : b = false → fault.IsTrueOf base) :
    Faithful base (check b fault) := by
  cases b with
  | false => exact .throw (h rfl)
  | true => exact .pure ()

/-- Where no byte is left the bytes are cut off. -/
theorem faithful_byte : Faithful base byte := by
  intro bytes hbytes
  unfold byte
  split
  · exact .ok ((List.suffix_cons _ _).trans hbytes)
  · exact .error .truncated

/-- Where no halfword is left the bytes are cut off. -/
theorem faithful_halfword : Faithful base halfword := by
  intro bytes hbytes
  unfold halfword
  split
  · rename_i a b rest
    exact .ok ((List.suffix_append [a, b] rest).trans hbytes)
  · exact .error .truncated

/-- Where no fullword is left the bytes are cut off. -/
theorem faithful_fullword : Faithful base fullword := by
  intro bytes hbytes
  unfold fullword
  split
  · rename_i a b c d rest
    exact .ok ((List.suffix_append [a, b, c, d] rest).trans hbytes)
  · exact .error .truncated

/-- A text that is refused is not UTF-8, at the place that is named. -/
theorem faithful_text (n : Nat) : Faithful base (text n) :=
  .left_take fun _ _ hbytes hraw => faithful_require (.invalidText hbytes hraw)

/-- A text that is filled up is refused for its own bytes and not for the last one. -/
theorem faithful_paddedText (n : Nat) : Faithful base (paddedText n) :=
  .left_take fun _ raw hbytes hraw => faithful_require
    (.invalidText hbytes ((List.take_prefix n raw).trans hraw))

/-- The halfword that is complained about stands where it is said to. -/
theorem faithful_unexpected : Faithful base (unexpected : Reader α) := by
  intro bytes hbytes
  unfold unexpected
  split
  · rename_i word hword
    exact .error (.unexpectedRecord hbytes hword)
  · exact .error .truncated

/-! ### Repetition -/

/-- Things that are counted begin each where the one before it ended. -/
theorem faithful_many {r : Reader α} (h : Faithful base r) : ∀ n, Faithful base (many r n)
  | 0 => .pure []
  | n + 1 => h.bind fun _ => (faithful_many h n).bind fun _ => .pure _

/-- **Where each turn is faithful the loop is.**  By induction on the turns, each of which begins
where the one before it stopped. -/
theorem faithful_loop {step : β → Reader (β ⊕ γ)} (ht : ∀ b, (step b).Turns)
    (hs : ∀ b, Faithful base (step b)) (b : β) : Faithful base (loop step ht b) := by
  intro bytes hbytes
  fun_induction loop step ht b bytes with
  | case1 b bytes fault hturn =>
    have h := hs b bytes hbytes
    rw [hturn] at h
    cases h with
    | error hfault => exact .error hfault
  | case2 b bytes b' rest hturn ih =>
    have h := hs b bytes hbytes
    rw [hturn] at h
    cases h with
    | ok hrest => exact ih hrest
  | case3 b bytes c rest hturn =>
    have h := hs b bytes hbytes
    rw [hturn] at h
    cases h with
    | ok hrest => exact .ok hrest

/-- Things that repeat begin each where the one before it ended. -/
theorem faithful_whileNext {next : List UInt8 → Bool} {r : Reader α} (h : r.Takes)
    (hr : Faithful base r) : Faithful base (whileNext next r h) :=
  faithful_loop _ (fun _ => .left fun _ _ => by
    split
    · exact hr.bind fun _ => .pure _
    · exact .pure _) []

/-! ### Parts and matrices -/

/-- A halfword that is not the mark of a sub-call was not expected, or is not there. -/
theorem faithful_subCallTag : Faithful base subCallTag :=
  .left fun _ _ => by
    split
    · exact faithful_halfword.bind fun _ => .pure _
    · exact faithful_unexpected

/-- Of a sub-call only the tag may be wrong. -/
theorem faithful_subCall : Faithful base subCall :=
  faithful_subCallTag.bind fun _ => faithful_fullword.bind fun _ =>
    faithful_fullword.bind fun _ => .pure _

/-- A header is refused for a level that does not exist. -/
theorem faithful_alternate : Faithful base alternate :=
  faithful_halfword.bind fun _ => (faithful_require .unknownLevel).bind fun _ =>
    faithful_fullword.bind fun _ => .pure _

/-- An entry is refused for a halfword that is no destination. -/
theorem faithful_entry : Faithful base entry :=
  faithful_halfword.bind fun word => by
    split
    · exact .pure _
    · exact (faithful_require .badEntry).bind fun _ => .pure _

/-- An entry of a matrix is refused for a halfword that is no destination with any second one. -/
theorem faithful_matrixEntry : Faithful base matrixEntry :=
  faithful_halfword.bind fun word => by
    split
    · exact .pure _
    · exact faithful_halfword.bind fun _ => (faithful_require .badEntry).bind fun _ => .pure _

/-- A matrix is refused for its header or for one of its entries. -/
theorem faithful_alternateMatrix (count : Nat) : Faithful base (alternateMatrix count) :=
  faithful_alternate.bind fun _ => (faithful_many faithful_matrixEntry count).bind fun _ => .pure _

/-- The matrices of a definition are refused for one of them. -/
theorem faithful_matrixGroups (count : Nat) : Faithful base (matrixGroups count) :=
  (faithful_many faithful_matrixEntry count).bind fun _ =>
    (faithful_whileNext _ (faithful_alternateMatrix count)).bind fun _ => .pure _

/-- The parts of a definition are refused for one of them. -/
theorem faithful_parts : Faithful base parts :=
  faithful_subCall.bind fun _ => (faithful_whileNext _ faithful_subCall).bind fun _ => .pure _

/-! ### Array definitions -/

/-- An ending setup is refused for a number that is not one of the listed setups. -/
theorem faithful_endSetup (word : UInt16) : Faithful base (endSetup word) := by
  unfold endSetup
  refine faithful_require fun h => ?_
  split at h
  · cases h
  · rename_i hindex
    exact .unknownEnd (Bool.eq_false_iff.2 hindex)

/-- The place where people end is refused for one of its setups. -/
theorem faithful_endPlace (flags : UInt32) (setups : UInt16) :
    Faithful base (endPlace flags setups) :=
  (faithful_endSetup _).bind fun _ => by
    split
    · exact faithful_halfword.bind fun _ => (faithful_endSetup _).bind fun _ => .pure _
    · exact .pure _

/-- What is said is refused for a mark that stands for no message, or for its text. -/
theorem faithful_message : Faithful base message :=
  .left_halfword fun bytes _ hbytes hword => by
    split
    · exact (faithful_require fun _ => .unexpectedRecord hbytes hword).bind fun _ => .pure _
    · exact (faithful_paddedText _).bind fun _ => .pure _

/-- A clause is refused for a predicate that does not exist, or for one of its entries. -/
theorem faithful_clause (count : Nat) : Faithful base (clause count) :=
  faithful_halfword.bind fun _ => faithful_halfword.bind fun _ =>
    (faithful_require .unknownPredicate).bind fun _ =>
      (faithful_many faithful_entry count).bind fun _ => .pure _

/-- The destinations are refused for an entry, a message or a clause. -/
theorem faithful_arrayBody (flags : UInt32) (count : Nat) :
    Faithful base (arrayBody flags count) := by
  unfold arrayBody
  split
  · exact faithful_message.bind fun _ =>
      (faithful_whileNext _ (faithful_clause count)).bind fun _ => .pure _
  · exact (faithful_many faithful_entry count).bind fun _ => .pure _

/-- An array definition is refused for a starting setup, or for what is behind it. -/
theorem faithful_arrayDef : Faithful base arrayDef :=
  faithful_halfword.bind fun _ => faithful_fullword.bind fun _ => faithful_halfword.bind fun _ =>
    (faithful_require .unknownStart).bind fun _ => (faithful_endPlace _ _).bind fun _ =>
      (faithful_arrayBody _ _).bind fun _ => .pure _

/-- A thing in the definition of arrays is refused as a definition or as a header. -/
theorem faithful_arrayItem : Faithful base arrayItem :=
  .left fun _ _ => by
    split
    · exact faithful_arrayDef.bind fun _ => .pure _
    · exact faithful_alternate.bind fun _ => .pure _

/-- The arrays of a definition are refused for one of them. -/
theorem faithful_arrayGroups : Faithful base arrayGroups :=
  (faithful_whileNext _ faithful_arrayItem).bind fun _ => .left fun _ _ => by
    split
    · exact faithful_unexpected
    · exact .pure _

/-! ### Bodies and records -/

/-- A definition of each kind is refused for one of its pieces. -/
theorem faithful_definition (k : SchemaKind) : Faithful base (definition k) := by
  cases k with
  | nothing => exact .pure _
  | array => exact faithful_arrayGroups.bind fun _ => .pure _
  | matrix =>
    exact faithful_fullword.bind fun _ => (faithful_matrixGroups 2).bind fun _ => .pure _
  | partnerMatrix =>
    exact faithful_fullword.bind fun _ => (faithful_matrixGroups 16).bind fun _ => .pure _
  | sequential => exact faithful_parts.bind fun _ => .pure _
  | concentric =>
    exact faithful_subCall.bind fun _ => faithful_subCall.bind fun _ => .pure _
  | sameAs => exact faithful_subCallTag.bind fun _ => .pure _

/-- A body is refused for a schema that does not exist, or for its definition. -/
theorem faithful_body (isNamed : Bool) : Faithful base (body isNamed) :=
  faithful_halfword.bind fun _ => faithful_fullword.bind fun _ => faithful_fullword.bind fun _ =>
    .left_halfword fun _ _ hbytes hword => (faithful_require .unknownSchema).bind fun _ =>
      (faithful_check fun _ => .unexpectedRecord hbytes hword).bind fun _ =>
        (faithful_text _).bind fun _ => (faithful_definition _).bind fun _ => .pure _

/-- A call is refused for its level, its name or one of its bodies. -/
theorem faithful_call (word : UInt16) : Faithful base (call word) :=
  faithful_byte.bind fun index => (faithful_require fun h => .unknownLevel (by simpa using h)).bind
    fun _ => (faithful_body true).bind fun _ => .pure _

/-- A record is refused for a kind that does not belong there, or as a call. -/
theorem faithful_record (calls : List Call) : Faithful base (record calls) :=
  .left_halfword fun bytes word hbytes hword => by
    have hunexpected : (Fault.unexpectedRecord bytes.length word).IsTrueOf base :=
      .unexpectedRecord hbytes hword
    split
    · refine (faithful_body false).bind fun _ => ?_
      cases calls with
      | nil => exact .throw hunexpected
      | cons c before => exact .pure _
    · split
      · exact (faithful_call _).bind fun _ => .pure _
      · exact .throw hunexpected

/-- Records are read until the mark of the end, each where the one before it ended. -/
theorem faithful_recordStep (calls : List Call) : Faithful base (recordStep calls) :=
  .left fun _ _ => by
    split
    · exact faithful_halfword.bind fun _ => .pure _
    · exact (faithful_record calls).bind fun _ => .pure _

/-- A call book is refused for its head or for one of its records. -/
theorem faithful_book : Faithful base book :=
  faithful_halfword.bind fun _ =>
    (faithful_check fun h => .badMagic (ne_of_beq_false h)).bind fun _ =>
      faithful_halfword.bind fun _ =>
        (faithful_check fun h => .unsupportedVersion (ne_of_beq_false h)).bind fun _ =>
          faithful_halfword.bind fun _ => faithful_halfword.bind fun _ =>
            faithful_halfword.bind fun _ => (faithful_text _).bind fun _ =>
              (faithful_loop _ faithful_recordStep []).bind fun _ => .pure _

end Reader

/-! ### Errors -/

/-- What an error says about the bytes is so. -/
def LoadError.IsTrueOf (bytes : List UInt8) : LoadError → Prop
  | truncated size => size = bytes.length
  | badMagic found => found ≠ magicNumber
  | unsupportedVersion found => found ≠ formatVersion
  | unexpectedRecord offset word =>
    offset + 2 ≤ bytes.length ∧ ∃ high low, bytes[offset]? = some high ∧
      bytes[offset + 1]? = some low ∧ word.toNat = high.toNat * 256 + low.toNat
  | unknownLevel level => Level.ofIndex? level.toNat = none
  | unknownSchema schema => Schema.ofIndex? schema.toNat = none
  | unknownSetup setup =>
    StartSetup.entryCount? setup.toNat = none ∨ EndSetup.isIndex setup.toNat = false
  | unknownPredicate predicate => Predicate.ofIndex? predicate.toNat = none
  | badEntry word => ∃ y, Destination.ofWord? word y = none
  | invalidText offset =>
    offset < bytes.length ∧ ∃ run, run <+: bytes.drop offset ∧ ∀ s, Text.utf8 s ≠ run
  | countMismatch expected found => found ≠ expected.toNat
  | trailingBytes count =>
    1 ≤ count ∧ count ≤ bytes.length ∧
      ((∃ b, load (bytes.take (bytes.length - count)) = .ok b) ∨
        ∃ expected found, load (bytes.take (bytes.length - count))
          = .error (.countMismatch expected found))

/-- What is left of the bytes is at the place that is so many bytes from their end. -/
theorem drop_sub_of_suffix {here bytes : List UInt8} (h : here <:+ bytes) :
    bytes.drop (bytes.length - here.length) = here := by
  obtain ⟨front, rfl⟩ := h
  simp

/-- **A true fault is a true error.**  A place that is known by what is left there is the offset
of what is left. -/
theorem Fault.IsTrueOf.toError {bytes : List UInt8} {fault : Fault} (h : fault.IsTrueOf bytes) :
    (fault.toError bytes.length).IsTrueOf bytes := by
  cases h with
  | truncated => exact rfl
  | badMagic h => exact h
  | unsupportedVersion h => exact h
  | unknownLevel h => exact h
  | unknownSchema h => exact h
  | unknownStart h => exact .inl h
  | unknownEnd h => exact .inr h
  | unknownPredicate h => exact h
  | badEntry h => exact ⟨_, h⟩
  | @unexpectedRecord here word h hword =>
    have hlength := h.length_le
    have hhere := drop_sub_of_suffix h
    unfold Reader.peek? at hword
    split at hword <;> cases hword
    rename_i high low rest
    refine ⟨by simp only [List.length_cons] at hlength ⊢; omega, high, low, ?_, ?_,
      Reader.halfwordOf_toNat high low⟩
    · rw [← Nat.add_zero (bytes.length - _), ← List.getElem?_drop, hhere]
      rfl
    · rw [← List.getElem?_drop, hhere]
      rfl
  | @invalidText here run h hrun htext =>
    have hnotText : ∀ s, Text.utf8 s ≠ run := by
      rintro s rfl
      rw [Text.ofUtf8?_utf8] at htext
      cases htext
    have hne : here ≠ [] := by
      rintro rfl
      exact hnotText "" (List.prefix_nil.1 hrun).symm
    have hlength := h.length_le
    have hpos := List.length_pos_of_ne_nil hne
    exact ⟨by omega, run, by rwa [drop_sub_of_suffix h], hnotText⟩

/-- **An error is true of the bytes that are refused.** -/
theorem isTrueOf_of_load {bytes : List UInt8} {e : LoadError} (h : load bytes = .error e) :
    e.IsTrueOf bytes := by
  unfold load at h
  split at h
  · rename_i fault hfault
    cases h
    have hreports := Reader.faithful_book bytes (List.suffix_refl bytes)
    rw [hfault] at hreports
    cases hreports with
    | error htrue => exact htrue.toError
  · rename_i expected b rest hbook
    split at h
    · rename_i hrest
      cases h
      obtain ⟨front, rfl, -, hfront⟩ := Reader.closed_book bytes _ rest hbook
      have htake : (front ++ rest).take ((front ++ rest).length - rest.length) = front := by simp
      refine ⟨List.length_pos_of_ne_nil (by simpa using hrest), by simp, ?_⟩
      rw [htake, load, hfront]
      by_cases hcount : b.headerCount = expected.toNat
      · exact .inl ⟨b, by simp [hcount]⟩
      · exact .inr ⟨expected, b.headerCount, by simp [hcount]⟩
    · split at h <;> cases h
      rename_i hcount
      exact hcount

/-- A byte behind the end mark, and a sub-call in the place of a record. -/
theorem isTrueOf_of_load_looseBytes :
    load (looseBytes ++ [7]) = .error (.trailingBytes 1) ∧
      (LoadError.trailingBytes 1).IsTrueOf (looseBytes ++ [7]) ∧
        load (looseBytes.take 10 ++ [0x40, 0x01]) = .error (.unexpectedRecord 10 0x4001) ∧
          (LoadError.unexpectedRecord 10 0x4001).IsTrueOf (looseBytes.take 10 ++ [0x40, 0x01]) := by
  have htrailing : load (looseBytes ++ [7]) = .error (.trailingBytes 1) := by decide +kernel
  have hrecord : load (looseBytes.take 10 ++ [0x40, 0x01])
      = .error (.unexpectedRecord 10 0x4001) := by decide +kernel
  exact ⟨htrailing, isTrueOf_of_load htrailing, hrecord, isTrueOf_of_load hrecord⟩

end CallBook
end SquareDance
