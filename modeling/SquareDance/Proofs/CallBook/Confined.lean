/-
# What readers do not look at

A reader looks at no more than the first halfword of what it leaves.  Where the bytes are cut
behind that, it finds the same and leaves the same, as far as it is there: `Confined`, which like
`Firm` is about two readers that differ in the places their faults name.

The last halfword of a call book is the mark of its end, behind which nothing is looked at.  So a
call book is read from its own bytes just as from more of them: `closed_book`.
-/

import SquareDance.Proofs.CallBook.SelfDelimiting

namespace SquareDance
namespace CallBook
namespace Reader

open Consumer

variable {α β γ : Type}

/-- Where a halfword or more is left before the bytes are cut, the second reader does with them
what the first does with all of the bytes. -/
def Confined (r r' : Reader α) : Prop := ∀ bytes x tail more, 2 ≤ tail.length →
  r bytes = .ok (x, tail ++ more) →
    ∃ front, bytes = front ++ (tail ++ more) ∧ r' (front ++ tail) = .ok (x, tail)

namespace Confined

variable {r r' s s' : Reader α} {f f' : α → Reader β}

/-- What reads nothing looks at nothing. -/
theorem pure (x : α) : Confined (Pure.pure x) (Pure.pure x) := by
  intro bytes y tail more _ h
  obtain ⟨rfl, rfl⟩ := pure_eq_ok.1 h
  exact ⟨[], rfl, rfl⟩

/-- What always fails finds nothing, in fewer bytes or in more. -/
theorem throw (e : Fault) : Confined (throwThe Fault e : Reader α) r' :=
  fun _ _ _ _ _ h => absurd h throw_ne_ok

/-- **What comes after a reader is left to it**: the cut is behind what it leaves as well. -/
theorem bind (hr : Confined r r') (hf : ∀ x, Confined (f x) (f' x)) :
    Confined (r >>= f) (r' >>= f') := by
  intro bytes y tail more htail h
  obtain ⟨x, mid, hx, hy⟩ := bind_eq_ok.1 h
  obtain ⟨front, rfl, hy'⟩ := hf x mid y tail more htail hy
  rw [← List.append_assoc] at hx
  obtain ⟨before, rfl, hx'⟩ := hr bytes x (front ++ tail) more (by simp; omega) hx
  refine ⟨before ++ front, by simp, ?_⟩
  rw [List.append_assoc, bind_of_ok hx', hy']

/-- What is left may be used to name the place of a fault. -/
theorem left {f f' : List UInt8 → Reader β} (h : ∀ b b', Confined (f b) (f' b')) :
    Confined (Consumer.left >>= f) (Consumer.left >>= f') := by
  intro bytes y tail more htail hy
  rw [bind_left] at hy
  obtain ⟨front, rfl, -⟩ := h bytes [] bytes y tail more htail hy
  obtain ⟨front', heq, hy'⟩ := h _ (front ++ tail) _ y tail more htail hy
  obtain rfl := List.append_cancel_right heq
  exact ⟨front, rfl, by rw [bind_left, hy']⟩

/-- What comes next may be looked at: it is there before the cut. -/
theorem peek {next : List UInt8 → Bool} (hn : Peeks next) (hr : Confined r r')
    (hs : Confined s s') : Confined (Consumer.left >>= fun b => if next b then r else s)
      (Consumer.left >>= fun b => if next b then r' else s') := by
  intro bytes x tail more htail h
  rw [bind_left] at h
  have hnext : ∀ front, next (front ++ (tail ++ more)) = next (front ++ tail) := fun front => by
    rw [← List.append_assoc]
    exact hn.append (by simp; omega) more
  split at h
  · rename_i hb
    obtain ⟨front, rfl, hx⟩ := hr bytes x tail more htail h
    rw [hnext] at hb
    exact ⟨front, rfl, by rw [bind_left, if_pos hb, hx]⟩
  · rename_i hb
    obtain ⟨front, rfl, hx⟩ := hs bytes x tail more htail h
    rw [hnext] at hb
    exact ⟨front, rfl, by rw [bind_left, if_neg hb, hx]⟩

end Confined

/-! ### Pieces -/

/-- To require something of what was read is to look at no more bytes. -/
theorem confined_require (x : Option α) (e e' : Fault) : Confined (require x e) (require x e') := by
  cases x with
  | none => exact .throw e
  | some a => exact .pure a

/-- To check what was read is to look at no more bytes. -/
theorem confined_check (b : Bool) (e e' : Fault) : Confined (check b e) (check b e') := by
  cases b with
  | false => exact .throw e
  | true => exact .pure ()

/-- A byte is looked at and taken. -/
theorem confined_byte : Confined byte byte := by
  intro bytes x tail more _ h
  unfold byte at h
  split at h <;> cases h
  exact ⟨[x], rfl, rfl⟩

/-- A halfword is looked at and taken, both bytes of it. -/
theorem confined_halfword : Confined halfword halfword := by
  intro bytes x tail more _ h
  unfold halfword at h
  split at h <;> cases h
  rename_i a b
  exact ⟨[a, b], rfl, rfl⟩

/-- A fullword is looked at and taken, all four bytes of it. -/
theorem confined_fullword : Confined fullword fullword := by
  intro bytes x tail more _ h
  unfold fullword at h
  split at h <;> cases h
  rename_i a b c d
  exact ⟨[a, b, c, d], rfl, rfl⟩

/-- A number of bytes is looked at and taken. -/
theorem confined_take (n : Nat) : Confined (take n) (take n) := by
  intro bytes x tail more _ h
  unfold take at h
  split at h
  · rename_i hn
    obtain ⟨rfl, hdrop⟩ := Prod.mk.inj (Except.ok.inj h)
    have hlength : (bytes.take n).length = n := List.length_take_of_le hn
    refine ⟨bytes.take n, by rw [← hdrop, List.take_append_drop], ?_⟩
    rw [take, if_pos (by simp [hlength]), List.take_left' hlength, List.drop_left' hlength]
  · cases h

/-- A text is taken whole, and whether it is UTF-8 is asked of its bytes alone. -/
theorem confined_text (n : Nat) : Confined (text n) (text n) :=
  .left fun _ _ => (confined_take n).bind fun _ => confined_require _ _ _

/-- The byte that fills up a text is taken with it. -/
theorem confined_paddedText (n : Nat) : Confined (paddedText n) (paddedText n) :=
  .left fun _ _ => (confined_take _).bind fun _ => confined_require _ _ _

/-- Things that are counted are read one after the other, and none behind them is looked at. -/
theorem confined_many {r : Reader α} (h : Confined r r) : ∀ n, Confined (many r n) (many r n)
  | 0 => .pure []
  | n + 1 => h.bind fun _ => (confined_many h n).bind fun _ => .pure _

/-- A reader that only complains finds nothing. -/
theorem confined_unexpected {r' : Reader α} : Confined (unexpected : Reader α) r' := by
  intro bytes x tail more _ h
  unfold unexpected at h
  split at h <;> cases h

/-! ### Repetition -/

/-- **Where each turn is confined the loop is.**  By induction on the turns: what the later ones
have read stands before the cut for the first. -/
theorem confined_loop {step : β → Reader (β ⊕ γ)} (ht : ∀ b, (step b).Turns)
    (hs : ∀ b, Confined (step b) (step b)) (b : β) :
    Confined (loop step ht b) (loop step ht b) := by
  intro bytes c tail more htail h
  refine loop_induct (motive := fun b bytes c rest => rest = tail ++ more →
    ∃ front, bytes = front ++ (tail ++ more) ∧ loop step ht b (front ++ tail) = .ok (c, tail))
    ?_ ?_ h rfl
  · rintro b bytes c _ hturn rfl
    obtain ⟨front, rfl, hcut⟩ := hs b bytes _ tail more htail hturn
    exact ⟨front, rfl, loop_of_inr hcut⟩
  · rintro b bytes b' mid c rest hturn ih rfl
    obtain ⟨front, rfl, hrest⟩ := ih rfl
    rw [← List.append_assoc] at hturn
    obtain ⟨before, rfl, hcut⟩ := hs b bytes _ (front ++ tail) more (by simp; omega) hturn
    refine ⟨before ++ front, by simp, ?_⟩
    rw [List.append_assoc, loop_of_inl hcut, hrest]

/-- Things that repeat look at the halfword behind the last one, and at no more. -/
theorem confined_whileNext {next : List UInt8 → Bool} {r : Reader α} (h : r.Takes)
    (hn : Peeks next) (hr : Confined r r) : Confined (whileNext next r h) (whileNext next r h) :=
  confined_loop _ (fun _ => .peek hn (hr.bind fun _ => .pure _) (.pure _)) []

/-! ### Parts and matrices -/

/-- The tag of a sub-call is the halfword that was looked at for its mark. -/
theorem confined_subCallTag : Confined subCallTag subCallTag :=
  .peek peeks_subCallNext (confined_halfword.bind fun _ => .pure _) confined_unexpected

/-- A sub-call is its tag and two fullwords. -/
theorem confined_subCall : Confined subCall subCall :=
  confined_subCallTag.bind fun _ => confined_fullword.bind fun _ =>
    confined_fullword.bind fun _ => .pure _

/-- An alternate header is a halfword and a fullword. -/
theorem confined_alternate : Confined alternate alternate :=
  confined_halfword.bind fun _ => (confined_require _ _ _).bind fun _ =>
    confined_fullword.bind fun _ => .pure _

/-- An entry of an array is a halfword. -/
theorem confined_entry : Confined entry entry :=
  confined_halfword.bind fun word => by
    split
    · exact .pure _
    · exact (confined_require _ _ _).bind fun _ => .pure _

/-- An entry of a matrix is a halfword, and another one unless it is empty. -/
theorem confined_matrixEntry : Confined matrixEntry matrixEntry :=
  confined_halfword.bind fun word => by
    split
    · exact .pure _
    · exact confined_halfword.bind fun _ => (confined_require _ _ _).bind fun _ => .pure _

/-- A matrix with a header is the header and as many entries as are counted. -/
theorem confined_alternateMatrix (count : Nat) :
    Confined (alternateMatrix count) (alternateMatrix count) :=
  confined_alternate.bind fun _ => (confined_many confined_matrixEntry count).bind fun _ => .pure _

/-- The matrices of a definition repeat for as long as a header comes next. -/
theorem confined_matrixGroups (count : Nat) :
    Confined (matrixGroups count) (matrixGroups count) :=
  (confined_many confined_matrixEntry count).bind fun _ =>
    (confined_whileNext _ peeks_subCallNext (confined_alternateMatrix count)).bind fun _ => .pure _

/-- The parts of a definition repeat for as long as a sub-call comes next. -/
theorem confined_parts : Confined parts parts :=
  confined_subCall.bind fun _ =>
    (confined_whileNext _ peeks_subCallNext confined_subCall).bind fun _ => .pure _

/-! ### Array definitions -/

/-- An ending setup was read with the halfword that holds it. -/
theorem confined_endSetup (word : UInt16) : Confined (endSetup word) (endSetup word) := by
  unfold endSetup
  exact confined_require _ _ _

/-- A second ending setup is a halfword, which is there if the flags say so. -/
theorem confined_endPlace (flags : UInt32) (setups : UInt16) :
    Confined (endPlace flags setups) (endPlace flags setups) :=
  (confined_endSetup _).bind fun _ => by
    split
    · exact confined_halfword.bind fun _ => (confined_endSetup _).bind fun _ => .pure _
    · exact .pure _

/-- What is said when no clause applies is a halfword, with a text behind it if it is a length. -/
theorem confined_message : Confined message message :=
  .left fun _ _ => confined_halfword.bind fun _ => by
    split
    · exact (confined_require _ _ _).bind fun _ => .pure _
    · exact (confined_paddedText _).bind fun _ => .pure _

/-- A clause is two halfwords and as many entries as are counted. -/
theorem confined_clause (count : Nat) : Confined (clause count) (clause count) :=
  confined_halfword.bind fun _ => confined_halfword.bind fun _ =>
    (confined_require _ _ _).bind fun _ => (confined_many confined_entry count).bind fun _ =>
      .pure _

/-- The destinations of an array definition are counted, or are clauses that repeat. -/
theorem confined_arrayBody (flags : UInt32) (count : Nat) :
    Confined (arrayBody flags count) (arrayBody flags count) := by
  unfold arrayBody
  split
  · exact confined_message.bind fun _ =>
      (confined_whileNext _ peeks_clauseNext (confined_clause count)).bind fun _ => .pure _
  · exact (confined_many confined_entry count).bind fun _ => .pure _

/-- An array definition is of fixed size up to its ending setups and destinations. -/
theorem confined_arrayDef : Confined arrayDef arrayDef :=
  confined_halfword.bind fun _ => confined_fullword.bind fun _ => confined_halfword.bind fun _ =>
    (confined_require _ _ _).bind fun _ => (confined_endPlace _ _).bind fun _ =>
      (confined_arrayBody _ _).bind fun _ => .pure _

/-- The halfword that tells an array definition from a header is the first of either. -/
theorem confined_arrayItem : Confined arrayItem arrayItem :=
  .peek peeks_arrayDefNext (confined_arrayDef.bind fun _ => .pure _)
    (confined_alternate.bind fun _ => .pure _)

/-- Array definitions and headers repeat for as long as one of them comes next. -/
theorem confined_arrayGroups : Confined arrayGroups arrayGroups := by
  refine (confined_whileNext _ peeks_arrayItemNext confined_arrayItem).bind fun items => ?_
  intro bytes groups tail more htail h
  rw [bind_left] at h
  split at h
  · unfold unexpected at h
    split at h <;> cases h
  · rename_i hgroups
    obtain ⟨rfl, rfl⟩ := pure_eq_ok.1 h
    refine ⟨[], rfl, ?_⟩
    rw [peek?_append_of_le htail] at hgroups
    rw [List.nil_append, bind_left, if_neg hgroups]
    rfl

/-! ### Bodies and records -/

/-- A definition of each kind is read from pieces that look at no more than comes next. -/
theorem confined_definition (k : SchemaKind) : Confined (definition k) (definition k) := by
  cases k with
  | nothing => exact .pure _
  | array => exact confined_arrayGroups.bind fun _ => .pure _
  | matrix =>
    exact confined_fullword.bind fun _ => (confined_matrixGroups 2).bind fun _ => .pure _
  | partnerMatrix =>
    exact confined_fullword.bind fun _ => (confined_matrixGroups 16).bind fun _ => .pure _
  | sequential => exact confined_parts.bind fun _ => .pure _
  | concentric =>
    exact confined_subCall.bind fun _ => confined_subCall.bind fun _ => .pure _
  | sameAs => exact confined_subCallTag.bind fun _ => .pure _

/-- A body has its flags and its schema before its definition. -/
theorem confined_body (isNamed : Bool) : Confined (body isNamed) (body isNamed) :=
  confined_halfword.bind fun _ => confined_fullword.bind fun _ => confined_fullword.bind fun _ =>
    .left fun _ _ => confined_halfword.bind fun _ => (confined_require _ _ _).bind fun _ =>
      (confined_check _ _ _).bind fun _ => (confined_text _).bind fun _ =>
        (confined_definition _).bind fun _ => .pure _

/-- A call has its name and its body before the other bodies. -/
theorem confined_call (word : UInt16) : Confined (call word) (call word) :=
  confined_byte.bind fun _ => (confined_require _ _ _).bind fun _ =>
    (confined_body true).bind fun _ => .pure _

/-- A record begins with the halfword that tells what it is. -/
theorem confined_record (calls : List Call) : Confined (record calls) (record calls) :=
  .left fun _ _ => confined_halfword.bind fun _ => by
    split
    · refine (confined_body false).bind fun _ => ?_
      cases calls with
      | nil => exact .throw _
      | cons c before => exact .pure _
    · split
      · exact (confined_call _).bind fun _ => .pure _
      · exact .throw _

/-! ### Books -/

/-- A reader that ends with a halfword does without the bytes behind it. -/
def Closed (r : Reader α) : Prop := ∀ bytes x rest, r bytes = .ok (x, rest) →
  ∃ front, bytes = front ++ rest ∧ 2 ≤ front.length ∧ r front = .ok (x, [])

/-- What is made of a thing after it was read is closed if the thing is. -/
theorem Closed.map {r : Reader α} (hr : Closed r) (f : α → β) :
    Closed (r >>= fun x => Pure.pure (f x)) := by
  intro bytes y rest h
  obtain ⟨x, _, hx, hy⟩ := bind_eq_ok.1 h
  obtain ⟨rfl, rfl⟩ := pure_eq_ok.1 hy
  obtain ⟨front, rfl, hfront, hx'⟩ := hr bytes x _ hx
  exact ⟨front, rfl, hfront, by rw [bind_of_ok hx']; rfl⟩

/-- What ends with a halfword is behind the cut for what stands before it. -/
theorem Confined.bind_closed {r : Reader α} {f : α → Reader β} (hr : Confined r r)
    (hf : ∀ x, Closed (f x)) : Closed (r >>= f) := by
  intro bytes y rest h
  obtain ⟨x, mid, hx, hy⟩ := bind_eq_ok.1 h
  obtain ⟨front, rfl, hfront, hy'⟩ := hf x mid y rest hy
  obtain ⟨before, rfl, hx'⟩ := hr bytes x front rest hfront hx
  exact ⟨before ++ front, by simp, by simp; omega, by rw [bind_of_ok hx', hy']⟩

/-- **The records end with a halfword.**  By induction on the records: those after a record stand,
with the end mark, before the cut. -/
theorem closed_records : Closed records := by
  intro bytes calls rest h
  refine loop_induct (motive := fun before bytes calls rest => ∃ front, bytes = front ++ rest ∧
    2 ≤ front.length ∧ loop recordStep turns_recordStep before front = .ok (calls, [])) ?_ ?_ h
  · intro before bytes calls rest hstep
    rw [recordStep, bind_left] at hstep
    split at hstep
    · rename_i hmark
      obtain ⟨word, mid, hword, hstep⟩ := bind_eq_ok.1 hstep
      obtain ⟨hcalls, rfl⟩ := pure_eq_ok.1 hstep
      cases hcalls
      unfold halfword at hword
      split at hword <;> cases hword
      rename_i a b
      have hmark' : peek? [a, b] = some endMark := hmark
      refine ⟨[a, b], rfl, Nat.le_refl 2, loop_of_inr ?_⟩
      rw [recordStep, bind_left, if_pos hmark']
      rfl
    · obtain ⟨_, _, -, hstep⟩ := bind_eq_ok.1 hstep
      obtain ⟨hcalls, -⟩ := pure_eq_ok.1 hstep
      cases hcalls
  · rintro before bytes before' mid calls rest hstep ⟨front, rfl, hfront, hrest⟩
    rw [recordStep, bind_left] at hstep
    split at hstep
    · obtain ⟨_, _, -, hstep⟩ := bind_eq_ok.1 hstep
      obtain ⟨hcalls, -⟩ := pure_eq_ok.1 hstep
      cases hcalls
    · rename_i hmark
      obtain ⟨_, _, hrecord, hstep⟩ := bind_eq_ok.1 hstep
      obtain ⟨hcalls, rfl⟩ := pure_eq_ok.1 hstep
      cases hcalls
      obtain ⟨first, rfl, hcut⟩ := confined_record _ _ _ front rest hfront hrecord
      rw [← List.append_assoc, peek?_append_of_le (by simp; omega)] at hmark
      refine ⟨first ++ front, by simp, by simp; omega, ?_⟩
      rw [← hrest]
      refine loop_of_inl ?_
      rw [recordStep, bind_left, if_neg hmark, bind_of_ok hcut]
      rfl

/-- **A call book is read without the bytes behind it.** -/
theorem closed_book : Closed book :=
  confined_halfword.bind_closed fun _ => (confined_check _ _ _).bind_closed fun _ =>
    confined_halfword.bind_closed fun _ => (confined_check _ _ _).bind_closed fun _ =>
      confined_halfword.bind_closed fun _ => confined_halfword.bind_closed fun _ =>
        confined_halfword.bind_closed fun _ => (confined_text _).bind_closed fun _ =>
          closed_records.map _

end Reader
end CallBook
end SquareDance
