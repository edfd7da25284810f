/-
# Where a call book ends

Reading some bytes and reading them with more behind goes the same way for as long as
there are bytes: `Extends`.  Either the fewer bytes run out, or both runs fail, or both
find the same and leave the same, the longer one with more behind it.  A reader for which
this holds is `Firm`.

Things that repeat are an exception.  They stop where not even a halfword is left, and so
do not notice that the bytes have run out: such a reader is `Steady`, firm unless it leaves
less than a halfword.  Whatever is read next notices, since it begins with a halfword; after
the last call that is the mark of another record or of the end.  So the whole book is firm,
and one that is loaded has no prefix that is one, and no extension: `load_delimits`.

Both notions are about two readers, which differ in the places that their faults name.
-/

import SquareDance.Proofs.CallBook.Rewriting

namespace SquareDance
namespace CallBook
namespace Reader

open Consumer

variable {α β γ : Type}

/-! ### More bytes behind -/

/-- What reading some bytes gives, and what reading them with more behind gives. -/
inductive Extends (more : List UInt8) :
    Except Fault (α × List UInt8) → Except Fault (α × List UInt8) → Prop where
  /-- The bytes run out. -/
  | truncated {out} : Extends more (.error .truncated) out
  | fault {e e'} : Extends more (.error e) (.error e')
  | ok {x rest} : Extends more (.ok (x, rest)) (.ok (x, rest ++ more))

/-- If all of the more bytes are read, the fewer ran out. -/
theorem Extends.eq_truncated {more : List UInt8} {out : Except Fault (α × List UInt8)} {x : α}
    (h : Extends more out (.ok (x, []))) (hne : more ≠ []) : out = .error .truncated := by
  generalize hall : Except.ok (x, []) = all at h
  cases h with
  | truncated => rfl
  | fault => cases hall
  | ok =>
    have hnil := (Prod.mk.inj (Except.ok.inj hall)).2
    exact absurd (List.append_eq_nil_iff.1 hnil.symm).2 hne

/-- Something is read, and less than a halfword is left. -/
def RunsDry (out : Except Fault (α × List UInt8)) : Prop :=
  ∃ x stub, out = .ok (x, stub) ∧ stub.length < 2

/-- With more bytes behind, the second reader does what the first does. -/
def Firm (r r' : Reader α) : Prop := ∀ bytes more, Extends more (r bytes) (r' (bytes ++ more))

/-- With more bytes behind, the second reader does what the first does, unless that leaves
less than a halfword. -/
def Steady (r r' : Reader α) : Prop := ∀ bytes more,
  RunsDry (r bytes) ∨ Extends more (r bytes) (r' (bytes ++ more))

/-- A reader that needs a halfword to begin with. -/
def Starves (r : Reader α) : Prop := ∀ bytes, bytes.length < 2 → r bytes = .error .truncated

namespace Firm

variable {r r' : Reader α} {f f' : α → Reader β}

/-- What never fails to notice is not an exception. -/
theorem steady (h : Firm r r') : Steady r r' := fun bytes more => .inr (h bytes more)

/-- What reads nothing does not notice more bytes. -/
theorem pure (x : α) : Firm (Pure.pure x) (Pure.pure x) := fun _ _ => .ok

/-- What always fails does so with more bytes behind, perhaps at another place. -/
theorem throw (e e' : Fault) : Firm (throwThe Fault e : Reader α) (throwThe Fault e') :=
  fun _ _ => .fault

/-- One firm reader after another is firm. -/
theorem bind (hr : Firm r r') (hf : ∀ x, Firm (f x) (f' x)) : Firm (r >>= f) (r' >>= f') := by
  intro bytes more
  have h := hr bytes more
  generalize hs : r bytes = out, hl : r' (bytes ++ more) = out' at h
  cases h with
  | truncated =>
    rw [bind_of_error hs]
    exact .truncated
  | fault =>
    rw [bind_of_error hs, bind_of_error hl]
    exact .fault
  | ok =>
    rw [bind_of_ok hs, bind_of_ok hl]
    exact hf _ _ _

/-- A steady reader is steady behind a firm one. -/
theorem bind_steady (hr : Firm r r') (hf : ∀ x, Steady (f x) (f' x)) :
    Steady (r >>= f) (r' >>= f') := by
  intro bytes more
  have h := hr bytes more
  generalize hs : r bytes = out, hl : r' (bytes ++ more) = out' at h
  cases h with
  | truncated =>
    rw [bind_of_error hs]
    exact .inr .truncated
  | fault =>
    rw [bind_of_error hs, bind_of_error hl]
    exact .inr .fault
  | ok =>
    rw [bind_of_ok hs, bind_of_ok hl]
    exact hf _ _ _

/-- What fails in the end fails with more bytes behind too. -/
theorem bind_throw (e e' : Fault) :
    Firm (r >>= fun _ => (throwThe Fault e : Reader β)) (r' >>= fun _ => throwThe Fault e') := by
  have hfails : ∀ (r : Reader α) e bytes, ∃ e',
      (r >>= fun _ => (throwThe Fault e : Reader β)) bytes = .error e' := by
    intro r e bytes
    cases h : r bytes with
    | error e' => exact ⟨e', bind_of_error h _⟩
    | ok p => exact ⟨e, bind_of_ok h _⟩
  intro bytes more
  obtain ⟨_, h⟩ := hfails r e bytes
  obtain ⟨_, h'⟩ := hfails r' e' (bytes ++ more)
  rw [h, h']
  exact .fault

/-- What is left may be used to name the place of a fault. -/
theorem left {f f' : List UInt8 → Reader β} (h : ∀ b b', Firm (f b) (f' b')) :
    Firm (Consumer.left >>= f) (Consumer.left >>= f') := by
  intro bytes more
  rw [bind_left, bind_left]
  exact h _ _ _ _

/-- A reader that begins with a halfword is firm if it is so wherever there is one. -/
theorem of_starves (hd : Starves r)
    (h : ∀ bytes more, 2 ≤ bytes.length → Extends more (r bytes) (r' (bytes ++ more))) :
    Firm r r' := by
  intro bytes more
  by_cases hlen : bytes.length < 2
  · rw [hd bytes hlen]
    exact .truncated
  · exact h bytes more (Nat.not_lt.1 hlen)

end Firm

namespace Steady

variable {r r' : Reader α} {f f' : α → Reader β}

/-- What is left may be used to name the place of a fault, here as well. -/
theorem left {f f' : List UInt8 → Reader β} (h : ∀ b b', Steady (f b) (f' b')) :
    Steady (Consumer.left >>= f) (Consumer.left >>= f') := by
  intro bytes more
  rw [bind_left, bind_left]
  exact h _ _ _ _

/-- What is made of a thing after it was read does not matter. -/
theorem map (hr : Steady r r') (g : α → β) :
    Steady (r >>= fun x => Pure.pure (g x)) (r' >>= fun x => Pure.pure (g x)) := by
  intro bytes more
  obtain ⟨x, stub, hs, hstub⟩ | h := hr bytes more
  · rw [bind_of_ok hs]
    exact .inl ⟨g x, stub, rfl, hstub⟩
  · generalize hs : r bytes = out, hl : r' (bytes ++ more) = out' at h
    cases h with
    | truncated =>
      rw [bind_of_error hs]
      exact .inr .truncated
    | fault =>
      rw [bind_of_error hs, bind_of_error hl]
      exact .inr .fault
    | ok =>
      rw [bind_of_ok hs, bind_of_ok hl]
      exact .inr .ok

/-- **What begins with a halfword notices that the bytes have run out.** -/
theorem bind_starves (hr : Steady r r') (hd : ∀ x, Starves (f x))
    (hf : ∀ x, Firm (f x) (f' x)) : Firm (r >>= f) (r' >>= f') := by
  intro bytes more
  obtain ⟨x, stub, hs, hstub⟩ | h := hr bytes more
  · rw [bind_of_ok hs, hd x stub hstub]
    exact .truncated
  · generalize hs : r bytes = out, hl : r' (bytes ++ more) = out' at h
    cases h with
    | truncated =>
      rw [bind_of_error hs]
      exact .truncated
    | fault =>
      rw [bind_of_error hs, bind_of_error hl]
      exact .fault
    | ok =>
      rw [bind_of_ok hs, bind_of_ok hl]
      exact hf _ _ _

end Steady

/-! ### Pieces -/

/-- What is missing is missing with more bytes behind. -/
theorem firm_require (x : Option α) (e e' : Fault) : Firm (require x e) (require x e') := by
  cases x with
  | none => exact .throw e e'
  | some a => exact .pure a

/-- What fails a check fails it with more bytes behind. -/
theorem firm_check (b : Bool) (e e' : Fault) : Firm (check b e) (check b e') := by
  cases b with
  | false => exact .throw e e'
  | true => exact .pure ()

/-- One byte is there, or the bytes run out. -/
theorem firm_byte : Firm byte byte
  | [], _ => .truncated
  | _ :: _, _ => .ok

/-- Both bytes of a halfword are there, or the bytes run out. -/
theorem firm_halfword : Firm halfword halfword
  | [], _ | [_], _ => .truncated
  | _ :: _ :: _, _ => .ok

/-- All four bytes of a fullword are there, or the bytes run out. -/
theorem firm_fullword : Firm fullword fullword
  | [], _ | [_], _ | [_, _], _ | [_, _, _], _ => .truncated
  | _ :: _ :: _ :: _ :: _, _ => .ok

/-- As many bytes are there as are asked for, or they run out. -/
theorem firm_take (n : Nat) : Firm (take n) (take n) := by
  intro bytes more
  unfold take
  by_cases h : n ≤ bytes.length
  · have h' : n ≤ (bytes ++ more).length := Nat.le_trans h (by simp)
    rw [if_pos h, if_pos h', List.take_append_of_le_length h, List.drop_append_of_le_length h]
    exact .ok
  · rw [if_neg h]
    exact .truncated

/-- The length of a text is given, so it is there or the bytes run out. -/
theorem firm_text (n : Nat) : Firm (text n) (text n) :=
  .left fun _ _ => (firm_take n).bind fun _ => firm_require _ _ _

/-- The byte that fills up a text is there with it, or the bytes run out. -/
theorem firm_paddedText (n : Nat) : Firm (paddedText n) (paddedText n) :=
  .left fun _ _ => (firm_take _).bind fun _ => firm_require _ _ _

/-- Things that are counted do not stop before the last one. -/
theorem firm_many {r : Reader α} (h : Firm r r) : ∀ n, Firm (many r n) (many r n)
  | 0 => .pure []
  | n + 1 => h.bind fun _ => (firm_many h n).bind fun _ => .pure _

/-! ### What comes next -/

/-- Less than a halfword is nothing that comes next. -/
theorem peek?_of_length_lt : ∀ {bytes : List UInt8}, bytes.length < 2 → peek? bytes = none
  | [], _ | [_], _ => rfl
  | _ :: _ :: _, h => absurd h (by simp)

/-- The halfword that comes next is the same with more bytes behind. -/
theorem peek?_append_of_le : ∀ {bytes : List UInt8}, 2 ≤ bytes.length →
    ∀ more, peek? (bytes ++ more) = peek? bytes
  | _ :: _ :: _, _, _ => rfl
  | [], h, _ | [_], h, _ => absurd h (by simp)

/-- A halfword has two bytes. -/
theorem starves_halfword : Starves halfword
  | [], _ | [_], _ => rfl
  | _ :: _ :: _, h => absurd h (by simp)

/-- There is nothing to complain about where not even a halfword is left. -/
theorem starves_unexpected : Starves (unexpected : Reader α) := by
  intro bytes h
  rw [unexpected, peek?_of_length_lt h]

/-- The halfword that is complained about is the same with more bytes behind. -/
theorem firm_unexpected : Firm (unexpected : Reader α) unexpected := by
  refine .of_starves starves_unexpected fun bytes more h => ?_
  unfold unexpected
  rw [peek?_append_of_le h]
  split
  · exact .fault
  · exact .truncated

/-- A test of the halfword that comes next, which there has to be. -/
def Peeks (next : List UInt8 → Bool) : Prop :=
  ∃ test : UInt16 → Bool, ∀ bytes, next bytes = (peek? bytes).any test

namespace Peeks

variable {next : List UInt8 → Bool}

/-- Where less than a halfword is left nothing comes next. -/
theorem eq_false (h : Peeks next) {bytes : List UInt8} (hlen : bytes.length < 2) :
    next bytes = false := by
  obtain ⟨test, ht⟩ := h
  rw [ht, peek?_of_length_lt hlen]
  rfl

/-- What comes next is the same with more bytes behind, where a halfword is left. -/
theorem append (h : Peeks next) {bytes : List UInt8} (hlen : 2 ≤ bytes.length)
    (more : List UInt8) : next (bytes ++ more) = next bytes := by
  obtain ⟨test, ht⟩ := h
  rw [ht, ht, peek?_append_of_le hlen]

end Peeks

/-- Whether a sub-call comes next is told by a halfword. -/
theorem peeks_subCallNext : Peeks subCallNext := ⟨_, fun _ => rfl⟩

/-- Whether an array definition comes next is told by a halfword. -/
theorem peeks_arrayDefNext : Peeks arrayDefNext := ⟨_, fun _ => rfl⟩

/-- Whether a clause comes next is told by a halfword. -/
theorem peeks_clauseNext : Peeks clauseNext := by
  refine ⟨(· == predicateMark), fun bytes => ?_⟩
  rw [clauseNext]
  cases peek? bytes <;> rfl

/-- Whether a thing in the definition of arrays comes next is told by a halfword. -/
theorem peeks_arrayItemNext : Peeks fun bytes => arrayDefNext bytes || subCallNext bytes := by
  refine ⟨fun w => w &&& arrayMark != 0 || w &&& kindMask == subCallMark, fun bytes => ?_⟩
  simp only [arrayDefNext, subCallNext]
  cases peek? bytes <;> rfl

/-! ### Repetition -/

section Loop

variable {step : β → Reader (β ⊕ γ)} {ht : ∀ b, (step b).Turns}

/-- **A loop goes the same way with more bytes behind**, unless it is found where less than
a halfword is left; `D` says what becomes of it there.  Each turn that begins with a
halfword has to go the same way, unless it leaves the loop in such a place. -/
theorem dry_or_extends_loop {D : Except Fault (γ × List UInt8) → Prop}
    (hdry : ∀ b bytes, bytes.length < 2 → D (loop step ht b bytes))
    (hs : ∀ b bytes more, 2 ≤ bytes.length →
      (∃ b' stub, step b bytes = .ok (.inl b', stub) ∧ stub.length < 2) ∨
        Extends more (step b bytes) (step b (bytes ++ more)))
    (b : β) (bytes more : List UInt8) :
    D (loop step ht b bytes) ∨
      Extends more (loop step ht b bytes) (loop step ht b (bytes ++ more)) := by
  by_cases hlen : bytes.length < 2
  · exact .inl (hdry b bytes hlen)
  obtain ⟨b', stub, hturn, hstub⟩ | h := hs b bytes more (Nat.not_lt.1 hlen)
  · rw [loop_of_inl hturn]
    exact .inl (hdry b' stub hstub)
  generalize hshort : step b bytes = out, hlong : step b (bytes ++ more) = out' at h
  cases h with
  | truncated =>
    rw [loop_of_error hshort]
    exact .inr .truncated
  | fault =>
    rw [loop_of_error hshort, loop_of_error hlong]
    exact .inr .fault
  | @ok x rest =>
    cases x with
    | inl b' =>
      have hlt : rest.length < bytes.length := ht b bytes b' rest hshort
      rw [loop_of_inl hshort, loop_of_inl hlong]
      exact dry_or_extends_loop hdry hs b' rest more
    | inr c =>
      rw [loop_of_inr hshort, loop_of_inr hlong]
      exact .inr .ok
termination_by bytes.length

end Loop

/-- **Things that repeat are steady**: they stop where no halfword is left. -/
theorem steady_whileNext {next : List UInt8 → Bool} {r : Reader α} {h : r.Takes}
    (hn : Peeks next) (hr : Steady r r) : Steady (whileNext next r h) (whileNext next r h) := by
  refine dry_or_extends_loop (D := RunsDry) ?_ ?_ []
  · intro taken bytes hlen
    rw [loop_of_inr (whileStep_of_not_next (hn.eq_false hlen) taken)]
    exact ⟨_, bytes, rfl, hlen⟩
  · intro taken bytes more hlen
    cases hnext : next bytes with
    | false =>
      rw [whileStep_of_not_next hnext,
        whileStep_of_not_next ((hn.append hlen more).trans hnext)]
      exact .inr .ok
    | true =>
      rw [whileStep, bind_left, bind_left, if_pos hnext,
        if_pos ((hn.append hlen more).trans hnext)]
      obtain ⟨x, stub, hx, hstub⟩ | hext := hr.map (β := List α ⊕ List α) (.inl <| · :: taken)
        bytes more
      · obtain ⟨y, mid, hy, hx⟩ := bind_eq_ok.1 hx
        obtain ⟨rfl, rfl⟩ := pure_eq_ok.1 hx
        exact .inl ⟨_, mid, bind_of_ok hy _, hstub⟩
      · exact .inr hext

/-! ### Parts and matrices -/

/-- The tag of a sub-call is a halfword with a mark, or the bytes run out. -/
theorem firm_subCallTag : Firm subCallTag subCallTag := by
  refine .of_starves (fun bytes h => ?_) fun bytes more h => ?_
  · rw [subCallTag, bind_left, peeks_subCallNext.eq_false h]
    exact starves_unexpected bytes h
  · rw [subCallTag, bind_left, bind_left, peeks_subCallNext.append h]
    split
    · exact firm_halfword.bind (fun _ => .pure _) bytes more
    · exact firm_unexpected bytes more

/-- A sub-call is of fixed size. -/
theorem firm_subCall : Firm subCall subCall :=
  firm_subCallTag.bind fun _ => firm_fullword.bind fun _ => firm_fullword.bind fun _ => .pure _

/-- A header is of fixed size. -/
theorem firm_alternate : Firm alternate alternate :=
  firm_halfword.bind fun _ => (firm_require _ _ _).bind fun _ => firm_fullword.bind fun _ => .pure _

/-- An entry of an array is of fixed size. -/
theorem firm_entry : Firm entry entry :=
  firm_halfword.bind fun word => by
    split
    · exact .pure _
    · exact (firm_require _ _ _).bind fun _ => .pure _

/-- An entry of a matrix tells by its first halfword whether there is a second. -/
theorem firm_matrixEntry : Firm matrixEntry matrixEntry :=
  firm_halfword.bind fun word => by
    split
    · exact .pure _
    · exact firm_halfword.bind fun _ => (firm_require _ _ _).bind fun _ => .pure _

/-- The entries of a matrix are counted. -/
theorem firm_alternateMatrix (count : Nat) :
    Firm (alternateMatrix count) (alternateMatrix count) :=
  firm_alternate.bind fun _ => (firm_many firm_matrixEntry count).bind fun _ => .pure _

/-- The matrices of a definition stop where no header comes next, also for want of bytes. -/
theorem steady_matrixGroups (count : Nat) : Steady (matrixGroups count) (matrixGroups count) :=
  (firm_many firm_matrixEntry count).bind_steady fun entries =>
    (steady_whileNext peeks_subCallNext (firm_alternateMatrix count).steady).map
      ({ entries } :: ·)

/-- The parts of a definition stop where no sub-call comes next, also for want of bytes. -/
theorem steady_parts : Steady parts parts :=
  firm_subCall.bind_steady fun first =>
    (steady_whileNext peeks_subCallNext firm_subCall.steady).map (first :: ·)

/-! ### Array definitions -/

/-- An ending setup was read with the halfword that holds it. -/
theorem firm_endSetup (word : UInt16) : Firm (endSetup word) (endSetup word) := by
  unfold endSetup
  exact firm_require _ _ _

/-- The flags tell whether there is a second ending setup. -/
theorem firm_endPlace (flags : UInt32) (setups : UInt16) :
    Firm (endPlace flags setups) (endPlace flags setups) :=
  (firm_endSetup _).bind fun _ => by
    split
    · exact firm_halfword.bind fun _ => (firm_endSetup _).bind fun _ => .pure _
    · exact .pure _

/-- A message tells by its first halfword how long it is. -/
theorem firm_message : Firm message message :=
  .left fun _ _ => firm_halfword.bind fun _ => by
    split
    · exact (firm_require _ _ _).bind fun _ => .pure _
    · exact (firm_paddedText _).bind fun _ => .pure _

/-- The entries of a clause are counted. -/
theorem firm_clause (count : Nat) : Firm (clause count) (clause count) :=
  firm_halfword.bind fun _ => firm_halfword.bind fun _ => (firm_require _ _ _).bind fun _ =>
    (firm_many firm_entry count).bind fun _ => .pure _

/-- Clauses stop where none comes next, also for want of bytes. -/
theorem steady_arrayBody (flags : UInt32) (count : Nat) :
    Steady (arrayBody flags count) (arrayBody flags count) := by
  unfold arrayBody
  split
  · exact firm_message.bind_steady fun message =>
      (steady_whileNext peeks_clauseNext (firm_clause count).steady).map (ArrayBody.clauses message)
  · exact ((firm_many firm_entry count).bind fun _ => .pure _).steady

/-- An array definition ends with its destinations, which may be clauses. -/
theorem steady_arrayDef : Steady arrayDef arrayDef :=
  firm_halfword.bind_steady fun _ => firm_fullword.bind_steady fun _ =>
    firm_halfword.bind_steady fun _ => (firm_require _ _ _).bind_steady fun _ =>
      (firm_endPlace _ _).bind_steady fun _ => (steady_arrayBody _ _).map _

/-- A thing in the definition of arrays may be an array definition. -/
theorem steady_arrayItem : Steady arrayItem arrayItem := by
  intro bytes more
  by_cases hlen : bytes.length < 2
  · have hhead : alternate bytes = .error .truncated :=
      bind_of_error (starves_halfword bytes hlen) _
    have hitem : arrayItem bytes = .error .truncated := by
      rw [arrayItem, bind_left, peeks_arrayDefNext.eq_false hlen]
      exact bind_of_error hhead _
    rw [hitem]
    exact .inr .truncated
  · rw [arrayItem, bind_left, bind_left, peeks_arrayDefNext.append (Nat.not_lt.1 hlen)]
    split
    · exact steady_arrayDef.map ArrayItem.member bytes more
    · exact (firm_alternate.bind fun h => .pure (ArrayItem.header h)).steady bytes more

/-- **Array definitions are firm**: what is left after them has to begin with a halfword. -/
theorem firm_arrayGroups : Firm arrayGroups arrayGroups := by
  refine (steady_whileNext peeks_arrayItemNext steady_arrayItem).bind_starves ?_ ?_
  · intro items bytes h
    simp only [bind_left, peek?_of_length_lt h, Option.isNone_none, Bool.true_or, if_true]
    exact starves_unexpected bytes h
  · intro items
    refine .of_starves (fun bytes h => ?_) fun bytes more h => ?_
    · simp only [bind_left, peek?_of_length_lt h, Option.isNone_none, Bool.true_or, if_true]
      exact starves_unexpected bytes h
    · simp only [bind_left, peek?_append_of_le h]
      split
      · exact firm_unexpected bytes more
      · exact .ok

/-! ### Bodies, records and books -/

/-- A definition of some kinds stops for want of bytes, and no other piece follows. -/
theorem steady_definition (k : SchemaKind) : Steady (definition k) (definition k) := by
  cases k with
  | nothing => exact (Firm.pure _).steady
  | array => exact (firm_arrayGroups.bind fun _ => .pure _).steady
  | matrix =>
    exact firm_fullword.bind_steady fun flags =>
      (steady_matrixGroups 2).map (Definition.matrix flags)
  | partnerMatrix =>
    exact firm_fullword.bind_steady fun flags =>
      (steady_matrixGroups 16).map (Definition.matrix flags)
  | sequential => exact steady_parts.map Definition.sequential
  | concentric =>
    exact (firm_subCall.bind fun _ => firm_subCall.bind fun _ => .pure _).steady
  | sameAs => exact (firm_subCallTag.bind fun _ => .pure _).steady

/-- A body ends with its definition. -/
theorem steady_body (isNamed : Bool) : Steady (body isNamed) (body isNamed) :=
  firm_halfword.bind_steady fun _ => firm_fullword.bind_steady fun _ =>
    firm_fullword.bind_steady fun _ => .left fun _ _ => firm_halfword.bind_steady fun _ =>
      (firm_require _ _ _).bind_steady fun _ => (firm_check _ _ _).bind_steady fun _ =>
        (firm_text _).bind_steady fun _ => (steady_definition _).map _

/-- A call ends with its body, behind which the other bodies are records of their own. -/
theorem steady_call (word : UInt16) : Steady (call word) (call word) :=
  firm_byte.bind_steady fun _ => (firm_require _ _ _).bind_steady fun _ =>
    (steady_body true).map _

/-- A record ends with the body of a call. -/
theorem steady_record (calls : List Call) : Steady (record calls) (record calls) :=
  .left fun _ _ => firm_halfword.bind_steady fun word => by
    split
    · cases calls with
      | nil => exact (Firm.bind_throw _ _).steady
      | cons c before =>
        exact (steady_body false).map fun p =>
          { c with continuations := c.continuations ++ [p.2] } :: before
    · split
      · exact (steady_call word).map (· :: calls)
      · exact (Firm.throw _ _).steady

/-- **The records are firm**: the end mark or another record has to follow. -/
theorem firm_records : Firm records records := by
  intro bytes more
  have hstarves : ∀ calls bytes, bytes.length < 2 →
      loop recordStep turns_recordStep calls bytes = .error .truncated := by
    intro calls bytes hlen
    refine loop_of_error ?_
    rw [recordStep, bind_left, peek?_of_length_lt hlen, if_neg (by simp)]
    refine bind_of_error ?_ _
    rw [record, bind_left]
    exact bind_of_error (starves_halfword bytes hlen) _
  have hturns : ∀ calls bytes more, 2 ≤ bytes.length →
      (∃ calls' stub, recordStep calls bytes = .ok (.inl calls', stub) ∧ stub.length < 2) ∨
        Extends more (recordStep calls bytes) (recordStep calls (bytes ++ more)) := by
    intro calls bytes more hlen
    rw [recordStep, bind_left, bind_left, peek?_append_of_le hlen]
    split
    · exact .inr (firm_halfword.bind (fun _ => .pure _) bytes more)
    · obtain ⟨x, stub, hx, hstub⟩ | hext :=
        (steady_record calls).map (Sum.inl (β := List Call)) bytes more
      · obtain ⟨y, mid, hy, hx⟩ := bind_eq_ok.1 hx
        obtain ⟨rfl, rfl⟩ := pure_eq_ok.1 hx
        exact .inl ⟨_, mid, bind_of_ok hy _, hstub⟩
      · exact .inr hext
  obtain h | h := dry_or_extends_loop (D := (· = .error .truncated)) hstarves hturns [] bytes more
  · rw [records, h]
    exact .truncated
  · exact h

/-- **A call book is firm.** -/
theorem firm_book : Firm book book :=
  firm_halfword.bind fun _ => (firm_check _ _ _).bind fun _ => firm_halfword.bind fun _ =>
    (firm_check _ _ _).bind fun _ => firm_halfword.bind fun _ => firm_halfword.bind fun _ =>
      firm_halfword.bind fun _ => (firm_text _).bind fun _ => firm_records.bind fun _ => .pure _

end Reader

/-- **A call book that is loaded says itself where it ends.**  Without some of its last bytes
it ends unexpectedly, and bytes behind it are too many. -/
theorem load_delimits {bytes : List UInt8} {b : CallBook} (h : load bytes = .ok b) :
    (∀ front, front <+: bytes → front ≠ bytes →
        load front = .error (.truncated front.length)) ∧
      ∀ more, more ≠ [] → load (bytes ++ more) = .error (.trailingBytes more.length) := by
  obtain ⟨expected, hbook, -⟩ := book_of_load h
  constructor
  · rintro front ⟨cut, rfl⟩ hne
    have hcut : cut ≠ [] := by
      rintro rfl
      exact hne (List.append_nil front).symm
    have hext := Reader.firm_book front cut
    rw [hbook] at hext
    rw [load, hext.eq_truncated hcut]
    rfl
  · intro more hne
    have hext := Reader.firm_book bytes more
    rw [hbook] at hext
    generalize hlong : Reader.book (bytes ++ more) = out at hext
    cases hext
    rw [load, hlong]
    simp [hne]

/-- Bytes with a clause, after which the reader looks for another: a cut may fall into the
halfword that it looks at. -/
theorem load_delimits_looseBytes : load looseBytes = .ok looseBook ∧
    load (looseBytes.take 47) = .error (.truncated 47) ∧
      load (looseBytes ++ [0x60]) = .error (.trailingBytes 1) := by
  have h : load looseBytes = .ok looseBook := by decide +kernel
  obtain ⟨hfront, hmore⟩ := load_delimits h
  exact ⟨h, hfront _ (List.take_prefix 47 _) (by decide), hmore [0x60] (by decide)⟩

end CallBook
end SquareDance
