/-
# Array definitions are read back

An array definition ends where neither a clause nor another definition nor the head
of another group follows.  Its flag word has room for two flags of its own, which the
writer adds and the reader takes away again: `arrayFlags_and_not`.

The groups are written one after another with nothing between them.  The reader sees
a row of things, heads and members, and `ArrayGroup.ofItems` sorts them into groups;
`ofItems_flatMap_items` says that it finds the groups that were written.
-/

import SquareDance.Proofs.CallBook.ReadBack

namespace SquareDance

open CallBook (clausesFlag concentricFlag arrayFlagsOverflow)

/-- The flag that the destinations of a definition imply. -/
def ArrayBody.flag : ArrayBody → UInt32
  | plain _ => 0
  | clauses _ _ => clausesFlag

/-- The flag that the end of a definition implies. -/
def EndPlace.flag : EndPlace → UInt32
  | plain _ => 0
  | concentric _ _ => concentricFlag

/-- The destinations imply one flag at most. -/
theorem ArrayBody.flag_cases (b : ArrayBody) : b.flag = 0 ∨ b.flag = clausesFlag := by
  cases b with
  | plain entries => exact .inl rfl
  | clauses message clauses => exact .inr rfl

/-- The end implies one flag at most. -/
theorem EndPlace.flag_cases (p : EndPlace) : p.flag = 0 ∨ p.flag = concentricFlag := by
  cases p with
  | plain index => exact .inl rfl
  | concentric inner outer => exact .inr rfl

/-! ### Groups as rows of things -/

namespace ArrayGroup

/-- A group as a row of things: its head, if it has one, and its members. -/
def items (g : ArrayGroup) : List ArrayItem :=
  g.alternate.toList.map .header ++ g.defs.map .member

/-- Members before any head belong to no head. -/
theorem splitItems_members (defs : List ArrayDef) (rest : List ArrayItem) :
    splitItems (defs.map .member ++ rest) = (defs ++ (splitItems rest).1, (splitItems rest).2) := by
  induction defs with
  | nil => rfl
  | cons d defs ih => rw [List.map_cons, List.cons_append, splitItems, ih, List.cons_append]

/-- Groups with heads are found as they are. -/
theorem splitItems_flatMap_items {groups : List ArrayGroup}
    (h : ∀ g ∈ groups, g.alternate.isSome = true) :
    splitItems (groups.flatMap items) = ([], groups) := by
  induction groups with
  | nil => rfl
  | cons g groups ih =>
    obtain ⟨hg, hgroups⟩ := List.forall_mem_cons.1 h
    obtain ⟨alternate, defs⟩ := g
    obtain ⟨a, rfl⟩ := Option.isSome_iff_exists.1 hg
    rw [List.flatMap_cons, items, List.append_assoc]
    show splitItems (.header a :: (defs.map .member ++ groups.flatMap items)) = _
    rw [splitItems, splitItems_members, ih hgroups, List.append_nil]

/-- **The groups of a row of things are those that it was made of.** -/
theorem ofItems_flatMap_items {groups : List ArrayGroup} (h : AreWellFormed groups) :
    ofItems (groups.flatMap items) = groups := by
  obtain ⟨g, groups, rfl⟩ := List.exists_cons_of_ne_nil h.ne_nil
  obtain ⟨alternate, defs⟩ := g
  cases alternate with
  | some a =>
    have hall : ∀ g ∈ (⟨some a, defs⟩ :: groups : List ArrayGroup), g.alternate.isSome = true :=
      List.forall_mem_cons.2 ⟨rfl, h.alternate⟩
    rw [ofItems, splitItems_flatMap_items hall]
    rfl
  | none =>
    have hdefs : defs ≠ [] := h.defs_ne_nil ⟨none, defs⟩ List.mem_cons_self
    have hitems : items ⟨none, defs⟩ = defs.map .member := rfl
    have htail : ∀ g ∈ groups, g.alternate.isSome = true := h.alternate
    rw [ofItems, List.flatMap_cons, hitems, splitItems_members, splitItems_flatMap_items htail,
      List.append_nil]
    simp [hdefs]

end ArrayGroup

namespace CallBook

/-! ### Flags -/

/-- The flag word has the flags of the definition and the two that are implied. -/
theorem arrayFlags_eq (d : ArrayDef) : arrayFlags d = d.flags ||| d.body.flag ||| d.finish.flag :=
  rfl

section Flags

variable {d : ArrayDef} (h : d.IsWellFormed)

include h

/-- The flag word does not run over, if the flags are free. -/
theorem arrayFlags_and_overflow : arrayFlags d &&& arrayFlagsOverflow = 0 := by
  rw [arrayFlags_eq, UInt32.or_and_distrib, UInt32.or_and_distrib, h.flags_overflow]
  rcases d.body.flag_cases with hb | hb <;> rcases d.finish.flag_cases with hf | hf <;>
    (rw [hb, hf]; decide)

/-- The flag for clauses is there just if it is implied. -/
theorem arrayFlags_and_clauses : arrayFlags d &&& clausesFlag = d.body.flag := by
  rw [arrayFlags_eq, UInt32.or_and_distrib, UInt32.or_and_distrib, h.flags_clauses]
  rcases d.body.flag_cases with hb | hb <;> rcases d.finish.flag_cases with hf | hf <;>
    (rw [hb, hf]; decide)

/-- The flag for a second ending setup is there just if it is implied. -/
theorem arrayFlags_and_concentric : arrayFlags d &&& concentricFlag = d.finish.flag := by
  rw [arrayFlags_eq, UInt32.or_and_distrib, UInt32.or_and_distrib, h.flags_concentric]
  rcases d.body.flag_cases with hb | hb <;> rcases d.finish.flag_cases with hf | hf <;>
    (rw [hb, hf]; decide)

/-- **The flags that a definition implies are taken away again.** -/
theorem arrayFlags_and_not : arrayFlags d &&& ~~~(clausesFlag ||| concentricFlag) = d.flags := by
  have hflags : d.flags &&& (clausesFlag ||| concentricFlag) = 0 := by
    rw [UInt32.and_comm, UInt32.or_and_distrib, UInt32.and_comm clausesFlag,
      UInt32.and_comm concentricFlag, h.flags_clauses, h.flags_concentric]
    rfl
  have hbody : d.body.flag &&& ~~~(clausesFlag ||| concentricFlag) = 0 := by
    rcases d.body.flag_cases with hb | hb <;> (rw [hb]; decide)
  have hfinish : d.finish.flag &&& ~~~(clausesFlag ||| concentricFlag) = 0 := by
    rcases d.finish.flag_cases with hf | hf <;> (rw [hf]; decide)
  rw [arrayFlags_eq, UInt32.or_and_distrib, UInt32.or_and_distrib, hbody, hfinish,
    UInt32.or_zero, UInt32.or_zero]
  exact and_not_eq_self hflags

end Flags

namespace Reader

open Consumer

/-! ### What comes next -/

/-- What begins an array definition begins no clause. -/
theorem clauseNext_of_arrayDefNext {bytes : List UInt8} (h : arrayDefNext bytes = true) :
    clauseNext bytes = false := by
  rw [arrayDefNext, Option.any_eq_true] at h
  obtain ⟨w, hw, h⟩ := h
  rw [clauseNext, hw]
  by_contra hc
  obtain rfl : w = predicateMark := by simpa using hc
  exact absurd h (by decide)

/-- What begins a sub-call or a header begins neither a clause nor an array definition. -/
theorem of_subCallNext {bytes : List UInt8} (h : subCallNext bytes = true) :
    clauseNext bytes = false ∧ arrayDefNext bytes = false := by
  rw [subCallNext, Option.any_eq_true] at h
  obtain ⟨w, hw, h⟩ := h
  have hk := congrArg UInt16.toNat (beq_iff_eq.1 h)
  rw [and_kindMask_toNat] at hk
  have hk : w.toNat / 8192 * 8192 = 16384 := hk
  constructor
  · rw [clauseNext, hw]
    by_contra hc
    obtain rfl : w = predicateMark := by simpa using hc
    exact absurd hk (by decide)
  · have hlt : w < 0x8000 := by
      show w.toNat < 32768
      omega
    rw [arrayDefNext, hw, Option.any_some, (and_arrayMark_eq_zero_iff w).2 hlt]
    rfl

/-- What begins a sub-call or a header begins no clause. -/
theorem clauseNext_of_subCallNext {bytes : List UInt8} (h : subCallNext bytes = true) :
    clauseNext bytes = false := (of_subCallNext h).1

/-- What begins a sub-call or a header begins no array definition. -/
theorem not_arrayDefNext_of_subCallNext {bytes : List UInt8} (h : subCallNext bytes = true) :
    arrayDefNext bytes = false := (of_subCallNext h).2

/-! ### Setups -/

/-- An ending setup is read from the low half of its halfword, whatever the high half is. -/
theorem endSetup_of_low {w : UInt16} {i : UInt8} (hw : w &&& 0xFF = i.toUInt16)
    (hi : EndSetup.isIndex i.toNat = true) (s : List UInt8) : endSetup w s = .ok (i, s) := by
  unfold endSetup
  rw [hw, UInt8.toNat_toUInt16, if_pos hi]
  exact require_eq_ok.2 ⟨congrArg some (UInt8.toUInt8_toUInt16 i), rfl⟩

/-- **The setups of a definition are read back.** -/
theorem endPlace_append {flags : UInt32} (start : UInt8) {p : EndPlace} (hp : p.IsWellFormed)
    (hflags : flags &&& concentricFlag = p.flag) (rest : List UInt8) :
    ∃ w mid, halfword (setupsBytes start p ++ rest) = .ok (w, mid) ∧ w >>> 8 = start.toUInt16 ∧
      endPlace flags w mid = .ok (p, rest) := by
  cases p with
  | plain index =>
    refine ⟨halfwordOf start index, rest, rfl, halfwordOf_high start index, ?_⟩
    rw [endPlace, bind_of_ok (endSetup_of_low (halfwordOf_low start index) hp rest), hflags]
    rfl
  | concentric inner outer =>
    obtain ⟨hi, ho⟩ := hp
    have hne : (EndPlace.concentric inner outer).flag ≠ 0 := show concentricFlag ≠ 0 by decide
    refine ⟨halfwordOf start inner, CallBook.halfword outer.toUInt16 ++ rest, rfl,
      halfwordOf_high start inner, ?_⟩
    rw [endPlace, bind_of_ok (endSetup_of_low (halfwordOf_low start inner) hi _), hflags,
      if_pos hne, bind_of_ok (halfword_append _ rest),
      bind_of_ok (endSetup_of_low (toUInt16_and_byteMask outer) ho rest)]
    rfl

/-! ### Clauses -/

/-- A predicate that the call language can name has a number, and is found at it. -/
theorem exists_index {p : Predicate} (h : p ∈ Predicate.all) :
    ∃ i, p.index? = some i ∧ Predicate.ofIndex? i = some p ∧ i < 65536 := by
  obtain ⟨i, hi⟩ := Option.isSome_iff_exists.1 (List.isSome_idxOf?.2 h)
  obtain ⟨hlt, hp, -⟩ := List.idxOf?_eq_some_iff.1 hi
  refine ⟨i, hi, ?_, ?_⟩
  · rw [Predicate.ofIndex?, List.getElem?_eq_getElem hlt, hp]
  · have hlen : Predicate.all.length ≤ 65536 := by decide +kernel
    omega

/-- A length that fits a halfword is written as one. -/
theorem fitted_of_lt {n : Nat} (h : n < 65536) (what : String) :
    fitted n what = .ok (CallBook.halfword (UInt16.ofNat n)) := if_pos h

/-- **What is said when no clause applies is read back.** -/
theorem exists_messageBytes {m : ClausesMessage} (h : m.Fits) :
    ∃ bytes, messageBytes m = .ok bytes ∧ ∀ rest, message (bytes ++ rest) = .ok (m, rest) := by
  cases m with
  | text s =>
    have h : (Text.utf8 s).length ≤ 32767 := h
    have hn : (UInt16.ofNat (Text.utf8 s).length).toNat = (Text.utf8 s).length :=
      UInt16.toNat_ofNat_of_lt' (Nat.lt_of_le_of_lt h (by decide))
    have hlow : UInt16.ofNat (Text.utf8 s).length &&& arrayMark = 0 := by
      rw [and_arrayMark_eq_zero_iff, UInt16.lt_iff_toNat_lt, hn]
      exact Nat.lt_of_le_of_lt h (by decide)
    refine ⟨_, by rw [messageBytes, fitted_of_lt (by omega)]; rfl, fun rest => ?_⟩
    rw [List.append_assoc, message, bind_left,
      bind_of_ok (halfword_append _ _), if_neg (not_not.2 hlow), hn,
      bind_of_ok (paddedText_append s rest)]
    rfl
  | canned m =>
    have hm : m.code < 0x8000 := by cases m <;> decide
    have hcode : CannedMessage.ofCode? ((arrayMark ||| m.code) &&& ~~~arrayMark) = some m := by
      rw [arrayMark_or_and_not_arrayMark hm, CannedMessage.ofCode?_code]
    refine ⟨_, rfl, fun rest => ?_⟩
    rw [message, bind_left, bind_of_ok (halfword_append _ rest),
      if_pos (arrayMark_or_and_arrayMark hm), bind_of_ok (require_eq_ok.2 ⟨hcode, rfl⟩)]
    rfl

/-- **A clause is read back.** -/
theorem exists_clauseBytes {count : Nat} {c : Clause} (hp : c.predicate ∈ Predicate.all)
    (hrow : Entry.AreRow false count c.entries) :
    ∃ bytes, clauseBytes c = .ok bytes ∧ ∀ rest, clause count (bytes ++ rest) = .ok (c, rest) ∧
      clauseNext (bytes ++ rest) = true := by
  obtain ⟨i, hi, hof, hlt⟩ := exists_index hp
  have hn : (UInt16.ofNat i).toNat = i := UInt16.toNat_ofNat_of_lt' hlt
  refine ⟨_, by rw [clauseBytes, hi]; simp only; rw [fitted_of_lt hlt]; rfl, fun rest => ⟨?_, ?_⟩⟩
  · rw [List.append_assoc, List.append_assoc, clause, bind_of_ok (halfword_append _ _),
      bind_of_ok (halfword_append _ _), hn, bind_of_ok (require_eq_ok.2 ⟨hof, rfl⟩),
      bind_of_ok (many_entry_append hrow rest)]
    rfl
  · rw [List.append_assoc, List.append_assoc, clauseNext, peek?_append]
    rfl

/-- **The destinations of a definition are read back**, where no clause follows. -/
theorem exists_arrayBodyBytes {count : Nat} {b : ArrayBody} (h : b.IsWellFormed count)
    (hfits : b.Fits) : ∃ bytes, arrayBodyBytes b = .ok bytes ∧ ∀ flags rest,
      flags &&& clausesFlag = b.flag → clauseNext rest = false →
        arrayBody flags count (bytes ++ rest) = .ok (b, rest) := by
  cases b with
  | plain entries =>
    refine ⟨_, rfl, fun flags rest hflags _ => ?_⟩
    rw [arrayBody, hflags]
    show (many entry count >>= _) _ = _
    rw [bind_of_ok (many_entry_append h rest)]
    rfl
  | clauses m cs =>
    obtain ⟨head, hhead, hm⟩ := exists_messageBytes hfits
    have hclauses : ∀ c ∈ cs, ∃ bytes, clauseBytes c = .ok bytes ∧
        Spells clauseNext (clause count) (fun _ => True) bytes [c] := by
      intro c hc
      obtain ⟨hp, hrow⟩ := h c hc
      obtain ⟨bytes, hbytes, hread⟩ := exists_clauseBytes hp hrow
      exact ⟨bytes, hbytes, .single fun rest _ => ⟨(hread rest).1, (hread rest).2, trivial⟩⟩
    obtain ⟨pieces, hpieces, hspell⟩ := Spells.mapM hclauses
    rw [flatMap_singleton_eq] at hspell
    refine ⟨head ++ pieces.flatten, ?_, fun flags rest hflags hr => ?_⟩
    · rw [arrayBodyBytes, hhead, hpieces]
      rfl
    · rw [List.append_assoc, arrayBody, hflags]
      show (message >>= _) _ = _
      rw [bind_of_ok (hm _), bind_of_ok (hspell.whileNext trivial hr)]
      rfl

/-! ### Definitions and groups -/

/-- **An array definition is read back**, where no clause follows. -/
theorem exists_arrayDefBytes {d : ArrayDef} (h : d.IsWellFormed) (hfits : d.body.Fits) :
    ∃ bytes, arrayDefBytes d = .ok bytes ∧ ∀ rest, clauseNext rest = false →
      arrayDef (bytes ++ rest) = .ok (d, rest) ∧ arrayDefNext (bytes ++ rest) = true := by
  obtain ⟨count, hcount, hbody⟩ := h.body
  obtain ⟨body, hbytes, hread⟩ := exists_arrayBodyBytes hbody hfits
  have hlt := (and_arrayFlagsOverflow_eq_zero_iff _).1 (arrayFlags_and_overflow h)
  have hhigh : (arrayFlags d >>> 7).toUInt16 < 0x8000 := by
    have := high_toNat hlt
    show (arrayFlags d >>> 7).toUInt16.toNat < 32768
    omega
  refine ⟨_, by rw [arrayDefBytes, if_neg (not_not.2 (arrayFlags_and_overflow h)), hbytes]; rfl,
    fun rest hr => ⟨?_, ?_⟩⟩
  · obtain ⟨w, mid, hw, hstart, hfinish⟩ := endPlace_append d.start h.finish
      (arrayFlags_and_concentric h) (body ++ rest)
    have hc : StartSetup.entryCount? (w >>> 8).toNat = some count := by
      rw [hstart, UInt8.toNat_toUInt16]
      exact hcount
    rw [List.append_assoc, List.append_assoc, List.append_assoc, arrayDef,
      bind_of_ok (halfword_append _ _), bind_of_ok (fullword_append _ _)]
    simp only [joinedFlags_packed d.restriction hlt h.qualifier_lt,
      restriction_packed d.restriction h.qualifier_lt, qualifier_packed d.restriction h.qualifier_lt]
    rw [bind_of_ok hw, bind_of_ok (require_eq_ok.2 ⟨hc, rfl⟩), bind_of_ok hfinish,
      bind_of_ok (hread _ _ (arrayFlags_and_clauses h) hr), hstart, arrayFlags_and_not h,
      UInt8.toUInt8_toUInt16]
    rfl
  · rw [List.append_assoc, List.append_assoc, List.append_assoc, arrayDefNext, peek?_append,
      Option.any_some]
    exact bne_iff_ne.2 (arrayMark_or_and_arrayMark hhigh)

/-- A thing of an array definition comes next. -/
def itemNext (bytes : List UInt8) : Bool := arrayDefNext bytes || subCallNext bytes

/-- The head of a group spells a thing, if there is one. -/
theorem spells_header (a : Option AlternateHeader) :
    Spells itemNext arrayItem (fun rest => clauseNext rest = false) (alternateBytes a)
      (a.toList.map .header) := by
  cases a with
  | none => exact .nil
  | some a =>
    refine .single fun rest _ => ?_
    have hn := subCallNext_alternateBytes a rest
    have hd := not_arrayDefNext_of_subCallNext hn
    refine ⟨?_, ?_, clauseNext_of_subCallNext hn⟩
    · rw [arrayItem, bind_left, if_neg (by simp [hd]),
        bind_of_ok (alternate_append a rest)]
      rfl
    · rw [itemNext, hn, Bool.or_true]

/-- **A group spells its head and its members.** -/
theorem exists_arrayGroupBytes {g : ArrayGroup} (h : ∀ d ∈ g.defs, d.IsWellFormed ∧ d.body.Fits) :
    ∃ bytes, arrayGroupBytes g = .ok bytes ∧
      Spells itemNext arrayItem (fun rest => clauseNext rest = false) bytes g.items := by
  have hdefs : ∀ d ∈ g.defs, ∃ bytes, arrayDefBytes d = .ok bytes ∧
      Spells itemNext arrayItem (fun rest => clauseNext rest = false) bytes [.member d] := by
    intro d hd
    obtain ⟨bytes, hbytes, hread⟩ := exists_arrayDefBytes (h d hd).1 (h d hd).2
    refine ⟨bytes, hbytes, .single fun rest hr => ?_⟩
    obtain ⟨hd, hn⟩ := hread rest hr
    refine ⟨?_, ?_, clauseNext_of_arrayDefNext hn⟩
    · rw [arrayItem, bind_left, if_pos hn, bind_of_ok hd]
      rfl
    · rw [itemNext, hn, Bool.true_or]
  obtain ⟨pieces, hpieces, hspell⟩ := Spells.mapM hdefs
  refine ⟨alternateBytes g.alternate ++ pieces.flatten, ?_, ?_⟩
  · rw [arrayGroupBytes, hpieces]
    rfl
  · rw [← List.map_eq_flatMap] at hspell
    exact (spells_header g.alternate).append hspell

/-- A record of a call comes next, or the end mark: whatever follows a body. -/
def Ends (rest : List UInt8) : Prop := ∃ w, peek? rest = some w ∧ w < 0x4000

namespace Ends

variable {rest : List UInt8} (h : Ends rest)

include h

/-- Where a body ends no array definition comes next. -/
theorem not_arrayDefNext : arrayDefNext rest = false := by
  obtain ⟨w, hw, hlt⟩ := h
  have hlt : w < 0x8000 := UInt16.lt_trans hlt (by decide)
  rw [arrayDefNext, hw, Option.any_some, (and_arrayMark_eq_zero_iff w).2 hlt]
  rfl

/-- Where a body ends no sub-call comes next. -/
theorem not_subCallNext : subCallNext rest = false := by
  obtain ⟨w, hw, hlt⟩ := h
  have hlt : w.toNat < 16384 := hlt
  rw [subCallNext, hw, Option.any_some, beq_eq_false_iff_ne]
  intro hk
  have hk := congrArg UInt16.toNat hk
  rw [and_kindMask_toNat] at hk
  have hk : w.toNat / 8192 * 8192 = 16384 := hk
  omega

/-- Where a body ends no clause comes next. -/
theorem not_clauseNext : clauseNext rest = false := by
  obtain ⟨w, hw, hlt⟩ := h
  rw [clauseNext, hw]
  by_contra hc
  obtain rfl : w = predicateMark := by simpa using hc
  exact absurd hlt (by decide)

/-- Where a body ends a halfword comes next. -/
theorem peek?_isNone : (peek? rest).isNone = false := by
  obtain ⟨w, hw, -⟩ := h
  rw [hw]
  rfl

end Ends

/-- **The groups of an array definition are read back.** -/
theorem exists_arrayGroupsBytes {groups : List ArrayGroup} (h : ArrayGroup.AreWellFormed groups)
    (hfits : ∀ g ∈ groups, ∀ d ∈ g.defs, d.body.Fits) :
    ∃ pieces, groups.mapM arrayGroupBytes = .ok pieces ∧ ∀ rest, Ends rest →
      arrayGroups (pieces.flatten ++ rest) = .ok (groups, rest) := by
  obtain ⟨pieces, hpieces, hspell⟩ := Spells.mapM fun g hg =>
    exists_arrayGroupBytes fun d hd => ⟨h.defs g hg d hd, hfits g hg d hd⟩
  refine ⟨pieces, hpieces, fun rest hr => ?_⟩
  have hnext : itemNext rest = false := by
    rw [itemNext, hr.not_arrayDefNext, hr.not_subCallNext]
    rfl
  have hempty : (groups.any fun g => g.defs.isEmpty) = false := by
    rw [List.any_eq_false]
    intro g hg
    simpa using h.defs_ne_nil g hg
  have hitems : whileNext (fun bytes => arrayDefNext bytes || subCallNext bytes) arrayItem
      takes_arrayItem (pieces.flatten ++ rest) = .ok (groups.flatMap ArrayGroup.items, rest) :=
    hspell.whileNext hr.not_clauseNext hnext
  rw [arrayGroups, bind_of_ok hitems, ArrayGroup.ofItems_flatMap_items h,
    bind_left, if_neg (by simp [hr.peek?_isNone, h.ne_nil, hempty])]
  rfl

end Reader
end CallBook
end SquareDance
