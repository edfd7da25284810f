/-
# Array definitions and the blocks that they are read from

Each array definition of a call book is read from a block of its own in the text: its setups, its
clauses, and the word that its destinations begin with.  Each turn of the loop takes one clause and
adds it to the options (`arrayPartStep_eq_ok`), so that the definition has what the clauses give
(`arrays_of_parse`).

A restriction that is repeated, a second number, and a qualifier behind a bare `none` make what no
clause says: `arrays_mixedBlock`.
-/

import SquareDance.Proofs.CallText.Clauses
import SquareDance.Proofs.CallText.Passages

namespace SquareDance
namespace CallText

open Qualifier (Sign tBoneMask numberMask numberBits)
open ArrayFlags (strengthMask)

namespace Parser

open Consumer

variable {r rest : Reading}

/-! ### Tokens behind the one that is looked at -/

/-- To go on is to leave the token looked at. -/
theorem tail_of_advance {u : Unit} (h : advance r = .ok (u, rest)) :
    r.tokens.tail = rest.tokens := by
  obtain ⟨⟨t, ht⟩, -⟩ := advance_eq_ok h
  rw [ht]
  rfl

/-- The symbol that is read stands behind the token looked at. -/
theorem tail_of_symbol {m s : String} (h : symbol m r = .ok (s, rest)) :
    r.tokens.tail = .word s :: rest.tokens.tail := by
  obtain ⟨⟨t, ts, ht, hrest⟩, -⟩ := symbol_eq_ok h
  rw [ht, hrest]
  rfl

/-- The number that is read stands behind the token looked at. -/
theorem tail_of_number {m : String} {n : UInt32} (h : number m r = .ok (n, rest)) :
    r.tokens.tail = .number n :: rest.tokens.tail := by
  obtain ⟨_, r₁, h₁, h⟩ := bind_eq_ok.1 h
  obtain ⟨t, r₂, h₂, h⟩ := bind_eq_ok.1 h
  obtain ⟨ht, rfl⟩ := current?_eq_ok.1 h₂
  split at h
  · obtain ⟨rfl, rfl⟩ := pure_eq_ok.1 h
    rw [tail_of_advance h₁]
    exact List.eq_cons_of_mem_head? ht
  · cases h

/-- The name of an ending setup stands behind the token looked at. -/
theorem tail_of_endSetup {m what : String} {i : UInt8} (h : endSetup m what r = .ok (i, rest)) :
    ∃ word, r.tokens.tail = .word word :: rest.tokens.tail := by
  obtain ⟨word, r₁, h₁, h⟩ := bind_eq_ok.1 h
  obtain ⟨index, r₂, h₂, h⟩ := bind_eq_ok.1 h
  obtain ⟨-, rfl⟩ := orFail_eq_ok.1 h₂
  obtain ⟨-, rfl⟩ := pure_eq_ok.1 h
  exact ⟨word, tail_of_symbol h₁⟩

/-- A symbol that is found here is the token looked at, and stays. -/
theorem eq_cons_of_symbolHere {m s : String} (h : symbolHere m r = .ok (s, rest)) :
    r.tokens = .word s :: rest.tokens.tail ∧ r = rest := by
  obtain ⟨hs, rfl⟩ := symbolHere_eq_ok h
  exact ⟨List.eq_cons_of_mem_head? hs, rfl⟩

/-- A symbol that is looked for is the token looked at, and stays. -/
theorem eq_cons_of_symbol? {s : String} (h : symbol? r = .ok (some s, rest)) :
    r.tokens = .word s :: rest.tokens.tail ∧ r = rest := by
  obtain rfl := symbol?_eq_ok h
  obtain ⟨t, r₁, h₁, h⟩ := bind_eq_ok.1 h
  obtain ⟨ht, rfl⟩ := current?_eq_ok.1 h₁
  split at h
  · obtain ⟨hs, -⟩ := pure_eq_ok.1 h
    cases hs
    exact ⟨List.eq_cons_of_mem_head? ht, rfl⟩
  · obtain ⟨hs, -⟩ := pure_eq_ok.1 h
    cases hs

/-! ### Qualifiers -/

/-- A turn of the loop stops, or takes a sign. -/
theorem qualifierStep_eq_ok {bits : UInt32} {out : UInt32 ⊕ UInt32}
    (h : qualifierStep bits r = .ok (out, rest)) : (out = .inr bits ∧ r = rest) ∨
      ∃ s : SignText, r.tokens = s.tokens ++ rest.tokens ∧ out = .inl (bits ||| s.bits) ∧
        (s.tBone?.isSome → bits &&& tBoneMask = 0) := by
  obtain ⟨word, r₁, h₁, h⟩ := bind_eq_ok.1 h
  cases hw : word.bind Sign.ofWord? with
  | none =>
    rw [hw] at h
    obtain rfl := symbol?_eq_ok h₁
    obtain ⟨rfl, rfl⟩ := pure_eq_ok.1 h
    exact .inl ⟨rfl, rfl⟩
  | some sign =>
    rw [hw] at h
    obtain ⟨w, rfl, hsign⟩ := Option.bind_eq_some_iff.1 hw
    obtain ⟨htokens, rfl⟩ := eq_cons_of_symbol? h₁
    right
    cases sign with
    | number =>
      obtain ⟨n, r₂, h₂, h⟩ := bind_eq_ok.1 h
      obtain ⟨bits', r₃, h₃, h⟩ := bind_eq_ok.1 h
      obtain ⟨hn, rfl⟩ := accepted_eq_ok.1 h₃
      obtain ⟨_, r₄, h₄, h⟩ := bind_eq_ok.1 h
      obtain ⟨rfl, rfl⟩ := pure_eq_ok.1 h
      obtain ⟨hle, rfl⟩ := Qualifier.addNumber_eq_ok hn
      have hnum : w = "num" := by
        unfold Sign.ofWord? at hsign
        split at hsign <;> first | rfl | cases hsign
      refine ⟨.number n hle, ?_, rfl, fun hs => by cases hs⟩
      rw [htokens, tail_of_number h₂, tail_of_advance h₄, hnum]
      rfl
    | left | right | live | tBone | notTBone | explicit =>
      obtain ⟨bits', r₂, h₂, h⟩ := bind_eq_ok.1 h
      obtain ⟨hadd, rfl⟩ := accepted_eq_ok.1 h₂
      obtain ⟨_, r₃, h₃, h⟩ := bind_eq_ok.1 h
      obtain ⟨rfl, rfl⟩ := pure_eq_ok.1 h
      obtain ⟨rfl, hone⟩ := Qualifier.addSign_eq_ok hadd
      refine ⟨.word w _ hsign (by decide), ?_, rfl, hone⟩
      rw [htokens, tail_of_advance h₃]
      rfl

/-- One more sign keeps T-bone signs from being repeated. -/
theorem length_tBones_concat {past : List SignText} {s : SignText}
    (hone : (tBones past).length ≤ 1)
    (hs : s.tBone?.isSome → orAll (past.map (·.bits)) &&& tBoneMask = 0) :
    (tBones (past ++ [s])).length ≤ 1 := by
  unfold tBones at hone ⊢
  rw [List.filterMap_append]
  cases hx : s.tBone? with
  | none =>
    rw [List.filterMap_cons_none hx]
    exact (List.append_nil _).symm ▸ hone
  | some x =>
    have hnil : past.filterMap (·.tBone?) = [] := tBones_eq_nil (hs (hx ▸ rfl))
    rw [hnil, List.filterMap_cons_some hx]
    exact Nat.le_refl 1

/-- **The turns of the loop take signs**, by induction on them; those before a turn have made the
bits that it begins with. -/
theorem qualifierSteps_eq_ok {bits bits' : UInt32}
    (h : loop qualifierStep turns_qualifierStep bits r = .ok (bits', rest)) (past : List SignText)
    (hbits : bits = orAll (past.map (·.bits))) (hone : (tBones past).length ≤ 1) :
    ∃ signs, r.tokens = signs.flatMap (·.tokens) ++ rest.tokens ∧
      bits' = orAll ((past ++ signs).map (·.bits)) ∧ (tBones (past ++ signs)).length ≤ 1 := by
  refine loop_induct (motive := fun bits r bits' rest => ∀ past : List SignText,
    bits = orAll (past.map (·.bits)) → (tBones past).length ≤ 1 →
      ∃ signs, r.tokens = signs.flatMap (·.tokens) ++ rest.tokens ∧
        bits' = orAll ((past ++ signs).map (·.bits)) ∧ (tBones (past ++ signs)).length ≤ 1)
    ?_ ?_ h past hbits hone
  · intro bits r bits' rest h past hbits hone
    obtain ⟨hout, rfl⟩ | ⟨s, -, hout, -⟩ := qualifierStep_eq_ok h
    · cases hout
      exact ⟨[], rfl, by rw [List.append_nil]; exact hbits, by rwa [List.append_nil]⟩
    · cases hout
  · intro bits r bits₁ mid bits' rest h ih past hbits hone
    obtain ⟨hout, -⟩ | ⟨s, htokens, hout, hs⟩ := qualifierStep_eq_ok h
    · cases hout
    · cases hout
      have hbits₁ : bits ||| s.bits = orAll ((past ++ [s]).map (·.bits)) := by
        rw [List.map_append, orAll_append, ← hbits]
        exact congrArg (_ ||| ·) UInt32.or_zero.symm
      obtain ⟨signs, hmid, hbits', hone'⟩ :=
        ih (past ++ [s]) hbits₁ (length_tBones_concat hone (hbits ▸ hs))
      rw [List.append_assoc] at hbits' hone'
      refine ⟨s :: signs, ?_, hbits', hone'⟩
      rw [htokens, hmid, List.flatMap_cons, List.append_assoc]

/-- **A qualifier is read from its clause.** -/
theorem qualifier_eq_ok {bits : UInt32} (h : qualifier r = .ok (bits, rest)) :
    ∃ q : QualifierClause, .word "qualifier" :: r.tokens.tail = q.tokens ++ rest.tokens.tail ∧
      bits = q.bits ∧ (tBones q.signs).length ≤ 1 := by
  obtain ⟨_, r₁, h₁, h⟩ := bind_eq_ok.1 h
  obtain ⟨bits', r₂, h₂, h⟩ := bind_eq_ok.1 h
  obtain ⟨word, r₃, h₃, h⟩ := bind_eq_ok.1 h
  obtain ⟨code, r₄, h₄, h⟩ := bind_eq_ok.1 h
  obtain ⟨hcode, rfl⟩ := orFail_eq_ok.1 h₄
  obtain ⟨rfl, rfl⟩ := pure_eq_ok.1 h
  obtain ⟨signs, htokens, hbits, hone⟩ := qualifierSteps_eq_ok h₂ [] rfl (Nat.zero_le 1)
  obtain ⟨hword, rfl⟩ := eq_cons_of_symbolHere h₃
  refine ⟨⟨signs, word, code, hcode⟩, ?_, congrArg (· ||| _) hbits, hone⟩
  rw [tail_of_advance h₁, htokens, QualifierClause.tokens, List.cons_append, List.append_assoc]
  exact congrArg (fun ts => _ :: (_ ++ ts)) hword

/-! ### Restrictions -/

/-- **A restriction is read from its clause.** -/
theorem restriction_eq_ok {strength : UInt32} {code : UInt8}
    (h : restriction r = .ok ((strength, code), rest)) : ∃ c : RestrictionClause,
      .word "restriction" :: r.tokens.tail = c.tokens ++ rest.tokens.tail ∧
        strength = c.bits ∧ code = c.code := by
  obtain ⟨first, r₁, h₁, h⟩ := bind_eq_ok.1 h
  cases hw : ArrayFlags.strengthOfWord? first with
  | some bits =>
    rw [hw] at h
    obtain ⟨word, r₂, h₂, h⟩ := bind_eq_ok.1 h
    obtain ⟨code, r₃, h₃, h⟩ := bind_eq_ok.1 h
    obtain ⟨hcode, rfl⟩ := orFail_eq_ok.1 h₃
    obtain ⟨hp, rfl⟩ := pure_eq_ok.1 h
    cases hp
    refine ⟨⟨some first, ?_, word, code, hcode⟩, ?_, ?_, rfl⟩
    · intro w hfirst
      cases hfirst
      rw [hw]
      rfl
    · rw [tail_of_symbol h₁, tail_of_symbol h₂]
      rfl
    · rw [RestrictionClause.bits, Option.bind_some, hw]
      rfl
  | none =>
    rw [hw] at h
    obtain ⟨code, r₂, h₂, h⟩ := bind_eq_ok.1 h
    obtain ⟨hcode, rfl⟩ := orFail_eq_ok.1 h₂
    obtain ⟨hp, rfl⟩ := pure_eq_ok.1 h
    cases hp
    refine ⟨⟨none, by simp, first, code, hcode⟩, ?_, rfl, rfl⟩
    rw [tail_of_symbol h₁]
    rfl

/-! ### Centers and ends -/

/-- The second ending setup is a clause, and its number has no bits of a strength. -/
theorem concentricEnd_eq_ok {finish : EndPlace} {bits : UInt32}
    (h : concentricEnd r = .ok ((finish, bits), rest)) : ∃ inner outer n,
      .word "concendsetup" :: r.tokens.tail
        = (ArrayClause.concentricEnd inner outer n).tokens ++ rest.tokens.tail ∧
          bits &&& strengthMask = 0 := by
  obtain ⟨i, r₁, h₁, h⟩ := bind_eq_ok.1 h
  obtain ⟨j, r₂, h₂, h⟩ := bind_eq_ok.1 h
  obtain ⟨n, r₃, h₃, h⟩ := bind_eq_ok.1 h
  obtain ⟨inner, hinner⟩ := tail_of_endSetup h₁
  obtain ⟨outer, houter⟩ := tail_of_endSetup h₂
  rw [hinner, houter, tail_of_number h₃]
  split at h
  · obtain ⟨hp, rfl⟩ := pure_eq_ok.1 h
    cases hp
    exact ⟨inner, outer, 0, rfl, rfl⟩
  · obtain ⟨hp, rfl⟩ := pure_eq_ok.1 h
    cases hp
    exact ⟨inner, outer, 1, rfl, rfl⟩
  · cases h

/-! ### Parts of a definition -/

/-- Destinations, behind which a definition has no further parts. -/
def IsLastPart : ArrayPart → Prop
  | .entries | .clausesWithText | .clausesWithMessage _ => True
  | _ => False

/-- What a word begins: a clause, or destinations. -/
inductive Begins : String → ArrayPart → Prop where
  | qualifier : Begins "qualifier" .qualifier
  | restriction : Begins "restriction" .restriction
  | concentricEnd : Begins "concendsetup" .concentricEnd
  | flag {word bits} (h : ArrayFlags.ofOption? word = some bits) : Begins word (.flag bits)
  | destinations {word part} (hw : IsEnding word) (hp : IsLastPart part) : Begins word part

/-- A word of the table begins a clause or destinations. -/
theorem begins_of_ofWord? {word : String} {part : ArrayPart}
    (h : ArrayPart.ofWord? word = some part) : Begins word part := by
  unfold ArrayPart.ofWord? at h
  split at h
  case h_6 =>
    cases hm : CannedMessage.ofName? word with
    | some m =>
      rw [hm] at h
      cases h
      have hname := List.find?_some (p := fun m : CannedMessage => m.name == word) hm
      rw [← eq_of_beq hname]
      exact .destinations (by cases m <;> decide) trivial
    | none =>
      rw [hm] at h
      cases hbits : ArrayFlags.ofOption? word with
      | none =>
        rw [hbits] at h
        cases h
      | some bits =>
        rw [hbits] at h
        cases h
        exact .flag hbits
  all_goals cases h
  · exact .destinations (by decide) trivial
  · exact .destinations (by decide) trivial
  · exact .qualifier
  · exact .restriction
  · exact .concentricEnd

/-- Destinations are read up to their end. -/
theorem lastPart_eq_ok {size : Nat} {o : ArrayOptions} {part : ArrayPart}
    {out : ArrayOptions ⊕ ArrayBody} (hpart : IsLastPart part)
    (h : arrayPart size o part r = .ok (out, rest)) :
    (∃ b, out = .inr b) ∧ r.Reaches rest ∧ rest.tokens.length < r.tokens.length := by
  cases part with
  | entries =>
    obtain ⟨_, r₁, h₁, h⟩ := bind_eq_ok.1 h
    obtain ⟨es, r₂, h₂, h⟩ := bind_eq_ok.1 h
    obtain ⟨_, r₃, h₃, h⟩ := bind_eq_ok.1 h
    obtain ⟨rfl, rfl⟩ := pure_eq_ok.1 h
    have hr₃ := (of_entries h₂).1.trans (leads_advanceOrEnd _ _ _ h₃)
    exact ⟨⟨_, rfl⟩, (leads_advance _ _ _ h₁).trans hr₃,
      Nat.lt_of_le_of_lt hr₃.tokens.length_le (takes_advance _ _ _ h₁)⟩
  | clausesWithText =>
    obtain ⟨t, r₁, h₁, h⟩ := bind_eq_ok.1 h
    obtain ⟨cs, r₂, h₂, h⟩ := bind_eq_ok.1 h
    obtain ⟨rfl, rfl⟩ := pure_eq_ok.1 h
    have hr₂ := (of_clauses h₂).1
    exact ⟨⟨_, rfl⟩, (leads_text _ _ _ _ h₁).trans hr₂,
      Nat.lt_of_le_of_lt hr₂.tokens.length_le (takes_text _ _ _ _ h₁)⟩
  | clausesWithMessage m =>
    obtain ⟨cs, r₁, h₁, h⟩ := bind_eq_ok.1 h
    obtain ⟨rfl, rfl⟩ := pure_eq_ok.1 h
    exact ⟨⟨_, rfl⟩, (of_clauses h₁).1, takes_loop _ (takes_clauseStep size) _ _ _ _ h₁⟩
  | qualifier | restriction | concentricEnd | flag => exact hpart.elim

/-- **A turn of the loop takes a clause**, which adds to the options, or the destinations. -/
theorem arrayPartStep_eq_ok {size : Nat} {o : ArrayOptions}
    {out : ArrayOptions ⊕ (ArrayOptions × ArrayBody)}
    (h : arrayPartStep size o r = .ok (out, rest)) :
    (∃ c o', out = .inl o' ∧ r.tokens.tail = ArrayClause.tokens c ++ rest.tokens.tail ∧
      c.Adds o o') ∨
      ∃ b word more, out = .inr (o, b) ∧ IsEnding word ∧ r.tokens.tail = .word word :: more ∧
        rest.tokens <:+ more := by
  obtain ⟨_, r₁, h₁, h⟩ := bind_eq_ok.1 h
  obtain ⟨word, r₂, h₂, h⟩ := bind_eq_ok.1 h
  obtain ⟨htokens, rfl⟩ := eq_cons_of_symbolHere h₂
  rw [tail_of_advance h₁, htokens]
  cases hw : ArrayPart.ofWord? word with
  | none =>
    rw [hw] at h
    cases h
  | some part =>
    rw [hw] at h
    obtain ⟨out', r₃, h₃, h⟩ := bind_eq_ok.1 h
    cases begins_of_ofWord? hw with
    | qualifier =>
      rw [arrayPart] at h₃
      split at h₃
      · cases h₃
      · rename_i ho
        obtain ⟨bits, r₄, h₄, h₃⟩ := bind_eq_ok.1 h₃
        obtain ⟨rfl, rfl⟩ := pure_eq_ok.1 h₃
        obtain ⟨rfl, rfl⟩ := pure_eq_ok.1 h
        obtain ⟨q, hq, rfl, hone⟩ := qualifier_eq_ok h₄
        exact .inl ⟨.qualifier q, _, rfl, hq, not_not.1 ho, hone, rfl⟩
    | restriction =>
      obtain ⟨⟨strength, code⟩, r₄, h₄, h₃⟩ := bind_eq_ok.1 h₃
      obtain ⟨rfl, rfl⟩ := pure_eq_ok.1 h₃
      obtain ⟨rfl, rfl⟩ := pure_eq_ok.1 h
      obtain ⟨c, hc, rfl, rfl⟩ := restriction_eq_ok h₄
      exact .inl ⟨.restriction c, _, rfl, hc, rfl⟩
    | concentricEnd =>
      cases hfinish : o.finish with
      | concentric _ _ =>
        rw [arrayPart, hfinish] at h₃
        cases h₃
      | plain index =>
        rw [arrayPart, hfinish] at h₃
        simp only at h₃
        split at h₃
        · cases h₃
        · obtain ⟨⟨finish, bits⟩, r₄, h₄, h₃⟩ := bind_eq_ok.1 h₃
          obtain ⟨rfl, rfl⟩ := pure_eq_ok.1 h₃
          obtain ⟨rfl, rfl⟩ := pure_eq_ok.1 h
          obtain ⟨inner, outer, n, hc, hbits⟩ := concentricEnd_eq_ok h₄
          exact .inl ⟨.concentricEnd inner outer n, _, rfl, hc, finish, bits, hbits, rfl⟩
    | @flag _ bits hbits =>
      obtain ⟨rfl, rfl⟩ := pure_eq_ok.1 h₃
      obtain ⟨rfl, rfl⟩ := pure_eq_ok.1 h
      have hzero : bits &&& strengthMask = 0 := by
        unfold ArrayFlags.ofOption? at hbits
        split at hbits <;> cases hbits <;> rfl
      exact .inl ⟨.flag word (hbits ▸ rfl), _, rfl, rfl, o.finish, bits, hzero, rfl⟩
    | destinations hending hpart =>
      -- Destinations take a token at least, so that what is left stands behind their word.
      obtain ⟨⟨b, rfl⟩, hr₃, hlt⟩ := lastPart_eq_ok hpart h₃
      obtain ⟨rfl, rfl⟩ := pure_eq_ok.1 h
      exact .inr ⟨b, word, _, rfl, hending, rfl, hr₃.suffix_tail htokens hlt⟩

/-- **The turns of the loop take clauses**, by induction on them; those before a turn have made
the options that it begins with. -/
theorem arrayParts_eq_ok {size : Nat} {o o' : ArrayOptions} {b : ArrayBody}
    {ht : ∀ o, (arrayPartStep size o).Turns}
    (h : loop (arrayPartStep size) ht o r = .ok ((o', b), rest)) (past : List ArrayClause)
    (ho : AreMade past o) : ∃ cs word more,
      r.tokens.tail = cs.flatMap (·.tokens) ++ .word word :: more ∧ IsEnding word ∧
        rest.tokens <:+ more ∧ AreMade (past ++ cs) o' := by
  refine loop_induct (motive := fun o r p rest => ∀ past, AreMade past o → ∃ cs word more,
    r.tokens.tail = cs.flatMap (·.tokens) ++ .word word :: more ∧ IsEnding word ∧
      rest.tokens <:+ more ∧ AreMade (past ++ cs) p.1) ?_ ?_ h past ho
  · intro o r p rest h past ho
    obtain ⟨_, _, hout, -⟩ | ⟨b, word, more, hout, hending, htokens, hsuffix⟩ :=
      arrayPartStep_eq_ok h
    · cases hout
    · cases hout
      exact ⟨[], word, more, htokens, hending, hsuffix, by rwa [List.append_nil]⟩
  · intro o r o₁ mid p rest h ih past ho
    obtain ⟨c, o₁', hout, htokens, hc⟩ | ⟨_, _, _, hout, -⟩ := arrayPartStep_eq_ok h
    · cases hout
      obtain ⟨cs, word, more, hmid, hending, hsuffix, hmade⟩ := ih _ (ho.concat hc)
      rw [List.append_assoc] at hmade
      refine ⟨c :: cs, word, more, ?_, hending, hsuffix, hmade⟩
      rw [htokens, hmid, List.flatMap_cons, List.append_assoc]
    · cases hout

/-- **An array definition is read from its block.** -/
theorem arrayDef_eq_ok {flags : UInt32} {d : ArrayDef} (h : arrayDef flags r = .ok (d, rest))
    (hsetup : r.tokens.head? = some (.word "setup")) (hflags : flags &&& strengthMask = 0) :
    ∃ (k : ArrayBlock) (more : List Token), r.tokens = k.tokens ++ more ∧
      rest.tokens <:+ more ∧ k.Gives d := by
  obtain ⟨start, r₁, h₁, h⟩ := bind_eq_ok.1 h
  obtain ⟨index, r₂, h₂, h⟩ := bind_eq_ok.1 h
  obtain ⟨-, rfl⟩ := orFail_eq_ok.1 h₂
  obtain ⟨i, r₃, h₃, h⟩ := bind_eq_ok.1 h
  obtain ⟨⟨o, b⟩, r₄, h₄, h⟩ := bind_eq_ok.1 h
  obtain ⟨rfl, rfl⟩ := pure_eq_ok.1 h
  obtain ⟨finish, hfinish⟩ := tail_of_endSetup h₃
  have hnone : AreMade [] { finish := .plain i, flags } :=
    ⟨by simp [ArrayClause.qualifiers], by simp [ArrayClause.qualifiers], rfl, hflags, rfl⟩
  obtain ⟨cs, word, more, htokens, hending, hsuffix, hmade⟩ := arrayParts_eq_ok h₄ [] hnone
  refine ⟨⟨start, finish, cs, word, hending⟩, more, ?_, hsuffix, hmade.gives rfl rfl rfl⟩
  rw [List.eq_cons_of_mem_head? hsetup, tail_of_symbol h₁, hfinish, htokens]
  simp [ArrayBlock.tokens]

/-! ### Groups -/

/-- The flags that stand before setups are not for strengths. -/
theorem strength_of_arrayFlags {flags : UInt32} (h : arrayFlags r = .ok (flags, rest)) :
    r.Reaches rest ∧ flags &&& strengthMask = 0 := by
  refine of_arrayFlags_and h fun word bits hw => ?_
  unfold ArrayFlags.ofWord? at hw
  split at hw <;> cases hw <;> rfl

/-- Flags that stand before setups have no bits of a strength. -/
theorem StandBefore.strength {flags : UInt32} (h : StandBefore flags) :
    flags &&& strengthMask = 0 := by
  obtain rfl | ⟨r, rest, h⟩ := h
  · exact UInt32.zero_and
  · exact (strength_of_arrayFlags h).2

/-- An array definition is read from one block. -/
theorem between_arrayDef {flags : UInt32} {d : ArrayDef} (h : arrayDef flags r = .ok (d, rest))
    (hsetup : r.tokens.head? = some (.word "setup")) (hflags : flags &&& strengthMask = 0) :
    Between IsBlockOf r [d] rest := by
  obtain ⟨k, more, htokens, hsuffix, hk⟩ := arrayDef_eq_ok h hsetup hflags
  intro ds hds
  rw [htokens]
  exact .passage ⟨k, rfl, hk⟩ (hds.of_suffix hsuffix)

/-- **The turns of the loop take blocks**, by induction on them. -/
theorem between_arrayItems {p : ArrayProgress} {items : List ArrayItem}
    {ht : ∀ p, (arrayStep p).Turns} (hsetup : r.tokens.head? = some (.word "setup"))
    (hflags : p.flags &&& strengthMask = 0) (h : loop arrayStep ht p r = .ok (items, rest)) :
    ∃ row, items = p.items.reverse ++ row ∧
      Between IsBlockOf r (row.filterMap ArrayGroup.def?) rest := by
  refine loop_induct (motive := fun p r items rest => r.tokens.head? = some (.word "setup") →
    p.flags &&& strengthMask = 0 → ∃ row, items = p.items.reverse ++ row ∧
      Between IsBlockOf r (row.filterMap ArrayGroup.def?) rest) ?_ ?_ h hsetup hflags
  · intro p r items rest h hsetup hflags
    obtain ⟨d, mid, hd, hr, hout | ⟨_, hout, -⟩⟩ := of_arrayStep h
    · cases hout
      exact ⟨[.member d], by simp, (between_arrayDef hd hsetup hflags).reaches hr⟩
    · cases hout
  · intro p r p₁ mid' items rest h ih hsetup hflags
    obtain ⟨d, mid, hd, hr, hout | ⟨p', hout, hsetup', hflags', hitems⟩⟩ := of_arrayStep h
    · cases hout
    · cases hout
      obtain ⟨row, rfl, hrow⟩ := ih hsetup' hflags'.strength
      have hall := ((between_arrayDef hd hsetup hflags).reaches hr).append hrow
      obtain hitems | ⟨a, hitems⟩ := hitems
      · exact ⟨.member d :: row, by simp [hitems], hall⟩
      · exact ⟨.member d :: .header a :: row, by simp [hitems], hall⟩

/-- The array definitions of a body are read from one block each. -/
theorem between_arrayGroups {flags : UInt32} {groups : List ArrayGroup}
    (h : arrayGroups flags r = .ok (groups, rest))
    (hsetup : r.tokens.head? = some (.word "setup")) (hflags : flags &&& strengthMask = 0) :
    Between IsBlockOf r (groups.flatMap (·.defs)) rest := by
  obtain ⟨items, r₁, h₁, h⟩ := bind_eq_ok.1 h
  obtain ⟨rfl, rfl⟩ := pure_eq_ok.1 h
  obtain ⟨row, hitems, hrow⟩ := between_arrayItems hsetup hflags h₁
  obtain rfl : items = row := hitems
  rwa [ArrayGroup.flatMap_defs_ofItems]

/-! ### Bodies -/

/-- Only the word for setups has a schema of arrays. -/
theorem eq_setup_of_kind {word : String} {schema : Schema}
    (h : Schema.ofName? word = some schema) (hkind : schema.kind = .array) : word = "setup" := by
  obtain ⟨i, hi, hschema⟩ := Option.bind_eq_some_iff.1 h
  have hindex : schema.index = i := by
    unfold Schema.ofIndex? at hschema
    split at hschema <;> cases hschema
    rfl
  have harray : schema.index = 128 := by
    unfold Schema.kind at hkind
    split at hkind <;> first | assumption | cases hkind
  have hword := Vocabulary.getElem?_of_index? hi
  rw [← hindex, harray] at hword
  exact (Option.some.inj hword).symm

/-- A definition without arrays is read from no block, and one with arrays from one for each. -/
theorem between_definition {flags : CallFlags} {aflags : UInt32} {isTagged : Bool}
    {k : SchemaKind} {d : Definition} (h : definition flags aflags isTagged k r = .ok (d, rest))
    (hsetup : k = .array → r.tokens.head? = some (.word "setup"))
    (hflags : aflags &&& strengthMask = 0) (hfree : FreeFlags aflags) :
    Between IsBlockOf r d.arrayDefs rest := by
  have hr := reaches_definition h hfree
  cases k with
  | array =>
    obtain ⟨groups, r₁, h₁, h⟩ := bind_eq_ok.1 h
    obtain ⟨rfl, rfl⟩ := pure_eq_ok.1 h
    exact between_arrayGroups h₁ (hsetup rfl) hflags
  -- The other definitions have no arrays, and only lead on.
  | nothing =>
    obtain ⟨_, r₁, h₁, h⟩ := bind_eq_ok.1 h
    obtain ⟨rfl, rfl⟩ := pure_eq_ok.1 h
    exact .of_reaches hr
  | matrix | partnerMatrix =>
    obtain ⟨-, _, _, rfl, -⟩ := of_matrices h
    exact .of_reaches hr
  | sequential =>
    obtain ⟨ps, r₁, h₁, h⟩ := bind_eq_ok.1 h
    obtain ⟨rfl, rfl⟩ := pure_eq_ok.1 h
    exact .of_reaches hr
  | concentric =>
    obtain ⟨inner, r₁, h₁, h⟩ := bind_eq_ok.1 h
    obtain ⟨outer, r₂, h₂, h⟩ := bind_eq_ok.1 h
    obtain ⟨_, r₃, h₃, h⟩ := bind_eq_ok.1 h
    obtain ⟨rfl, rfl⟩ := pure_eq_ok.1 h
    exact .of_reaches hr
  | sameAs =>
    rw [definition] at h
    split at h
    · cases h
    · obtain ⟨word, r₁, h₁, h⟩ := bind_eq_ok.1 h
      obtain ⟨tag, r₂, h₂, h⟩ := bind_eq_ok.1 h
      obtain ⟨_, r₃, h₃, h⟩ := bind_eq_ok.1 h
      obtain ⟨rfl, rfl⟩ := pure_eq_ok.1 h
      exact .of_reaches hr

/-- **A body has the blocks of its definitions.** -/
theorem between_body : BodiesHave IsBlockOf (·.definition.arrayDefs) := by
  intro isTagged r b rest h
  obtain ⟨flags, r₁, h₁, h⟩ := bind_eq_ok.1 h
  obtain ⟨aflags, r₂, h₂, h⟩ := bind_eq_ok.1 h
  obtain ⟨word, r₃, h₃, h⟩ := bind_eq_ok.1 h
  obtain ⟨hword, rfl⟩ := symbolHere_eq_ok h₃
  obtain ⟨schema, r₄, h₄, h⟩ := bind_eq_ok.1 h
  obtain ⟨hschema, rfl⟩ := orFail_eq_ok.1 h₄
  split at h
  · cases h
  · obtain ⟨d, r₅, h₅, h⟩ := bind_eq_ok.1 h
    obtain ⟨rfl, rfl⟩ := pure_eq_ok.1 h
    obtain ⟨hr₂, hflags⟩ := strength_of_arrayFlags h₂
    refine (Between.of_reaches ((leads_callFlags _ _ _ h₁).trans hr₂)).append ?_
    exact between_definition h₅ (fun hkind => eq_setup_of_kind hschema hkind ▸ hword) hflags
      (of_arrayFlags h₂).2

end Parser

/-- **Each array definition has what the clauses of its block give.**  The definitions of a text
that can be read come from blocks of the text, in order and each from one of its own.  Of the
strengths, names of restrictions and numbers, a definition has what one clause of its block says,
unless the block repeats them; it has one qualifier, unless that follows a bare `none`; and
T-bone signs are never mixed. -/
theorem arrays_of_parse {tokens : List Token} {failure : Option LexError} {b : CallBook}
    {tags : TagTable Nat} (h : parse tokens failure = .ok (b, tags)) :
    StandIn IsBlockOf tokens (b.calls.flatMap (·.arrayDefs)) :=
  standIn_of_parse Parser.between_body h

/-- A text with one call and one array definition, of which all but the destinations is given. -/
def blockTokens (k : ArrayBlock) : List Token :=
  [.word "version", .text "1", .word "call", .text "pass", .word "plus"] ++ k.tokens ++
    [.leftBracket, .word "1N", .word "0S", .rightBracket]

/-- What is known of the one definition of such a text by reading it. -/
theorem exists_of_blockTokens {k : ArrayBlock} {p : ArrayDef → Bool}
    (h : ((parse (blockTokens k) none).toOption.map fun m =>
      isOnly p (m.1.calls.flatMap (·.arrayDefs))) = some true) :
    ∃ b tags d, parse (blockTokens k) none = .ok (b, tags) ∧
      b.calls.flatMap (·.arrayDefs) = [d] ∧ p d = true :=
  exists_of_parse _ (fun b => b.calls.flatMap (·.arrayDefs)) h

/-- A block with a clause of each kind that has a code. -/
def plainBlock : ArrayBlock where
  start := "1x2"
  finish := "1x2"
  clauses :=
    [.qualifier ⟨[.word "tbone" .tBone rfl (by decide), .number 2 (by decide)],
      ⟨"wave_only", 3, by decide +kernel⟩⟩,
     .restriction ⟨some "unusual", by decide, ⟨"couples_only", 14, by decide +kernel⟩⟩]
  ending := "array"
  isEnding := by decide

/-- A block with one clause of each kind gives what its clauses say. -/
theorem arrays_of_parse_plainBlock : ∃ b tags d,
    parse (blockTokens plainBlock) none = .ok (b, tags) ∧ b.calls.flatMap (·.arrayDefs) = [d] ∧
      (d.qualifier = 0x2303 ∧ d.flags = 0x10 ∧ d.restriction = 14) ∧
        StandIn IsBlockOf (blockTokens plainBlock) [d] := by
  obtain ⟨b, tags, d, hparse, hd, hfields⟩ := exists_of_blockTokens (k := plainBlock)
    (p := fun d => d.qualifier = 0x2303 ∧ d.flags = 0x10 ∧ d.restriction = 14) (by decide +kernel)
  exact ⟨b, tags, d, hparse, hd, of_decide_eq_true hfields, hd ▸ arrays_of_parse hparse⟩

/-- A block with a qualifier behind a bare one, two numbers, and two restrictions. -/
def mixedBlock : ArrayBlock where
  start := "1x2"
  finish := "1x2"
  clauses :=
    [.qualifier ⟨[], ⟨"none", 0, by decide +kernel⟩⟩,
     .qualifier ⟨[.number 0 (by decide), .number 1 (by decide)],
      ⟨"wave_only", 3, by decide +kernel⟩⟩,
     .restriction ⟨some "unusual", by decide, ⟨"wave_only", 3, by decide +kernel⟩⟩,
     .restriction ⟨some "forbidden", by decide, ⟨"couples_only", 14, by decide +kernel⟩⟩]
  ending := "array"
  isEnding := by decide

/-- **Repeated clauses make what no clause says.**  There are two qualifiers; unusual and forbidden
make that a definition is good for resolving, and the numbers 0 and 1 make 2. -/
theorem arrays_mixedBlock : ∃ b tags d,
    parse (blockTokens mixedBlock) none = .ok (b, tags) ∧ b.calls.flatMap (·.arrayDefs) = [d] ∧
      ¬ mixedBlock.qualifiers.length ≤ 1 ∧
        (¬ mixedBlock.RestrictionIsIn d ∧ d.flags &&& strengthMask = ArrayFlags.resolveOk) ∧
          ¬ mixedBlock.NumberIsIn d ∧ d.qualifier &&& numberMask = numberBits 2 := by
  obtain ⟨b, tags, d, hparse, hd, hmixed⟩ := exists_of_blockTokens (k := mixedBlock)
    (p := fun d => ¬ mixedBlock.qualifiers.length ≤ 1 ∧
      (¬ mixedBlock.RestrictionIsIn d ∧ d.flags &&& strengthMask = ArrayFlags.resolveOk) ∧
        ¬ mixedBlock.NumberIsIn d ∧ d.qualifier &&& numberMask = numberBits 2) (by decide +kernel)
  exact ⟨b, tags, d, hparse, hd, of_decide_eq_true hmixed⟩

end CallText
end SquareDance
