/-
# What the parts of a definition give

Lists are read as long as they go on, the newest first; what each turn finds of them
is what they are made of: `Parser.of_collect`.  So rows have the entries that they
should have, predicates are listed, and flags and qualifiers have no bit that belongs
to something else.
-/

import SquareDance.Proofs.CallBook.WellFormed
import SquareDance.Proofs.CallBook.Words
import SquareDance.Proofs.CallText.Reading

namespace SquareDance

open CallBook (clausesFlag concentricFlag arrayFlagsOverflow)

/-! ### Words and their numbers -/

namespace Vocabulary

/-- The word of a number is the one that it was found for. -/
theorem getElem?_of_index? {table : Vocabulary} {word : String} {i : Nat}
    (h : table.index? word = some i) : table[i]? = some word := by
  unfold index? at h
  split at h
  · cases h
  · obtain ⟨hlt, hword, -⟩ := List.idxOf?_eq_some_iff.1 h
    rw [List.getElem?_eq_getElem hlt, hword]

/-- A word of a vocabulary has a number of it. -/
theorem lt_of_index? {table : Vocabulary} {word : String} {i : Nat}
    (h : table.index? word = some i) : i < table.length :=
  (List.getElem?_eq_some_iff.1 (getElem?_of_index? h)).1

/-- The empty word is found in no vocabulary. -/
theorem ne_empty_of_index? {table : Vocabulary} {word : String} {i : Nat}
    (h : table.index? word = some i) : word ≠ "" := by
  rintro rfl
  cases h

end Vocabulary

/-- **A destination that is spelled can be packed**, and has no second coordinate. -/
theorem Destination.of_ofText {s : String} {d : Destination} (h : ofText s = .ok d) :
    isValidPosition d.position.toNat = true ∧ d.y = none := by
  unfold ofText at h
  simp only at h
  split at h
  · split at h
    · cases h
    · rename_i hvalid
      split at h
      · cases h
        have hvalid : isValidPosition (digitsValue (s.toList.map Char.toUpper)) = true := by
          simpa using hvalid
        have hlt : digitsValue (s.toList.map Char.toUpper) < 256 := by
          simp only [isValidPosition, Bool.or_eq_true, Bool.and_eq_true, decide_eq_true_eq]
            at hvalid
          omega
        refine ⟨?_, rfl⟩
        rw [UInt8.toNat_ofNat_of_lt' hlt]
        exact hvalid
      · cases h
  · cases h

/-! ### Flags and qualifiers -/

/-- Flags of an array definition that nothing else implies, and that have room. -/
def FreeFlags (flags : UInt32) : Prop :=
  flags &&& arrayFlagsOverflow = 0 ∧ flags &&& clausesFlag = 0 ∧ flags &&& concentricFlag = 0

instance (flags : UInt32) : Decidable (FreeFlags flags) := inferInstanceAs (Decidable (_ ∧ _))

namespace FreeFlags

/-- Flags that are free are so together. -/
theorem or {f g : UInt32} (hf : FreeFlags f) (hg : FreeFlags g) : FreeFlags (f ||| g) := by
  obtain ⟨f₁, f₂, f₃⟩ := hf
  obtain ⟨g₁, g₂, g₃⟩ := hg
  unfold FreeFlags
  rw [UInt32.or_and_distrib, UInt32.or_and_distrib, UInt32.or_and_distrib, f₁, f₂, f₃, g₁, g₂, g₃]
  decide

/-- The flags that stand before setups are free. -/
theorem of_ofWord? {word : String} {bits : UInt32} (h : ArrayFlags.ofWord? word = some bits) :
    FreeFlags bits := by
  unfold ArrayFlags.ofWord? at h
  split at h <;> cases h <;> decide

/-- The flags for the strength of a restriction are free. -/
theorem of_strengthOfWord? {word : String} {bits : UInt32}
    (h : ArrayFlags.strengthOfWord? word = some bits) : FreeFlags bits := by
  unfold ArrayFlags.strengthOfWord? at h
  split at h <;> cases h <;> decide

/-- The flags for options of a definition are free. -/
theorem of_ofOption? {word : String} {bits : UInt32}
    (h : ArrayFlags.ofOption? word = some bits) : FreeFlags bits := by
  unfold ArrayFlags.ofOption? at h
  split at h <;> cases h <;> decide

end FreeFlags

namespace Qualifier

/-- Two qualifiers that fit the field do so together. -/
theorem or_lt {a b : UInt32} (ha : a.toNat < 2 ^ 17) (hb : b.toNat < 2 ^ 17) :
    (a ||| b).toNat < 2 ^ 17 := by
  rw [UInt32.toNat_or]
  exact Nat.or_lt_two_pow ha hb

/-- A sign that is added leaves a qualifier that fits the field. -/
theorem addSign_lt {bits bits' : UInt32} {sign : Sign} (hb : bits.toNat < 2 ^ 17)
    (h : addSign bits sign = .ok bits') : bits'.toNat < 2 ^ 17 := by
  cases sign <;> unfold addSign at h
  case left | right | live =>
    cases h
    exact or_lt hb (by decide)
  case tBone | notTBone | explicit =>
    simp only at h
    split at h
    · cases h
    · cases h
      exact or_lt hb (by decide)
  case number =>
    cases h
    exact hb

/-- A number that is added leaves a qualifier that fits the field. -/
theorem addNumber_lt {bits bits' n : UInt32} (hb : bits.toNat < 2 ^ 17)
    (h : addNumber bits n = .ok bits') : bits'.toNat < 2 ^ 17 := by
  unfold addNumber at h
  split at h
  · cases h
  · rename_i hn
    cases h
    have hn : n.toNat ≤ 14 := Nat.not_lt.1 hn
    refine or_lt hb ?_
    rw [UInt32.toNat_mul, UInt32.toNat_add]
    show (n.toNat + 1) % 2 ^ 32 * 256 % 2 ^ 32 < 2 ^ 17
    omega

end Qualifier

namespace CallText

namespace FlagWord

/-- The flags of bodies with names of their own. -/
def specialWords : List String :=
  ["step_to_nonphantom_box", "rear_back_from_wave_or_qtag", "step_to_qtag", "visible_fractions",
   "last_part_visible", "first_and_last_parts_visible", "need_three_numbers",
   "optional_special_number", "base_tag_call_2", "yoyo_is_inherited", "gen_sting_is_inherited",
   "mxn_is_inherited", "nxn_is_inherited", "bigmatrix_is_inherited", "revert_is_inherited"]

/-- A word with a flag of its own is one of those listed. -/
theorem mem_specialWords {w : String} {flag : FlagWord} (h : ofSpecialWord? w = some flag) :
    w ∈ specialWords := by
  unfold ofSpecialWord? at h
  split at h <;> first | (cases h; done) | simp [specialWords]

end FlagWord

namespace Parser

open Consumer

variable {α : Type} {r rest : Reading}

/-! ### Lists -/

/-- **What each turn finds is what the list is made of.**  A turn of the loop finds one
more thing, or the end.  `P` may speak of the tags so far, which only become more, and `I`
of what is kept while tags are added. -/
theorem of_collect {step : List α → Parser (List α ⊕ List α)} {ht : ∀ xs, (step xs).Turns}
    {I : Reading → Prop} {P : Reading → α → Prop} (keep : ∀ r r', Reading.Reaches r r' → I r → I r')
    (mono : ∀ r r' x, Reading.Reaches r r' → P r x → P r' x)
    (hs : ∀ acc r out rest, I r → step acc r = .ok (out, rest) → r.Reaches rest ∧
      ((∃ x, out = .inl (x :: acc) ∧ P rest x) ∨ out = .inr acc.reverse))
    {acc xs : List α} (hI : I r) (h : loop step ht acc r = .ok (xs, rest)) :
    r.Reaches rest ∧ ∃ ys, xs = acc.reverse ++ ys ∧ ∀ x ∈ ys, P rest x := by
  refine loop_induct (motive := fun acc r xs rest => I r → r.Reaches rest ∧
    ∃ ys, xs = acc.reverse ++ ys ∧ ∀ x ∈ ys, P rest x) ?_ ?_ h hI
  · intro acc r xs rest h hI
    obtain ⟨hr, ⟨x, ho, -⟩ | ho⟩ := hs _ _ _ _ hI h
    · cases ho
    · cases ho
      exact ⟨hr, [], by simp, by simp⟩
  · intro acc r acc' mid xs rest h ih hI
    obtain ⟨hr, ⟨x, ho, hx⟩ | ho⟩ := hs _ _ _ _ hI h
    · cases ho
      obtain ⟨hrest, ys, rfl, hys⟩ := ih (keep _ _ hr hI)
      refine ⟨hr.trans hrest, x :: ys, by simp, ?_⟩
      exact List.forall_mem_cons.2 ⟨mono _ _ _ hrest hx, hys⟩
    · cases ho

/-! ### Entries and clauses -/

/-- A second coordinate is read from the front. -/
theorem leads_offset : Leads offset :=
  (leads_number _).bind fun _ => by
    split
    · exact .pure _
    · exact leads_fail _

/-- **An entry can be packed**, and has a second coordinate just in a matrix. -/
theorem of_entryHere? {matrix : Bool} {out : Option Entry}
    (h : entryHere? matrix r = .ok (out, rest)) :
    r.Reaches rest ∧ ∀ e, out = some e → e.IsPacked matrix := by
  obtain ⟨t, r₁, h₁, h⟩ := bind_eq_ok.1 h
  obtain ⟨-, rfl⟩ := current?_eq_ok.1 h₁
  split at h
  · obtain ⟨rfl, rfl⟩ := pure_eq_ok.1 h
    exact ⟨.refl _, by simp⟩
  · obtain ⟨rfl, rfl⟩ := pure_eq_ok.1 h
    refine ⟨.refl _, fun e he => ?_⟩
    cases he
    trivial
  · rename_i s
    obtain ⟨d, r₂, h₂, h⟩ := bind_eq_ok.1 h
    obtain ⟨hd, rfl⟩ := accepted_eq_ok.1 h₂
    have hd : Destination.ofText s = .ok d := by
      cases ho : Destination.ofText s with
      | error e =>
        rw [ho] at hd
        cases hd
      | ok d' =>
        rw [ho] at hd
        cases hd
        rfl
    obtain ⟨hp, hy⟩ := Destination.of_ofText hd
    cases matrix with
    | true =>
      obtain ⟨y, r₃, h₃, h⟩ := bind_eq_ok.1 h
      obtain ⟨rfl, rfl⟩ := pure_eq_ok.1 h
      refine ⟨leads_offset _ _ _ h₃, fun e he => ?_⟩
      cases he
      exact ⟨hp, rfl⟩
    | false =>
      obtain ⟨rfl, rfl⟩ := pure_eq_ok.1 h
      refine ⟨.refl _, fun e he => ?_⟩
      cases he
      exact ⟨hp, by rw [hy]; rfl⟩
  · cases h

/-- A turn of the loop finds an entry, or the closing bracket. -/
theorem of_entryStep {matrix : Bool} {before : List Entry} {out : List Entry ⊕ List Entry}
    (h : entryStep matrix before r = .ok (out, rest)) : r.Reaches rest ∧
      ((∃ e, out = .inl (e :: before) ∧ e.IsPacked matrix) ∨ out = .inr before.reverse) := by
  obtain ⟨_, r₁, h₁, h⟩ := bind_eq_ok.1 h
  obtain ⟨found, r₂, h₂, h⟩ := bind_eq_ok.1 h
  obtain ⟨hr₂, he⟩ := of_entryHere? h₂
  have hr := (leads_advance _ _ _ h₁).trans hr₂
  cases found with
  | none =>
    obtain ⟨rfl, rfl⟩ := pure_eq_ok.1 h
    exact ⟨hr, .inr rfl⟩
  | some e =>
    obtain ⟨rfl, rfl⟩ := pure_eq_ok.1 h
    exact ⟨hr, .inl ⟨e, rfl, he e rfl⟩⟩

/-- **A row has the entries that it should have.** -/
theorem of_entries {count : Nat} {matrix : Bool} {es : List Entry}
    (h : entries count matrix r = .ok (es, rest)) :
    r.Reaches rest ∧ Entry.AreRow matrix count es := by
  obtain ⟨_, r₁, h₁, h⟩ := bind_eq_ok.1 h
  obtain rfl := isAt_eq_ok h₁
  split at h
  · cases h
  · obtain ⟨es', r₂, h₂, h⟩ := bind_eq_ok.1 h
    obtain ⟨hr, ys, hys, hpacked⟩ := of_collect (I := fun _ => True)
      (P := fun _ e => e.IsPacked matrix) (fun _ _ _ h => h) (fun _ _ _ _ h => h)
      (fun _ _ _ _ _ => of_entryStep) trivial h₂
    split at h
    · rename_i hlen
      obtain ⟨rfl, rfl⟩ := pure_eq_ok.1 h
      obtain rfl : es' = ys := hys
      exact ⟨hr, hlen, hpacked⟩
    · cases h

/-- A turn of the loop finds a clause, or something else. -/
theorem of_clauseStep {size : Nat} {before : List Clause} {out : List Clause ⊕ List Clause}
    (h : clauseStep size before r = .ok (out, rest)) : r.Reaches rest ∧
      ((∃ c, out = .inl (c :: before) ∧ c.predicate ∈ Predicate.all ∧
        Entry.AreRow false size c.entries) ∨ out = .inr before.reverse) := by
  obtain ⟨_, r₁, h₁, h⟩ := bind_eq_ok.1 h
  have hr₁ := leads_advanceOrEnd _ _ _ h₁
  obtain ⟨_, r₂, h₂, h⟩ := bind_eq_ok.1 h
  obtain rfl := isAt_eq_ok h₂
  split at h
  · obtain ⟨word, r₃, h₃, h⟩ := bind_eq_ok.1 h
    obtain ⟨p, r₄, h₄, h⟩ := bind_eq_ok.1 h
    obtain ⟨hp, rfl⟩ := orFail_eq_ok.1 h₄
    obtain ⟨_, r₅, h₅, h⟩ := bind_eq_ok.1 h
    obtain ⟨es, r₆, h₆, h⟩ := bind_eq_ok.1 h
    obtain ⟨rfl, rfl⟩ := pure_eq_ok.1 h
    obtain ⟨hr₆, hrow⟩ := of_entries h₆
    refine ⟨hr₁.trans ((leads_symbol _ _ _ _ h₃).trans ((leads_advance _ _ _ h₅).trans hr₆)),
      .inl ⟨_, rfl, List.mem_of_find?_eq_some hp, hrow⟩⟩
  · obtain ⟨rfl, rfl⟩ := pure_eq_ok.1 h
    exact ⟨hr₁, .inr rfl⟩

/-- **Clauses have listed predicates and whole rows.** -/
theorem of_clauses {size : Nat} {cs : List Clause} (h : clauses size r = .ok (cs, rest)) :
    r.Reaches rest ∧ ∀ c ∈ cs, c.predicate ∈ Predicate.all ∧ Entry.AreRow false size c.entries := by
  obtain ⟨hr, ys, hys, hclauses⟩ := of_collect (I := fun _ => True) (P := fun _ (c : Clause) =>
    c.predicate ∈ Predicate.all ∧ Entry.AreRow false size c.entries) (fun _ _ _ h => h)
    (fun _ _ _ _ h => h) (fun _ _ _ _ _ => of_clauseStep) trivial h
  obtain rfl : cs = ys := hys
  exact ⟨hr, hclauses⟩

/-! ### Flags, qualifiers and restrictions -/

/-- **The flags before the setups have no bits but those of flag words.** -/
theorem of_arrayFlags_and {flags m : UInt32} (h : arrayFlags r = .ok (flags, rest))
    (hm : ∀ word bits, ArrayFlags.ofWord? word = some bits → bits &&& m = 0) :
    r.Reaches rest ∧ flags &&& m = 0 := by
  refine of_loop (I := (· &&& m = 0)) (J := (· &&& m = 0)) (fun flags r out rest hflags h => ?_)
    UInt32.zero_and h
  obtain ⟨word, r₁, h₁, h⟩ := bind_eq_ok.1 h
  obtain ⟨-, rfl⟩ := symbolHere_eq_ok h₁
  cases hw : ArrayFlags.ofWord? word with
  | none =>
    rw [hw] at h
    obtain ⟨rfl, rfl⟩ := pure_eq_ok.1 h
    exact ⟨.refl _, .inr ⟨flags, rfl, hflags⟩⟩
  | some bits =>
    rw [hw] at h
    obtain ⟨_, r₂, h₂, h⟩ := bind_eq_ok.1 h
    obtain ⟨rfl, rfl⟩ := pure_eq_ok.1 h
    refine ⟨leads_advance _ _ _ h₂, .inl ⟨_, rfl, ?_⟩⟩
    rw [UInt32.or_and_distrib, hflags, hm word bits hw, UInt32.or_zero]

/-- **The flags before the setups are free.** -/
theorem of_arrayFlags {flags : UInt32} (h : arrayFlags r = .ok (flags, rest)) :
    r.Reaches rest ∧ FreeFlags flags := by
  obtain ⟨hr, hoverflow⟩ := of_arrayFlags_and h fun _ _ hw => (FreeFlags.of_ofWord? hw).1
  obtain ⟨-, hclauses⟩ := of_arrayFlags_and h fun _ _ hw => (FreeFlags.of_ofWord? hw).2.1
  obtain ⟨-, hconcentric⟩ := of_arrayFlags_and h fun _ _ hw => (FreeFlags.of_ofWord? hw).2.2
  exact ⟨hr, hoverflow, hclauses, hconcentric⟩

/-- A turn of the loop adds a sign or a number to a qualifier, or finds its name. -/
theorem of_qualifierStep {bits : UInt32} {out : UInt32 ⊕ UInt32} (hb : bits.toNat < 2 ^ 17)
    (h : qualifierStep bits r = .ok (out, rest)) : r.Reaches rest ∧
      ((∃ bits', out = .inl bits' ∧ bits'.toNat < 2 ^ 17) ∨
        ∃ bits', out = .inr bits' ∧ bits'.toNat < 2 ^ 17) := by
  obtain ⟨word, r₁, h₁, h⟩ := bind_eq_ok.1 h
  obtain rfl := symbol?_eq_ok h₁
  cases hw : word.bind Qualifier.Sign.ofWord? with
  | none =>
    rw [hw] at h
    obtain ⟨rfl, rfl⟩ := pure_eq_ok.1 h
    exact ⟨.refl _, .inr ⟨bits, rfl, hb⟩⟩
  | some sign =>
    rw [hw] at h
    cases sign with
    | number =>
      obtain ⟨n, r₂, h₂, h⟩ := bind_eq_ok.1 h
      obtain ⟨bits', r₃, h₃, h⟩ := bind_eq_ok.1 h
      obtain ⟨hn, rfl⟩ := accepted_eq_ok.1 h₃
      obtain ⟨_, r₄, h₄, h⟩ := bind_eq_ok.1 h
      obtain ⟨rfl, rfl⟩ := pure_eq_ok.1 h
      exact ⟨(leads_number _ _ _ _ h₂).trans (leads_advance _ _ _ h₄),
        .inl ⟨bits', rfl, Qualifier.addNumber_lt hb hn⟩⟩
    | left | right | live | tBone | notTBone | explicit =>
      obtain ⟨bits', r₂, h₂, h⟩ := bind_eq_ok.1 h
      obtain ⟨hsign, rfl⟩ := accepted_eq_ok.1 h₂
      obtain ⟨_, r₃, h₃, h⟩ := bind_eq_ok.1 h
      obtain ⟨rfl, rfl⟩ := pure_eq_ok.1 h
      exact ⟨leads_advance _ _ _ h₃, .inl ⟨bits', rfl, Qualifier.addSign_lt hb hsign⟩⟩

/-- **A qualifier has room in its field.** -/
theorem of_qualifier {q : UInt32} (h : qualifier r = .ok (q, rest)) :
    r.Reaches rest ∧ q.toNat < 2 ^ 17 := by
  obtain ⟨_, r₁, h₁, h⟩ := bind_eq_ok.1 h
  obtain ⟨bits, r₂, h₂, h⟩ := bind_eq_ok.1 h
  obtain ⟨word, r₃, h₃, h⟩ := bind_eq_ok.1 h
  obtain ⟨-, rfl⟩ := symbolHere_eq_ok h₃
  obtain ⟨code, r₄, h₄, h⟩ := bind_eq_ok.1 h
  obtain ⟨hcode, rfl⟩ := orFail_eq_ok.1 h₄
  obtain ⟨rfl, rfl⟩ := pure_eq_ok.1 h
  obtain ⟨hr, hlt⟩ := of_loop (fun _ _ _ _ => of_qualifierStep)
    (show (0 : UInt32).toNat < 2 ^ 17 by decide) h₂
  have hlen : Qualifier.table.length < 2 ^ 17 := by decide +kernel
  have hlt' := Vocabulary.lt_of_index? hcode
  have hcode' : (UInt32.ofNat code).toNat < 2 ^ 17 := by
    rw [UInt32.toNat_ofNat_of_lt' (show code < 4294967296 by omega)]
    omega
  exact ⟨(leads_advance _ _ _ h₁).trans hr, Qualifier.or_lt hlt hcode'⟩

/-- **The flag of a restriction is free.** -/
theorem of_restriction {strength : UInt32} {code : UInt8}
    (h : restriction r = .ok ((strength, code), rest)) :
    r.Reaches rest ∧ FreeFlags strength := by
  obtain ⟨first, r₁, h₁, h⟩ := bind_eq_ok.1 h
  have hr₁ := leads_symbol _ _ _ _ h₁
  cases hw : ArrayFlags.strengthOfWord? first with
  | some bits =>
    rw [hw] at h
    obtain ⟨word, r₂, h₂, h⟩ := bind_eq_ok.1 h
    obtain ⟨code, r₃, h₃, h⟩ := bind_eq_ok.1 h
    obtain ⟨-, rfl⟩ := orFail_eq_ok.1 h₃
    obtain ⟨hp, rfl⟩ := pure_eq_ok.1 h
    cases hp
    exact ⟨hr₁.trans (leads_symbol _ _ _ _ h₂), .of_strengthOfWord? hw⟩
  | none =>
    rw [hw] at h
    obtain ⟨code, r₂, h₂, h⟩ := bind_eq_ok.1 h
    obtain ⟨-, rfl⟩ := orFail_eq_ok.1 h₂
    obtain ⟨hp, rfl⟩ := pure_eq_ok.1 h
    cases hp
    exact ⟨hr₁, by decide⟩

end Parser
end CallText
end SquareDance
