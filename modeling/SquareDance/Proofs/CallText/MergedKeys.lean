/-
# Keys of alternate definitions

An alternate definition is for people who were told certain modifiers.  Its keys name them:

    alternate_definition [single reflect 3x1 revert] plus

Keys are merged into one word, one after another.  Two of them clash if they have a bit in common
or are of one exclusive group, and a key that clashes with any before it is refused.  Clashing does
not depend on which of the two comes first (`Heritable.Clash`).  Only revert and reflect do: they
are composed in their order.  So what a list of keys is merged to is known from its other keys, in
any order, and from the row of its steps: `mergeAll_eq_some_iff`.  Main statement:
`mergeAll_isConsistent`.
-/

import Mathlib.Data.List.Induction
import SquareDance.Proofs.CallText.Bracketed
import SquareDance.Proofs.CallText.Clauses

namespace SquareDance

/-! ### Words with what they stand for -/

namespace Words

open Heritable

variable {word : String} {bits : UInt32}

/-- The words of a vocabulary of bits, each with its bit. -/
def bitEntries (singles : Vocabulary) : List (String × UInt32) :=
  singles.zipIdx.map fun p => (p.1, bit p.2)

/-- The words of a family of codes, each with its code. -/
def codeEntries (family : Vocabulary) (unit : UInt32) : List (String × UInt32) :=
  family.zipIdx.map fun p => (p.1, unit * (UInt32.ofNat p.2 + 1))

/-- A word of a vocabulary of bits is listed with its bit. -/
theorem mem_bitEntries {singles : Vocabulary} (h : (singles.index? word).map bit = some bits) :
    (word, bits) ∈ bitEntries singles := by
  obtain ⟨i, hi, rfl⟩ := Option.map_eq_some_iff.1 h
  have hmem := List.mk_mem_zipIdx_iff_getElem?.2 (Vocabulary.getElem?_of_index? hi)
  exact List.mem_map.2 ⟨_, hmem, rfl⟩

/-- A word of a family of codes is listed with its code. -/
theorem mem_codeEntries {family : Vocabulary} {unit : UInt32}
    (h : codeBits? family unit word = some bits) : (word, bits) ∈ codeEntries family unit := by
  obtain ⟨i, hi, rfl⟩ := Option.map_eq_some_iff.1 h
  have hmem := List.mk_mem_zipIdx_iff_getElem?.2 (Vocabulary.getElem?_of_index? hi)
  exact List.mem_map.2 ⟨_, hmem, rfl⟩

/-- The words for heritable modifiers: single bits, and four families of codes. -/
def heritableEntries (singles yoyos mxns nxns reverts : Vocabulary) : List (String × UInt32) :=
  bitEntries singles ++ (codeEntries yoyos yoyoUnit ++ (codeEntries mxns mxnUnit ++
    (codeEntries nxns nxnUnit ++ codeEntries reverts revertUnit)))

/-- **A word that stands for heritable modifiers is one of the tables.** -/
theorem mem_heritableEntries {singles yoyos mxns nxns reverts : Vocabulary}
    (h : (((singles.index? word).map bit) <|> codeBits? yoyos yoyoUnit word
      <|> codeBits? mxns mxnUnit word <|> codeBits? nxns nxnUnit word
      <|> codeBits? reverts revertUnit word) = some bits) :
    (word, bits) ∈ heritableEntries singles yoyos mxns nxns reverts := by
  simp only [Option.orElse_eq_orElse, Option.orElse_eq_or, Option.or_eq_some_iff] at h
  simp only [heritableEntries, List.mem_append]
  rcases h with h | ⟨-, h | ⟨-, h | ⟨-, h | ⟨-, h⟩⟩⟩⟩
  · exact .inl (mem_bitEntries h)
  · exact .inr (.inl (mem_codeEntries h))
  · exact .inr (.inr (.inl (mem_codeEntries h)))
  · exact .inr (.inr (.inr (.inl (mem_codeEntries h))))
  · exact .inr (.inr (.inr (.inr (mem_codeEntries h))))

/-- The keys of alternate definitions. -/
def alternateEntries : List (String × UInt32) :=
  heritableEntries alternateKeys yoyoKeys mxnKeys nxnKeys revertKeys

/-- A word that is a key is listed with its bits. -/
theorem mem_alternateEntries (h : alternateKeyBits? word = some bits) :
    (word, bits) ∈ alternateEntries :=
  mem_heritableEntries h

end Words

/-! ### What clashes -/

namespace Heritable

/-- Words of modifiers clash if they share a bit or hold something of one exclusive group, or if
both hold steps of reverting and reflecting. -/
def Clash (a b : UInt32) : Prop :=
  a &&& b ≠ 0 ∨ ∃ g ∈ revertMask :: exclusiveGroups, a &&& g ≠ 0 ∧ b &&& g ≠ 0

instance (a b : UInt32) : Decidable (Clash a b) := inferInstanceAs (Decidable (_ ∨ _))

/-- It does not matter which of two comes first for them to clash. -/
theorem Clash.symm {a b : UInt32} (h : Clash a b) : Clash b a := by
  rcases h with h | ⟨g, hg, ha, hb⟩
  · exact .inl (UInt32.and_comm a b ▸ h)
  · exact .inr ⟨g, hg, hb, ha⟩

/-- What has no bits clashes with nothing. -/
theorem not_clash_zero (b : UInt32) : ¬ Clash 0 b := by
  rintro (h | ⟨g, -, h, -⟩)
  · exact h UInt32.zero_and
  · exact h UInt32.zero_and

/-- What clashes with two words together clashes with one of them. -/
theorem clash_or {a a' b : UInt32} : Clash (a ||| a') b ↔ Clash a b ∨ Clash a' b := by
  simp only [Clash, or_and_ne_zero_iff]
  constructor
  · rintro ((h | h) | ⟨g, hg, h | h, hb⟩)
    · exact .inl (.inl h)
    · exact .inr (.inl h)
    · exact .inl (.inr ⟨g, hg, h, hb⟩)
    · exact .inr (.inr ⟨g, hg, h, hb⟩)
  · rintro ((h | ⟨g, hg, h, hb⟩) | (h | ⟨g, hg, h, hb⟩))
    · exact .inl (.inl h)
    · exact .inr ⟨g, hg, .inl h, hb⟩
    · exact .inl (.inr h)
    · exact .inr ⟨g, hg, .inr h, hb⟩

/-- **What clashes with many words clashes with one of them.** -/
theorem clash_orAll {xs : List UInt32} {b : UInt32} :
    Clash (orAll xs) b ↔ ∃ x ∈ xs, Clash x b := by
  induction xs with
  | nil => simp [not_clash_zero]
  | cons x xs ih => simp only [orAll_cons, clash_or, ih, List.mem_cons, exists_eq_or_imp]

/-- Two words conflict if both have bits of one exclusive group. -/
theorem conflicts_iff {a b : UInt32} :
    conflicts a b = true ↔ ∃ g ∈ exclusiveGroups, a &&& g ≠ 0 ∧ b &&& g ≠ 0 := by
  simp [conflicts]

/-- Steps have nothing of an exclusive group. -/
theorem revertMask_and {g : UInt32} (h : g ∈ exclusiveGroups) : revertMask &&& g = 0 := by
  simp only [exclusiveGroups, List.mem_cons, List.not_mem_nil, or_false] at h
  rcases h with rfl | rfl | rfl | rfl <;> decide

/-- **Modifiers without steps are added unless they clash.** -/
theorem merge?_of_noStep {dest b : UInt32} (hb : b &&& revertMask = 0) :
    merge? dest b = if Clash dest b then none else some (dest ||| b) := by
  have hclash : Clash dest b ↔ dest &&& b ≠ 0 ∨ conflicts dest b = true := by
    rw [conflicts_iff, Clash]
    simp [hb]
  rw [merge?, if_neg (not_not.2 hb)]
  simp only [hclash]

/-- Steps clash with nothing but steps. -/
theorem not_clash_steps {steps b : UInt32} (hs : steps &&& revertMask = steps)
    (hb : b &&& revertMask = 0) : ¬ Clash steps b := by
  rintro (h | ⟨g, hg, hsteps, hbits⟩)
  · refine h ?_
    rw [← hs, UInt32.and_assoc, UInt32.and_comm revertMask, hb, UInt32.and_zero]
  · rcases List.mem_cons.1 hg with rfl | hg
    · exact hbits hb
    · refine hsteps ?_
      rw [← hs, UInt32.and_assoc, revertMask_and hg, UInt32.and_zero]

/-- **A word without steps is added to others** if it clashes with none of them. -/
theorem merge?_orAll_iff {xs : List UInt32} {steps b word : UInt32}
    (hs : steps &&& revertMask = steps) (hb : b &&& revertMask = 0) :
    merge? (orAll xs ||| steps) b = some word ↔
      (∀ x ∈ xs, ¬ Clash x b) ∧ word = orAll (xs ++ [b]) ||| steps := by
  have hclash : Clash (orAll xs ||| steps) b ↔ ∃ x ∈ xs, Clash x b := by
    rw [clash_or, or_iff_left (not_clash_steps hs hb), clash_orAll]
  have hword : orAll (xs ++ [b]) ||| steps = (orAll xs ||| steps) ||| b := by
    rw [orAll_concat, UInt32.or_assoc, UInt32.or_assoc, UInt32.or_comm b]
  rw [merge?_of_noStep hb, hword]
  split
  · rename_i h
    obtain ⟨x, hx, h⟩ := hclash.1 h
    constructor
    · intro hnone
      cases hnone
    · rintro ⟨hall, -⟩
      exact absurd h (hall x hx)
  · rename_i h
    rw [Option.some.injEq, eq_comm]
    exact ⟨fun heq => ⟨fun x hx hc => h (hclash.2 ⟨x, hx, hc⟩), heq⟩, And.right⟩

/-- The composition of a step with those before it, if there are any. -/
def follow? (before step : UInt32) : Option UInt32 :=
  if before = 0 then some step else compose? before step

/-- **A step is composed with the steps before it** and leaves all else as it is. -/
theorem merge?_of_step {others steps b : UInt32} (ho : others &&& revertMask = 0)
    (hs : steps &&& revertMask = steps) (hb : b &&& revertMask = b) (hne : b ≠ 0) :
    merge? (others ||| steps) b = (follow? steps b).map (others ||| ·) := by
  have hsteps : (others ||| steps) &&& revertMask = steps := by
    rw [UInt32.or_and_distrib, ho, hs, UInt32.zero_or]
  have hothers : (others ||| steps) &&& ~~~revertMask = others := by
    rw [UInt32.or_and_distrib, and_not_eq_self ho, ← hs, UInt32.and_assoc, UInt32.and_not_self,
      UInt32.and_zero, UInt32.or_zero]
  rw [merge?, if_pos (hb.symm ▸ hne), hsteps, hb, hothers, follow?]
  split
  · rename_i hzero
    rw [hzero, UInt32.or_zero]
    rfl
  · rfl

/-- Steps that are composed stay steps. -/
theorem follow?_and {before step after : UInt32} (hs : step &&& revertMask = step)
    (h : follow? before step = some after) : after &&& revertMask = after := by
  unfold follow? at h
  split at h
  · cases h
    exact hs
  · unfold compose? at h
    repeat' split at h
    all_goals cases h <;> rfl

end Heritable

namespace CallText

open Heritable

/-! ### Lists of keys -/

/-- A key of an alternate definition. -/
structure AlternateKey where
  word : String
  bits : UInt32
  isKey : Words.alternateKeyBits? word = some bits
  deriving DecidableEq

namespace AlternateKey

/-- The key that a word is, if it is one. -/
def ofWord? (word : String) : Option AlternateKey :=
  match h : Words.alternateKeyBits? word with
  | some bits => some ⟨word, bits, h⟩
  | none => none

/-- A key is listed with its bits. -/
theorem mem_entries (k : AlternateKey) : (k.word, k.bits) ∈ Words.alternateEntries :=
  Words.mem_alternateEntries k.isKey

/-- The token of a key. -/
def tokens (k : AlternateKey) : List Token := [.word k.word]

/-- The key is about reverting or reflecting. -/
def isStep (k : AlternateKey) : Bool := k.bits &&& revertMask != 0

/-- A key about reverting or reflecting has bits for this, and no others. -/
theorem and_revertMask_of_isStep {k : AlternateKey} (h : k.isStep = true) :
    k.bits &&& revertMask = k.bits ∧ k.bits ≠ 0 := by
  have hall : ∀ e ∈ Words.alternateEntries,
      (e.2 &&& revertMask != 0) = true → e.2 &&& revertMask = e.2 ∧ e.2 ≠ 0 := by decide +kernel
  exact hall _ k.mem_entries h

/-- Another key has no bits for reverting or reflecting. -/
theorem and_revertMask_of_not_isStep {k : AlternateKey} (h : k.isStep = false) :
    k.bits &&& revertMask = 0 := by
  simpa [isStep] using h

end AlternateKey

/-- The keys that are not about reverting or reflecting. -/
def plainKeys (keys : List AlternateKey) : List AlternateKey := keys.filter fun k => !k.isStep

/-- The keys that are about reverting or reflecting. -/
def stepKeys (keys : List AlternateKey) : List AlternateKey := keys.filter fun k => k.isStep

/-- Merge keys into one word, the first one first. -/
def mergeAll (keys : List AlternateKey) : Option UInt32 :=
  keys.foldlM (fun word k => merge? word k.bits) 0

/-- The composition of steps. -/
def composeAll (keys : List AlternateKey) : Option UInt32 :=
  keys.foldlM (fun steps k => follow? steps k.bits) 0

/-- One key more is merged into the word of those before it. -/
theorem mergeAll_concat (keys : List AlternateKey) (k : AlternateKey) :
    mergeAll (keys ++ [k]) = (mergeAll keys).bind fun word => merge? word k.bits := by
  rw [mergeAll, List.foldlM_append]
  simp [mergeAll]

/-- One step more is composed with those before it. -/
theorem composeAll_concat (keys : List AlternateKey) (k : AlternateKey) :
    composeAll (keys ++ [k]) = (composeAll keys).bind fun steps => follow? steps k.bits := by
  rw [composeAll, List.foldlM_append]
  simp [composeAll]

/-- The plain keys are those that are not about reverting or reflecting. -/
theorem AlternateKey.isStep_of_mem_plainKeys {keys : List AlternateKey} {k : AlternateKey}
    (h : k ∈ plainKeys keys) : k.isStep = false := by
  simpa using (List.mem_filter.1 h).2

/-- Plain keys have together no bits for reverting or reflecting. -/
theorem orAll_plainKeys_and (keys : List AlternateKey) :
    orAll ((plainKeys keys).map (·.bits)) &&& revertMask = 0 := by
  refine orAll_and_eq_zero_iff.2 fun x hx => ?_
  obtain ⟨k, hk, rfl⟩ := List.mem_map.1 hx
  exact AlternateKey.and_revertMask_of_not_isStep (AlternateKey.isStep_of_mem_plainKeys hk)

/-- Steps are composed to steps. -/
theorem composeAll_and {keys : List AlternateKey} {steps : UInt32}
    (h : composeAll (stepKeys keys) = some steps) : steps &&& revertMask = steps := by
  induction keys using List.reverseRecOn generalizing steps with
  | nil =>
    cases h
    rfl
  | append_singleton keys k ih =>
    cases hk : k.isStep with
    | false =>
      have hsteps : stepKeys (keys ++ [k]) = stepKeys keys := by simp [stepKeys, hk]
      exact ih (hsteps ▸ h)
    | true =>
      have hsteps : stepKeys (keys ++ [k]) = stepKeys keys ++ [k] := by simp [stepKeys, hk]
      rw [hsteps, composeAll_concat, Option.bind_eq_some_iff] at h
      obtain ⟨before, -, h⟩ := h
      exact follow?_and (AlternateKey.and_revertMask_of_isStep hk).1 h

/-- **What keys are merged to.**  No two clash of those that are no steps, and they are all there;
with them is what the steps are composed to, in their order. -/
theorem mergeAll_eq_some_iff {keys : List AlternateKey} {word : UInt32} :
    mergeAll keys = some word ↔ (plainKeys keys).Pairwise (fun a b => ¬ Clash a.bits b.bits) ∧
      ∃ steps, composeAll (stepKeys keys) = some steps ∧
        word = orAll ((plainKeys keys).map (·.bits)) ||| steps := by
  induction keys using List.reverseRecOn generalizing word with
  | nil =>
    constructor
    · intro h
      cases h
      exact ⟨.nil, 0, rfl, rfl⟩
    · rintro ⟨-, steps, hsteps, rfl⟩
      cases hsteps
      rfl
  | append_singleton keys k ih =>
    rw [mergeAll_concat, Option.bind_eq_some_iff]
    cases hk : k.isStep with
    | false =>
      have hbits := AlternateKey.and_revertMask_of_not_isStep hk
      have hplain : plainKeys (keys ++ [k]) = plainKeys keys ++ [k] := by simp [plainKeys, hk]
      have hsteps : stepKeys (keys ++ [k]) = stepKeys keys := by simp [stepKeys, hk]
      rw [hplain, hsteps, List.map_append, List.pairwise_append]
      constructor
      · rintro ⟨before, hbefore, hmerge⟩
        obtain ⟨hpairs, steps, hsteps, rfl⟩ := ih.1 hbefore
        obtain ⟨hnone, rfl⟩ := (merge?_orAll_iff (composeAll_and hsteps) hbits).1 hmerge
        refine ⟨⟨hpairs, List.pairwise_singleton _ _, fun a ha b hb => ?_⟩, steps, hsteps, rfl⟩
        rw [List.mem_singleton.1 hb]
        exact hnone _ (List.mem_map_of_mem ha)
      · rintro ⟨⟨hpairs, -, hnone⟩, steps, hsteps, rfl⟩
        refine ⟨_, ih.2 ⟨hpairs, steps, hsteps, rfl⟩, ?_⟩
        refine (merge?_orAll_iff (composeAll_and hsteps) hbits).2 ⟨?_, rfl⟩
        intro x hx
        obtain ⟨a, ha, rfl⟩ := List.mem_map.1 hx
        exact hnone a ha k (List.mem_singleton_self k)
    | true =>
      obtain ⟨hbits, hne⟩ := AlternateKey.and_revertMask_of_isStep hk
      have hplain : plainKeys (keys ++ [k]) = plainKeys keys := by simp [plainKeys, hk]
      have hsteps : stepKeys (keys ++ [k]) = stepKeys keys ++ [k] := by simp [stepKeys, hk]
      rw [hplain, hsteps, composeAll_concat]
      have hothers := orAll_plainKeys_and keys
      constructor
      · rintro ⟨before, hbefore, hmerge⟩
        obtain ⟨hpairs, steps, hsteps, rfl⟩ := ih.1 hbefore
        rw [merge?_of_step hothers (composeAll_and hsteps) hbits hne] at hmerge
        obtain ⟨after, hafter, rfl⟩ := Option.map_eq_some_iff.1 hmerge
        exact ⟨hpairs, after, Option.bind_eq_some_iff.2 ⟨steps, hsteps, hafter⟩, rfl⟩
      · rintro ⟨hpairs, after, hafter, rfl⟩
        obtain ⟨steps, hsteps, hafter⟩ := Option.bind_eq_some_iff.1 hafter
        refine ⟨_, ih.2 ⟨hpairs, steps, hsteps, rfl⟩, ?_⟩
        rw [merge?_of_step hothers (composeAll_and hsteps) hbits hne, hafter]
        rfl

/-! ### Families of keys -/

/-- Keys of which at most one may be given, and the field that it is put into. -/
def exclusiveFamilies : List (List String × UInt32) :=
  [(["fractal", "yoyo", "generous", "stingy"], fractal ||| yoyoMask),
   (["single", "singlefile"], single ||| singleFile),
   (Words.mxnKeys ++ Words.nxnKeys, mxnMask ||| nxnMask),
   (["12matrix", "16matrix"], matrix12 ||| matrix16),
   (Words.yoyoKeys, yoyoMask), (Words.mxnKeys, mxnMask), (Words.nxnKeys, nxnMask)]

/-- A field is within an exclusive group. -/
theorem exists_exclusiveGroup {family : List String} {field : UInt32}
    (h : (family, field) ∈ exclusiveFamilies) :
    field &&& revertMask = 0 ∧ ∃ g ∈ exclusiveGroups, field &&& g = field := by
  have hall : ∀ f ∈ exclusiveFamilies,
      f.2 &&& revertMask = 0 ∧ ∃ g ∈ exclusiveGroups, f.2 &&& g = f.2 := by decide
  exact hall _ h

/-- Keys of a family are in its field as a whole, and other keys are not there. -/
theorem AlternateKey.mem_family_iff (k : AlternateKey) {family : List String} {field : UInt32}
    (h : (family, field) ∈ exclusiveFamilies) :
    (k.word ∈ family ↔ k.bits &&& field ≠ 0) ∧
      (k.word ∈ family → k.bits &&& field = k.bits ∧ k.isStep = false) := by
  have hall : ∀ e ∈ Words.alternateEntries, ∀ f ∈ exclusiveFamilies,
      (e.1 ∈ f.1 ↔ e.2 &&& f.2 ≠ 0) ∧
        (e.1 ∈ f.1 → e.2 &&& f.2 = e.2 ∧ (e.2 &&& revertMask != 0) = false) := by decide +kernel
  exact hall _ k.mem_entries _ h

/-- Keys of one family clash. -/
theorem AlternateKey.clash_of_mem_family {a b : AlternateKey} {family : List String}
    {field : UInt32} (h : (family, field) ∈ exclusiveFamilies) (ha : a.bits &&& field ≠ 0)
    (hb : b.bits &&& field ≠ 0) : Clash a.bits b.bits := by
  obtain ⟨-, g, hg, hfield⟩ := exists_exclusiveGroup h
  have hwithin : ∀ x : UInt32, x &&& field ≠ 0 → x &&& g ≠ 0 := by
    intro x hx hzero
    rw [← hfield, UInt32.and_comm field, ← UInt32.and_assoc, hzero, UInt32.zero_and] at hx
    exact hx rfl
  exact .inr ⟨g, List.mem_cons_of_mem _ hg, hwithin _ ha, hwithin _ hb⟩

/-- A word has of a family what one key says, or nothing where none is given. -/
structure HoldsOne (keys : List AlternateKey) (word : UInt32) (family : List String)
    (field : UInt32) : Prop where
  one : (keys.filter (·.word ∈ family)).length ≤ 1
  held : ((∀ k ∈ keys, k.word ∉ family) ∧ word &&& field = 0) ∨
    ∃ k ∈ keys, k.word ∈ family ∧ word &&& field = k.bits

/-- A key of an exclusive family is plain. -/
theorem mem_plainKeys_of_mem_family {keys : List AlternateKey} {k : AlternateKey}
    {family : List String} {field : UInt32} (hf : (family, field) ∈ exclusiveFamilies)
    (hk : k ∈ keys) (hword : k.word ∈ family) : k ∈ plainKeys keys :=
  List.mem_filter.2 ⟨hk, by simp [((k.mem_family_iff hf).2 hword).2]⟩

/-- The keys of an exclusive family are found among the plain ones. -/
theorem filter_family_plainKeys (keys : List AlternateKey) {family : List String} {field : UInt32}
    (hf : (family, field) ∈ exclusiveFamilies) :
    (plainKeys keys).filter (·.word ∈ family) = keys.filter (·.word ∈ family) := by
  rw [plainKeys, List.filter_filter]
  refine List.filter_congr fun k _ => ?_
  by_cases hword : k.word ∈ family
  · simp [hword, ((k.mem_family_iff hf).2 hword).2]
  · simp [hword]

/-- Of keys that do not clash at most one is of a family. -/
theorem length_filter_family_le_one {keys : List AlternateKey} {family : List String}
    {field : UInt32} (hf : (family, field) ∈ exclusiveFamilies)
    (hpairs : (plainKeys keys).Pairwise fun a b => ¬ Clash a.bits b.bits) :
    (keys.filter (·.word ∈ family)).length ≤ 1 := by
  have hbits : ∀ k ∈ keys.filter (·.word ∈ family), k.bits &&& field ≠ 0 :=
    fun k hk => (k.mem_family_iff hf).1.1 (by simpa using (List.mem_filter.1 hk).2)
  have hexcl := hpairs.filter (·.word ∈ family)
  rw [filter_family_plainKeys keys hf] at hexcl
  cases hgiven : keys.filter (·.word ∈ family) with
  | nil => exact Nat.zero_le 1
  | cons a more =>
    rw [hgiven] at hbits hexcl
    cases more with
    | nil => exact Nat.le_refl 1
    | cons b more =>
      have hclash := AlternateKey.clash_of_mem_family hf (hbits a (by simp)) (hbits b (by simp))
      exact absurd hclash ((List.pairwise_cons.1 hexcl).1 b (by simp))

/-- The field of a family holds the key of it that is given, among keys that do not clash. -/
theorem orAll_plainKeys_and_field {keys : List AlternateKey} {family : List String}
    {field : UInt32} (hf : (family, field) ∈ exclusiveFamilies)
    (hpairs : (plainKeys keys).Pairwise fun a b => ¬ Clash a.bits b.bits) {k : AlternateKey}
    (hk : k ∈ keys) (hword : k.word ∈ family) :
    orAll ((plainKeys keys).map (·.bits)) &&& field = k.bits := by
  obtain ⟨hiff, hwhole⟩ := k.mem_family_iff hf
  have hexcl : ((plainKeys keys).map (·.bits)).Pairwise
      fun x y => ¬ (x &&& field ≠ 0 ∧ y &&& field ≠ 0) :=
    List.pairwise_map.2 (hpairs.imp fun hab hboth =>
      hab (AlternateKey.clash_of_mem_family hf hboth.1 hboth.2))
  have hmem := List.mem_map_of_mem (f := (·.bits)) (mem_plainKeys_of_mem_family hf hk hword)
  rw [orAll_and_of_pairwise hexcl hmem (hiff.1 hword)]
  exact (hwhole hword).1

/-- **What keys are merged to holds at most one key of each family.** -/
theorem holdsOne_of_mergeAll {keys : List AlternateKey} {word : UInt32}
    (h : mergeAll keys = some word) {family : List String} {field : UInt32}
    (hf : (family, field) ∈ exclusiveFamilies) : HoldsOne keys word family field := by
  obtain ⟨hpairs, steps, hsteps, rfl⟩ := mergeAll_eq_some_iff.1 h
  refine ⟨length_filter_family_le_one hf hpairs, ?_⟩
  have hzero : steps &&& field = 0 := by
    rw [← composeAll_and hsteps, UInt32.and_assoc, UInt32.and_comm revertMask,
      (exists_exclusiveGroup hf).1, UInt32.and_zero]
  rw [UInt32.or_and_distrib, hzero, UInt32.or_zero]
  by_cases hgiven : ∃ k ∈ keys, k.word ∈ family
  · obtain ⟨k, hk, hword⟩ := hgiven
    exact .inr ⟨k, hk, hword, orAll_plainKeys_and_field hf hpairs hk hword⟩
  · rw [not_exists] at hgiven
    refine .inl ⟨fun k hk hword => hgiven k ⟨hk, hword⟩, orAll_and_eq_zero_iff.2 fun x hx => ?_⟩
    obtain ⟨k, hk, rfl⟩ := List.mem_map.1 hx
    exact not_not.1 fun hc =>
      hgiven k ⟨(List.mem_filter.1 hk).1, (k.mem_family_iff hf).1.2 hc⟩

/-! ### Order -/

/-- **Only the order of steps matters.** -/
theorem mergeAll_perm {keys keys' : List AlternateKey} (h : keys.Perm keys')
    (hsteps : stepKeys keys = stepKeys keys') : mergeAll keys = mergeAll keys' := by
  have hplain : (plainKeys keys).Perm (plainKeys keys') := h.filter _
  have hpairs := hplain.pairwise_iff (R := fun a b => ¬ Clash a.bits b.bits)
    fun hab hba => hab hba.symm
  have hbits := orAll_perm (hplain.map (·.bits))
  refine Option.ext fun word => ?_
  rw [mergeAll_eq_some_iff, mergeAll_eq_some_iff, hpairs, hbits, hsteps]

/-! ### Refused keys -/

/-- Merge modifiers into a word in its place, and tell whether they are accepted. -/
def mergeInto (source : UInt32) : StateM UInt32 Bool := do
  let dest ← get
  if source &&& revertMask ≠ 0 then
    if dest &&& revertMask = 0 then
      set (dest ||| source)
      return true
    else if let some composed := compose? (dest &&& revertMask) (source &&& revertMask) then
      set (dest &&& ~~~revertMask ||| composed)
      return true
    else
      return false
  else if dest &&& source ≠ 0 ∨ conflicts dest source then
    return false
  else
    set (dest ||| source)
    return true

/-- **Modifiers that are refused leave the word as it is**, and others change it to what they are
merged to. -/
theorem mergeInto_run (dest source : UInt32) :
    (mergeInto source).run dest
      = pure ((merge? dest source).isSome, (merge? dest source).getD dest) := by
  rw [mergeInto, merge?]
  by_cases hsource : source &&& revertMask ≠ 0
  · by_cases hdest : dest &&& revertMask = 0
    · simp [hsource, hdest]
    · cases hcomposed : compose? (dest &&& revertMask) (source &&& revertMask) <;>
        simp [hsource, hdest, hcomposed]
  · by_cases hclash : dest &&& source ≠ 0 ∨ conflicts dest source
    · simp [hsource, hclash]
    · simp [hsource, hclash]

/-- The word after each of some keys was merged into it, those that are refused too. -/
def mergeEach (keys : List AlternateKey) : UInt32 :=
  keys.foldl (fun word k => ((mergeInto k.bits).run word).2) 0

/-- One key more is merged, or leaves the word as it is where it is refused. -/
theorem mergeEach_concat (keys : List AlternateKey) (k : AlternateKey) :
    mergeEach (keys ++ [k]) = (merge? (mergeEach keys) k.bits).getD (mergeEach keys) := by
  rw [mergeEach, List.foldl_append, List.foldl_cons, List.foldl_nil, mergeInto_run]
  rfl

/-- **Refused keys leave no trace**: the word is what the others alone are merged to. -/
theorem exists_taken (keys : List AlternateKey) :
    ∃ taken, taken.Sublist keys ∧ mergeAll taken = some (mergeEach keys) := by
  induction keys using List.reverseRecOn with
  | nil => exact ⟨[], .refl _, rfl⟩
  | append_singleton keys k ih =>
    obtain ⟨taken, hsub, htaken⟩ := ih
    rw [mergeEach_concat]
    cases hk : merge? (mergeEach keys) k.bits with
    | none => exact ⟨taken, hsub.trans (List.sublist_append_left _ _), htaken⟩
    | some word =>
      refine ⟨taken ++ [k], hsub.append (.refl _), ?_⟩
      rw [mergeAll_concat, htaken]
      exact hk

/-! ### Lists in brackets -/

namespace Parser

open Consumer

variable {r : Reading}

/-- The loop for keys stops at the closing bracket. -/
theorem alternateKeyStep_of_bracket {keys : UInt32} {rest : List Token}
    (h : r.tokens = .rightBracket :: rest) : alternateKeyStep keys r = .ok (.inr keys, r) := by
  rw [alternateKeyStep, bind_of_ok (isAt_of_tokens h _)]
  rfl

/-- A turn of the loop merges a key into those before it. -/
theorem alternateKeyStep_of_tokens {keys : UInt32} {k : AlternateKey} {more : List Token}
    (h : r.tokens = .word k.word :: more) (hmore : more ≠ []) :
    (alternateKeyStep keys r).toOption
      = (merge? keys k.bits).map fun keys => (.inl keys, { r with tokens := more }) := by
  rw [alternateKeyStep, bind_of_ok (isAt_of_tokens h _), if_neg (by simp),
    bind_of_ok (symbolHere_of_tokens h _), k.isKey, bind_of_ok (orFail_eq_ok.2 ⟨rfl, rfl⟩)]
  cases hkeys : merge? keys k.bits with
  | none => rfl
  | some keys' =>
    rw [bind_of_ok (orFail_eq_ok.2 ⟨rfl, rfl⟩), bind_of_ok (advance_of_tokens h hmore)]
    rfl

/-- The loop merges the keys up to the closing bracket. -/
theorem alternateKeys_of_tokens {keys : List AlternateKey} {rest : List Token}
    (h : r.tokens = keys.flatMap (·.tokens) ++ .rightBracket :: rest) :
    (loop alternateKeyStep turns_alternateKeyStep 0 r).toOption
      = (mergeAll keys).map fun word => (word, { r with tokens := .rightBracket :: rest }) :=
  loop_items (fun _ _ _ hr => alternateKeyStep_of_bracket hr)
    (fun _ _ _ _ hr hmore => alternateKeyStep_of_tokens hr hmore) keys 0 h

/-- **The head of alternate definitions has its keys merged.** -/
theorem alternateHeader_of_tokens {t : Token} {keys : List AlternateKey} {level : String}
    {rest : List Token} (h : r.tokens = t :: .leftBracket ::
      (keys.flatMap (·.tokens) ++ .rightBracket :: .word level :: rest)) :
    (alternateHeader r).toOption.map (·.1) = (mergeAll keys).bind fun keys =>
      (Level.ofName? level).map fun level => { level, keys } := by
  rw [alternateHeader, bracketed_of_tokens h (by simp)]
  let r' : Reading :=
    { r with tokens := keys.flatMap (·.tokens) ++ .rightBracket :: .word level :: rest }
  have htokens : r'.tokens = keys.flatMap (·.tokens) ++ .rightBracket :: .word level :: rest := rfl
  have hloop := alternateKeys_of_tokens htokens
  cases hkeys : mergeAll keys with
  | none =>
    rw [hkeys] at hloop
    obtain ⟨e, he⟩ := toOption_eq_none hloop
    rw [bind_of_error he]
    rfl
  | some word =>
    rw [hkeys] at hloop
    rw [bind_of_ok (toOption_eq_some hloop), bind_of_ok (symbol_of_tokens rfl _)]
    cases hlevel : Level.ofName? level <;> rfl

end Parser

/-- **Keys are merged consistently**, and the head of alternate definitions has what its keys are
merged to.  Of the keys that exclude one another a list has at most one, and a field holds what
that one stands for; keys that are refused leave no trace; and in any other order in which
reverting and reflecting go the same way the same keys are accepted, and merged to the same
word. -/
theorem mergeAll_isConsistent {keys keys' : List AlternateKey} (h : keys.Perm keys')
    (hsteps : stepKeys keys = stepKeys keys') :
    (∀ (r : Reading) (t : Token) (level : String) (rest : List Token), r.tokens = t ::
      .leftBracket :: (keys.flatMap (·.tokens) ++ .rightBracket :: .word level :: rest) →
        (Parser.alternateHeader r).toOption.map (·.1) = (mergeAll keys).bind fun keys =>
          (Level.ofName? level).map fun level => { level, keys }) ∧
      (∀ word, mergeAll keys = some word → ∀ family field, (family, field) ∈ exclusiveFamilies →
        HoldsOne keys word family field) ∧
      ((∀ word (k : AlternateKey), merge? word k.bits = none →
        (mergeInto k.bits).run word = pure (false, word)) ∧
        ∃ taken, taken.Sublist keys ∧ mergeAll taken = some (mergeEach keys)) ∧
        mergeAll keys' = mergeAll keys := by
  refine ⟨fun _ _ _ _ hr => Parser.alternateHeader_of_tokens hr,
    fun word hword family field hf => holdsOne_of_mergeAll hword hf,
    ⟨fun word k hk => ?_, exists_taken keys⟩, (mergeAll_perm h hsteps).symm⟩
  rw [mergeInto_run, hk]
  rfl

/-- The keys `single reflect 3x1 revert`. -/
def sampleKeys : List AlternateKey :=
  ["single", "reflect", "3x1", "revert"].filterMap AlternateKey.ofWord?

/-- The same keys in another order, with the steps in the same one. -/
def reorderedKeys : List AlternateKey :=
  ["3x1", "reflect", "revert", "single"].filterMap AlternateKey.ofWord?

/-- Keys are merged to the same word in either order, and the word holds one of a family. -/
theorem mergeAll_isConsistent_sampleKeys :
    sampleKeys.Perm reorderedKeys ∧ stepKeys sampleKeys = stepKeys reorderedKeys ∧
      mergeAll sampleKeys = some 0x40800400 ∧ mergeAll reorderedKeys = some 0x40800400 ∧
        HoldsOne sampleKeys 0x40800400 Words.mxnKeys mxnMask := by
  have hkeys : sampleKeys.Perm reorderedKeys ∧ stepKeys sampleKeys = stepKeys reorderedKeys ∧
      mergeAll sampleKeys = some 0x40800400 := by decide +kernel
  obtain ⟨hperm, hsteps, hword⟩ := hkeys
  obtain ⟨-, hholds, -, hsame⟩ := mergeAll_isConsistent hperm hsteps
  exact ⟨hperm, hsteps, hword, hsame.trans hword,
    hholds _ hword _ _ (by simp [exclusiveFamilies])⟩

end CallText
end SquareDance
