/-
# The order of modifiers

A reference to a call comes with modifiers in brackets:

    seq pass_thru [inherit_left force_3x1 insert_number 2 finish_this_part]

What a list of modifiers comes to does not depend on their order, with two exceptions.  Single
steps of reverting and reflecting are composed in their order.  And a modifier that hands something
down is never held against those before it, while one that adds something is: `force_singlefile`
may stand before `inherit_single` but not behind it.  So a list is read in order or refused
(`InOrder`), and all orders in which it is in order come to the same.  Main statement:
`modifiers_ofOrder`.
-/

import SquareDance.Proofs.CallText.MergedKeys

namespace SquareDance

namespace Words

/-- The modifiers that are added to what a sub-call is given. -/
def forceEntries : List (String × UInt32) :=
  heritableEntries forceModifiers yoyoForces mxnForces nxnForces revertForces

/-- A word that adds a modifier is listed with its bits. -/
theorem mem_forceEntries {word : String} {bits : UInt32} (h : forceBits? word = some bits) :
    (word, bits) ∈ forceEntries :=
  mem_heritableEntries h

end Words

namespace Heritable

/-- Modifiers that cannot be composed with others: no single step of reverting or reflecting. -/
def IsWhole (b : UInt32) : Prop :=
  b &&& revertMask = 0 ∨ b &&& revertMask = b ∧ b ≠ revert ∧ b ≠ reflect

instance (b : UInt32) : Decidable (IsWhole b) := inferInstanceAs (Decidable (_ ∨ _))

/-- **What cannot be composed is added unless it clashes.** -/
theorem merge?_of_isWhole {dest b : UInt32} (hb : IsWhole b) :
    merge? dest b = if Clash dest b then none else some (dest ||| b) := by
  rcases hb with hb | ⟨hb, hrevert, hreflect⟩
  · exact merge?_of_noStep hb
  · by_cases hzero : b = 0
    · subst hzero
      have hclash : ¬ Clash dest 0 := fun h => not_clash_zero dest h.symm
      rw [merge?_zero_right, if_neg hclash, UInt32.or_zero]
    · have hclash : Clash dest b ↔ dest &&& revertMask ≠ 0 := by
        constructor
        · rintro (h | ⟨g, hg, hdest, hbits⟩)
          · intro hnone
            rw [← hb, UInt32.and_comm b, ← UInt32.and_assoc, hnone, UInt32.zero_and] at h
            exact h rfl
          · rcases List.mem_cons.1 hg with rfl | hg
            · exact hdest
            · rw [← hb, UInt32.and_assoc, revertMask_and hg, UInt32.and_zero] at hbits
              exact absurd rfl hbits
        · exact fun h => .inr ⟨_, List.mem_cons_self, h, hb.symm ▸ hzero⟩
      rw [merge?, if_pos (hb.symm ▸ hzero), hb, compose?, if_neg hrevert, if_neg hreflect,
        Option.map_none]
      simp only [hclash, ite_not]

end Heritable

namespace CallText

open Heritable SubCallModifiers

/-! ### Lists of modifiers -/

namespace Modifier

/-- The bits that a modifier sets. -/
def plainBits : Modifier → UInt32
  | .plain bits => bits
  | .insertion fractal n => n * insertionUnit ||| if fractal then fractalInsertion else 0
  | .inherits _ | .forces _ => 0

/-- The heritable modifiers that a modifier hands down or adds. -/
def heritableBits : Modifier → UInt32
  | .plain _ | .insertion .. => 0
  | .inherits bits | .forces bits => bits

/-- A call with the given heritable flags may have a modifier. -/
def Admits (flags : UInt32) : Modifier → Prop
  | .plain _ => True
  | .insertion _ n => 1 ≤ n ∧ n < 8
  | .inherits bits => bits &&& ~~~(flags ||| mobile) = 0
  | .forces bits => bits &&& flags &&& ~~~mobile = 0

/-- Two modifiers exclude one another: insertions, or additions that clash. -/
def Excludes : Modifier → Modifier → Prop
  | .insertion .., .insertion .. => True
  | .forces a, .forces b => Clash a b
  | _, _ => False

/-- A modifier that hands something down bars an addition that clashes with it. -/
def Bars : Modifier → Modifier → Prop
  | .inherits a, .forces b => Clash a b
  | _, _ => False

/-- Bits that are set do not look like an insertion, and additions cannot be composed. -/
def IsRegular : Modifier → Prop
  | .plain bits => bits &&& insertionMask = 0
  | .forces bits => IsWhole bits
  | .insertion .. | .inherits _ => True

instance (x : Modifier) : Decidable x.IsRegular := by
  cases x <;> unfold IsRegular <;> infer_instance

instance (x y : Modifier) : Decidable (x.Bars y) := by
  cases x <;> cases y <;> unfold Bars <;> infer_instance

/-- Two modifiers exclude one another in either order. -/
theorem Excludes.symm {x y : Modifier} (h : x.Excludes y) : y.Excludes x := by
  cases x <;> cases y <;> first | exact h.elim | exact trivial | exact Clash.symm h

/-- Insertions are told from other modifiers by their bits. -/
theorem plainBits_and_iff {flags : UInt32} {x : Modifier} (hx : x.IsRegular)
    (hadmits : x.Admits flags) {fractal : Bool} {n : UInt32} :
    x.plainBits &&& insertionMask = 0 ↔ ¬ x.Excludes (.insertion fractal n) := by
  cases x with
  | plain bits =>
    have hzero : bits &&& insertionMask = 0 := hx
    simp [plainBits, Excludes, hzero]
  | inherits => simp [plainBits, Excludes]
  | forces => simp [plainBits, Excludes]
  | insertion fractal n =>
    have hall : ∀ k : Fin 8, k ≠ 0 → ∀ fractal : Bool,
        (insertion fractal (UInt32.ofNat k)).plainBits &&& insertionMask ≠ 0 := by decide
    obtain ⟨hlow, hhigh⟩ : 1 ≤ n.toNat ∧ n.toNat < 8 := hadmits
    have hn := hall ⟨n.toNat, hhigh⟩ (Fin.ne_of_val_ne (Nat.ne_of_gt hlow)) fractal
    rw [UInt32.ofNat_toNat] at hn
    exact iff_of_false hn (not_not.2 trivial)

/-- What clashes with an addition excludes it or bars it. -/
theorem clash_iff (x : Modifier) (bits : UInt32) :
    Clash x.heritableBits bits ↔ x.Excludes (.forces bits) ∨ x.Bars (.forces bits) := by
  cases x <;> simp [heritableBits, Excludes, Bars, not_clash_zero]

end Modifier

/-- What a sub-call has leaves room for a modifier. -/
def HasRoom (m : SubCallModifiers) : Modifier → Prop
  | .insertion .. => m.plain &&& insertionMask = 0
  | .forces bits => ¬ Clash m.heritable bits
  | .plain _ | .inherits _ => True

/-- What a sub-call has, and one modifier more. -/
def alongWith (m : SubCallModifiers) (x : Modifier) : SubCallModifiers where
  plain := m.plain ||| x.plainBits
  heritable := m.heritable ||| x.heritableBits

/-- **A modifier is added** if the call may have it and there is room. -/
theorem add_eq_ok_iff {flags : UInt32} {m m' : SubCallModifiers} {x : Modifier}
    (hx : x.IsRegular) :
    m.add flags x = .ok m' ↔ x.Admits flags ∧ HasRoom m x ∧ m' = alongWith m x := by
  cases x with
  | plain bits => simp [add, Modifier.Admits, HasRoom, alongWith, Modifier.plainBits,
      Modifier.heritableBits, eq_comm]
  | inherits bits =>
    rw [add, Modifier.Admits]
    split
    · rename_i h
      simp [h]
    · rename_i h
      simp [not_not.1 h, HasRoom, alongWith, Modifier.plainBits, Modifier.heritableBits, eq_comm]
  | forces bits =>
    rw [add, Modifier.Admits, merge?_of_isWhole hx]
    split
    · rename_i h
      simp [h]
    · rename_i h
      by_cases hclash : Clash m.heritable bits
      · simp [hclash, HasRoom]
      · simp [not_not.1 h, hclash, HasRoom, alongWith, Modifier.plainBits,
          Modifier.heritableBits, eq_comm]
  | insertion fractal n =>
    have hrange : (n < 1 ∨ 8 ≤ n) ↔ ¬ (1 ≤ n ∧ n < 8) := by
      rw [not_and_or, UInt32.not_le, UInt32.not_lt]
    rw [add, insertable, Modifier.Admits, HasRoom]
    by_cases hplain : m.plain &&& insertionMask = 0
    · rw [if_neg (not_not.2 hplain)]
      simp only [hrange]
      by_cases hn : 1 ≤ n ∧ n < 8
      · simp [hn, hplain, alongWith, Modifier.plainBits, Modifier.heritableBits, UInt32.or_assoc,
          eq_comm]
      · rw [if_pos hn]
        refine iff_of_false (fun h => ?_) fun h => hn h.1
        cases h
    · rw [if_pos hplain]
      refine iff_of_false (fun h => ?_) fun h => hplain h.2.1
      cases h

/-- Add modifiers in their order. -/
def addAll (flags : UInt32) (xs : List Modifier) : Option SubCallModifiers :=
  xs.foldlM (fun m x => (m.add flags x).toOption) {}

/-- What a sub-call has of modifiers that are all accepted. -/
def together (xs : List Modifier) : SubCallModifiers where
  plain := orAll (xs.map (·.plainBits))
  heritable := orAll (xs.map (·.heritableBits))

/-- One modifier more is added to what those before it come to. -/
theorem addAll_concat (flags : UInt32) (xs : List Modifier) (x : Modifier) :
    addAll flags (xs ++ [x]) = (addAll flags xs).bind fun m => (m.add flags x).toOption := by
  rw [addAll, List.foldlM_append]
  simp [addAll]

/-- One modifier more is one modifier more together. -/
theorem together_concat (xs : List Modifier) (x : Modifier) :
    together (xs ++ [x]) = alongWith (together xs) x := by
  simp [together, alongWith, orAll_concat]

/-- **There is room for a modifier** if none of the others excludes or bars it. -/
theorem hasRoom_together_iff {flags : UInt32} {xs : List Modifier}
    (hxs : ∀ y ∈ xs, y.IsRegular ∧ y.Admits flags) (x : Modifier) :
    HasRoom (together xs) x ↔ ∀ y ∈ xs, ¬ y.Excludes x ∧ ¬ y.Bars x := by
  cases x with
  | plain bits =>
    refine iff_of_true trivial fun y _ => ?_
    cases y <;> exact ⟨not_false, not_false⟩
  | inherits bits =>
    refine iff_of_true trivial fun y _ => ?_
    cases y <;> exact ⟨not_false, not_false⟩
  | insertion fractal n =>
    have hbars : ∀ y : Modifier, ¬ y.Bars (.insertion fractal n) := by
      intro y
      cases y <;> exact not_false
    simp only [HasRoom, together, orAll_and_eq_zero_iff, List.forall_mem_map, hbars,
      not_false_eq_true, and_true]
    exact forall₂_congr fun y hy => Modifier.plainBits_and_iff (hxs y hy).1 (hxs y hy).2
  | forces bits =>
    have hclash : Clash (together xs).heritable bits ↔
        ∃ y ∈ xs, y.Excludes (.forces bits) ∨ y.Bars (.forces bits) := by
      simp only [together, clash_orAll, List.mem_map, exists_exists_and_eq_and,
        Modifier.clash_iff]
    simp [HasRoom, hclash, not_or]

/-- **What modifiers come to.**  The call may have all of them, no two exclude one another, and
none stands behind one that bars it. -/
theorem addAll_eq_some_iff {flags : UInt32} {xs : List Modifier} {m : SubCallModifiers}
    (hxs : ∀ x ∈ xs, x.IsRegular) :
    addAll flags xs = some m ↔ (∀ x ∈ xs, x.Admits flags) ∧
      xs.Pairwise (fun x y => ¬ x.Excludes y ∧ ¬ x.Bars y) ∧ m = together xs := by
  induction xs using List.reverseRecOn generalizing m with
  | nil => simp [addAll, together, eq_comm]
  | append_singleton xs x ih =>
    simp only [List.forall_mem_append, List.forall_mem_singleton] at hxs ⊢
    rw [addAll_concat, Option.bind_eq_some_iff, List.pairwise_append, together_concat]
    constructor
    · rintro ⟨before, hbefore, hx⟩
      obtain ⟨hadmits, hpairs, rfl⟩ := (ih hxs.1).1 hbefore
      obtain ⟨hxadmits, hroom, rfl⟩ := (add_eq_ok_iff hxs.2).1 (Parser.toOption_eq_some hx)
      have hfree := (hasRoom_together_iff (fun y hy => ⟨hxs.1 y hy, hadmits y hy⟩) x).1 hroom
      refine ⟨⟨hadmits, hxadmits⟩, ⟨hpairs, List.pairwise_singleton _ _, fun y hy z hz => ?_⟩, rfl⟩
      rw [List.mem_singleton.1 hz]
      exact hfree y hy
    · rintro ⟨⟨hadmits, hxadmits⟩, ⟨hpairs, -, hfree⟩, rfl⟩
      have hroom := (hasRoom_together_iff (fun y hy => ⟨hxs.1 y hy, hadmits y hy⟩) x).2
        fun y hy => hfree y hy x (List.mem_singleton_self x)
      have hx := (add_eq_ok_iff hxs.2).2 ⟨hxadmits, hroom, rfl⟩
      exact ⟨_, (ih hxs.1).2 ⟨hadmits, hpairs, rfl⟩, congrArg Except.toOption hx⟩

/-- **The order of modifiers does not matter**, as long as none stands behind one that bars it. -/
theorem addAll_perm {flags : UInt32} {xs ys : List Modifier} (hperm : xs.Perm ys)
    (hxs : ∀ x ∈ xs, x.IsRegular) (hx : xs.Pairwise fun x y => ¬ x.Bars y)
    (hy : ys.Pairwise fun x y => ¬ x.Bars y) : addAll flags xs = addAll flags ys := by
  have hys : ∀ y ∈ ys, y.IsRegular := fun y hy => hxs y (hperm.mem_iff.2 hy)
  have hadmits : (∀ x ∈ xs, x.Admits flags) ↔ ∀ y ∈ ys, y.Admits flags := by
    simp only [hperm.mem_iff]
  have hpairs := hperm.pairwise_iff (R := fun x y => ¬ x.Excludes y) fun hxy hyx => hxy hyx.symm
  have htogether : together xs = together ys := by
    rw [together, together, orAll_perm (hperm.map _), orAll_perm (hperm.map _)]
  refine Option.ext fun m => ?_
  rw [addAll_eq_some_iff hxs, addAll_eq_some_iff hys, List.pairwise_and_iff,
    List.pairwise_and_iff, hadmits, hpairs, htogether]
  simp only [hx, hy]

/-! ### Modifiers as a text has them -/

/-- A modifier as a text has it: a word, or the word for an insertion with its number. -/
inductive ModifierText where
  | word (w : String) (complete : w ≠ "insert_number" ∧ w ≠ "insert_fractal")
  | insertion (fractal : Bool) (n : UInt32)
  deriving DecidableEq

namespace ModifierText

/-- The tokens of a modifier. -/
def tokens : ModifierText → List Token
  | word w _ => [.word w]
  | insertion false n => [.word "insert_number", .number n]
  | insertion true n => [.word "insert_fractal", .number n]

/-- The modifier that is meant, if there is one of that name. -/
def modifier? (inSequence : Bool) : ModifierText → Option Modifier
  | word w _ =>
    match ModifierWord.ofWord? inSequence w with
    | some (.complete x) => some x
    | _ => none
  | insertion fractal n => some (.insertion fractal n)

/-- A single step of reverting or reflecting is added. -/
def IsForcedStep : ModifierText → Prop
  | word w _ => w = "force_revert" ∨ w = "force_reflect"
  | insertion _ _ => False

instance (t : ModifierText) : Decidable t.IsForcedStep := by
  cases t <;> unfold IsForcedStep <;> infer_instance

end ModifierText

/-- A word for a modifier is in a table of bits, has a meaning of its own, or is about heritable
modifiers. -/
theorem ModifierWord.mem_of_ofWord? {inSequence : Bool} {w : String} {x : ModifierWord}
    (h : ofWord? inSequence w = some x) :
    (∃ table ∈ [Words.subCallModifiers, Words.partModifiers], ∃ i, table.index? w = some i ∧
        x = .complete (.plain (Words.bit i))) ∨
      ofSpecialWord? w = some x ∨ (∃ bits, x = .complete (.inherits bits)) ∨
        ∃ bits, Words.forceBits? w = some bits ∧ x = .complete (.forces bits) := by
  simp only [ofWord?, Option.orElse_eq_orElse, Option.orElse_eq_or, Option.or_eq_some_iff] at h
  rcases h with h | ⟨-, h | ⟨-, h | ⟨-, h | ⟨-, h⟩⟩⟩⟩
  · obtain ⟨i, hi, rfl⟩ := Option.map_eq_some_iff.1 h
    exact .inl ⟨_, by simp, i, hi, rfl⟩
  · split at h
    · obtain ⟨i, hi, rfl⟩ := Option.map_eq_some_iff.1 h
      exact .inl ⟨_, by simp, i, hi, rfl⟩
    · cases h
  · exact .inr (.inl h)
  · obtain ⟨i, -, rfl⟩ := Option.map_eq_some_iff.1 h
    exact .inr (.inr (.inl ⟨_, rfl⟩))
  · obtain ⟨bits, hbits, rfl⟩ := Option.map_eq_some_iff.1 h
    exact .inr (.inr (.inr ⟨bits, hbits, rfl⟩))

/-- The two words for insertions stand for them in either kind of definition. -/
theorem ModifierWord.ofWord?_insertion (inSequence : Bool) :
    ofWord? inSequence "insert_number" = some (.insertion false) ∧
      ofWord? inSequence "insert_fractal" = some (.insertion true) := by
  have hall : ∀ b : Bool, ofWord? b "insert_number" = some (.insertion false) ∧
      ofWord? b "insert_fractal" = some (.insertion true) := by decide +kernel
  exact hall inSequence

/-- Only two words ask for a number. -/
theorem ModifierWord.eq_of_insertion {inSequence : Bool} {w : String} {fractal : Bool}
    (h : ofWord? inSequence w = some (.insertion fractal)) :
    w = "insert_number" ∨ w = "insert_fractal" := by
  rcases mem_of_ofWord? h with ⟨_, -, _, -, h⟩ | h | ⟨_, h⟩ | ⟨_, -, h⟩
  · cases h
  · unfold ofSpecialWord? at h
    split at h <;> first | (cases h; done) | simp
  · cases h
  · cases h

/-- **The modifiers that words stand for are regular**, single steps apart. -/
theorem ModifierWord.isRegular {inSequence : Bool} {w : String} {x : Modifier}
    (hstep : ¬ (w = "force_revert" ∨ w = "force_reflect"))
    (h : ofWord? inSequence w = some (.complete x)) : x.IsRegular := by
  have hbits : ∀ table ∈ [Words.subCallModifiers, Words.partModifiers],
      ∀ e ∈ Words.bitEntries table, e.1 ≠ "" → e.2 &&& insertionMask = 0 := by decide +kernel
  have hforces : ∀ e ∈ Words.forceEntries,
      ¬ (e.1 = "force_revert" ∨ e.1 = "force_reflect") → IsWhole e.2 := by decide +kernel
  rcases mem_of_ofWord? h with ⟨table, htable, i, hi, h⟩ | h | ⟨bits, h⟩ | ⟨bits, hb, h⟩
  · cases h
    exact hbits table htable _ (Words.mem_bitEntries (congrArg (Option.map Words.bit) hi))
      (Vocabulary.ne_empty_of_index? hi)
  · unfold ofSpecialWord? at h
    split at h <;> cases h <;> decide
  · cases h
    exact trivial
  · cases h
    exact hforces _ (Words.mem_forceEntries hb) hstep

/-- A modifier of a text is regular unless it adds a single step. -/
theorem ModifierText.isRegular {inSequence : Bool} {t : ModifierText} {x : Modifier}
    (ht : ¬ t.IsForcedStep) (h : t.modifier? inSequence = some x) : x.IsRegular := by
  cases t with
  | insertion fractal n =>
    cases h
    exact trivial
  | word w complete =>
    rw [modifier?] at h
    split at h <;> cases h
    exact ModifierWord.isRegular ht ‹_›

/-! ### Lists in their order -/

/-- Add modifiers as a text has them, in their order. -/
def readAll (inSequence : Bool) (flags : UInt32) (ts : List ModifierText) :
    Option SubCallModifiers :=
  ts.foldlM (fun m t => (t.modifier? inSequence).bind fun x => (m.add flags x).toOption) {}

/-- The modifiers that a text has. -/
def modifiersOf (inSequence : Bool) (ts : List ModifierText) : List Modifier :=
  ts.filterMap (·.modifier? inSequence)

/-- None of a list of modifiers stands behind one that bars it. -/
def InOrder (inSequence : Bool) (ts : List ModifierText) : Prop :=
  (modifiersOf inSequence ts).Pairwise fun x y => ¬ x.Bars y

instance (inSequence : Bool) (ts : List ModifierText) : Decidable (InOrder inSequence ts) :=
  inferInstanceAs (Decidable (List.Pairwise _ _))

/-- Modifiers that are known are added, and a list with an unknown one is refused. -/
theorem readAll_eq (inSequence : Bool) (flags : UInt32) (ts : List ModifierText) :
    readAll inSequence flags ts = if ∀ t ∈ ts, (t.modifier? inSequence).isSome then
      addAll flags (modifiersOf inSequence ts) else none := by
  rw [readAll, addAll, modifiersOf]
  generalize ({} : SubCallModifiers) = m
  induction ts generalizing m with
  | nil => simp
  | cons t ts ih =>
    rw [List.foldlM_cons]
    cases ht : t.modifier? inSequence with
    | none => simp [ht]
    | some x =>
      rw [List.filterMap_cons_some ht, List.foldlM_cons]
      cases hx : (m.add flags x).toOption with
      | none => simp [ht, hx]
      | some m' => simp [ht, hx, ih]

/-- All modifiers of a text are regular unless one adds a single step. -/
theorem isRegular_of_mem_modifiersOf {inSequence : Bool} {ts : List ModifierText}
    (hts : ∀ t ∈ ts, ¬ t.IsForcedStep) : ∀ x ∈ modifiersOf inSequence ts, x.IsRegular := by
  intro x hx
  obtain ⟨t, ht, hx⟩ := List.mem_filterMap.1 hx
  exact t.isRegular (hts t ht) hx

/-- **A list that is not in order is refused.** -/
theorem readAll_of_not_inOrder {inSequence : Bool} {flags : UInt32} {ts : List ModifierText}
    (hts : ∀ t ∈ ts, ¬ t.IsForcedStep) (h : ¬ InOrder inSequence ts) :
    readAll inSequence flags ts = none := by
  have hnone : addAll flags (modifiersOf inSequence ts) = none := by
    refine Option.eq_none_iff_forall_ne_some.2 fun m hm => h ?_
    exact ((addAll_eq_some_iff (isRegular_of_mem_modifiersOf hts)).1 hm).2.1.imp And.right
  rw [readAll_eq, hnone, ite_self]

/-- **All orders in which a list is in order come to the same.** -/
theorem readAll_perm {inSequence : Bool} {flags : UInt32} {ts ts' : List ModifierText}
    (hperm : ts.Perm ts') (hts : ∀ t ∈ ts, ¬ t.IsForcedStep) (h : InOrder inSequence ts)
    (h' : InOrder inSequence ts') :
    readAll inSequence flags ts = readAll inSequence flags ts' := by
  have hmodifiers : (modifiersOf inSequence ts).Perm (modifiersOf inSequence ts') :=
    hperm.filterMap _
  rw [readAll_eq, readAll_eq, addAll_perm hmodifiers (isRegular_of_mem_modifiersOf hts) h h']
  simp only [hperm.mem_iff]

/-! ### Lists in brackets -/

namespace Parser

open Consumer

variable {inSequence : Bool} {flags : UInt32} {r : Reading}

/-- The loop for modifiers stops at the closing bracket. -/
theorem modifierStep_of_bracket {m : SubCallModifiers} {rest : List Token}
    (h : r.tokens = .rightBracket :: rest) :
    modifierStep inSequence flags m r = .ok (.inr m, r) := by
  rw [modifierStep, bind_of_ok (isAt_of_tokens h _)]
  rfl

/-- A modifier whose last token is the current one is added, or refused. -/
theorem added_of_tokens {m : SubCallModifiers} {x : Modifier} {t : Token} {more : List Token}
    (h : r.tokens = t :: more) (hmore : more ≠ []) :
    ((do
      let m ← accepted (m.add flags x)
      advance
      return .inl m : Parser (SubCallModifiers ⊕ SubCallModifiers)) r).toOption
      = (m.add flags x).toOption.map fun m => (.inl m, { r with tokens := more }) := by
  cases hx : m.add flags x with
  | error => rfl
  | ok m' =>
    rw [bind_of_ok (accepted_eq_ok.2 ⟨rfl, rfl⟩), bind_of_ok (advance_of_tokens h hmore)]
    rfl

/-- A turn of the loop adds a modifier to those before it. -/
theorem modifierStep_of_tokens {m : SubCallModifiers} {t : ModifierText} {more : List Token}
    (h : r.tokens = t.tokens ++ more) (hmore : more ≠ []) :
    (modifierStep inSequence flags m r).toOption
      = ((t.modifier? inSequence).bind fun x => (m.add flags x).toOption).map fun m =>
        (.inl m, { r with tokens := more }) := by
  cases t with
  | word w complete =>
    have h : r.tokens = .word w :: more := h
    rw [modifierStep, bind_of_ok (isAt_of_tokens h _), if_neg (by simp),
      bind_of_ok (symbolHere_of_tokens h _), ModifierText.modifier?]
    cases hw : ModifierWord.ofWord? inSequence w with
    | none => rfl
    | some x =>
      rw [bind_of_ok (orFail_eq_ok.2 ⟨rfl, rfl⟩)]
      cases x with
      | insertion fractal =>
        rcases ModifierWord.eq_of_insertion hw with rfl | rfl
        · exact absurd rfl complete.1
        · exact absurd rfl complete.2
      | complete x =>
        have hmodifier : modifier m (.complete x) r = .ok (x, r) := rfl
        rw [bind_of_ok hmodifier]
        exact added_of_tokens h hmore
  | insertion fractal n =>
    obtain ⟨w, h, hw⟩ : ∃ w, r.tokens = .word w :: .number n :: more ∧
        ModifierWord.ofWord? inSequence w = some (.insertion fractal) := by
      cases fractal
      · exact ⟨"insert_number", h, (ModifierWord.ofWord?_insertion inSequence).1⟩
      · exact ⟨"insert_fractal", h, (ModifierWord.ofWord?_insertion inSequence).2⟩
    rw [modifierStep, bind_of_ok (isAt_of_tokens h _), if_neg (by simp),
      bind_of_ok (symbolHere_of_tokens h _), hw, bind_of_ok (orFail_eq_ok.2 ⟨rfl, rfl⟩)]
    cases hroom : m.insertable with
    | error e =>
      have hadd : m.add flags (.insertion fractal n) = .error e := by
        rw [add, hroom]
        rfl
      have hmodifier : ∃ e, modifier m (.insertion fractal) r = .error e := by
        rw [modifier, hroom]
        exact ⟨_, rfl⟩
      obtain ⟨e, hmodifier⟩ := hmodifier
      rw [bind_of_error hmodifier, ModifierText.modifier?, Option.bind_some, hadd]
      rfl
    | ok =>
      have hmodifier : modifier m (.insertion fractal) r
          = .ok (.insertion fractal n, { r with tokens := .number n :: more }) := by
        rw [modifier, hroom, bind_of_ok (accepted_eq_ok.2 ⟨rfl, rfl⟩),
          bind_of_ok (number_of_tokens h _)]
        rfl
      rw [bind_of_ok hmodifier]
      exact added_of_tokens rfl hmore

/-- **Modifiers in brackets are added in their order.** -/
theorem modifiers_of_tokens {t : Token} {ts : List ModifierText} {rest : List Token}
    (h : r.tokens = t :: .leftBracket :: (ts.flatMap (·.tokens) ++ .rightBracket :: rest)) :
    (modifiers inSequence flags r).toOption = (readAll inSequence flags ts).map fun m =>
      (m, { r with tokens := .rightBracket :: rest }) := by
  rw [modifiers, bracketed_of_tokens h (by simp)]
  exact loop_items (fun _ _ _ hr => modifierStep_of_bracket hr)
    (fun _ t _ _ hr hmore => modifierStep_of_tokens (t := t) hr hmore) ts {} rfl

end Parser

/-- **The order of modifiers**, without single steps of reverting and reflecting.  All orders in
which a list is in order are accepted or refused together and come to the same, and an order in
which a modifier stands behind one that bars it is refused. -/
theorem modifiers_ofOrder {inSequence : Bool} {flags : UInt32} {ts ts' : List ModifierText}
    (hperm : ts.Perm ts') (hsteps : ∀ t ∈ ts, ¬ t.IsForcedStep) {r r' : Reading} {t t' : Token}
    {rest rest' : List Token}
    (h : r.tokens = t :: .leftBracket :: (ts.flatMap (·.tokens) ++ .rightBracket :: rest))
    (h' : r'.tokens = t' :: .leftBracket :: (ts'.flatMap (·.tokens) ++ .rightBracket :: rest')) :
    (InOrder inSequence ts → InOrder inSequence ts' →
      (Parser.modifiers inSequence flags r).toOption.map (·.1)
        = (Parser.modifiers inSequence flags r').toOption.map (·.1)) ∧
      (¬ InOrder inSequence ts → (Parser.modifiers inSequence flags r).toOption = none) := by
  rw [Parser.modifiers_of_tokens h, Parser.modifiers_of_tokens h']
  constructor
  · intro hts hts'
    rw [readAll_perm hperm hsteps hts hts', Option.map_map, Option.map_map]
    rfl
  · intro hts
    rw [readAll_of_not_inOrder hsteps hts, Option.map_none]

/-- A reference to a call with modifiers. -/
def withModifiers (ts : List ModifierText) : Reading where
  tokens := .word "pass_thru" :: .leftBracket :: (ts.flatMap (·.tokens) ++ [.rightBracket])
  failure := none

/-- The modifiers `inherit_left force_3x1 insert_number 2 finish_this_part`. -/
def sampleModifiers : List ModifierText :=
  [.word "inherit_left" (by decide), .word "force_3x1" (by decide), .insertion false 2,
   .word "finish_this_part" (by decide)]

/-- A list of modifiers and the reverse of it come to the same. -/
theorem modifiers_ofOrder_sampleModifiers :
    sampleModifiers.Perm sampleModifiers.reverse ∧ (∀ t ∈ sampleModifiers, ¬ t.IsForcedStep) ∧
      InOrder true sampleModifiers ∧ InOrder true sampleModifiers.reverse ∧
      (Parser.modifiers true 0 (withModifiers sampleModifiers)).toOption.map (·.1)
        = some { plain := 0x204000, heritable := 0x800004 } ∧
      (Parser.modifiers true 0 (withModifiers sampleModifiers.reverse)).toOption.map (·.1)
        = some { plain := 0x204000, heritable := 0x800004 } := by
  have hperm : sampleModifiers.Perm sampleModifiers.reverse := (List.reverse_perm _).symm
  have hall : (∀ t ∈ sampleModifiers, ¬ t.IsForcedStep) ∧ InOrder true sampleModifiers ∧
      InOrder true sampleModifiers.reverse ∧
      readAll true 0 sampleModifiers = some { plain := 0x204000, heritable := 0x800004 } := by
    decide +kernel
  obtain ⟨hsteps, horder, horder', hread⟩ := hall
  have hread : (Parser.modifiers true 0 (withModifiers sampleModifiers)).toOption.map (·.1)
      = some { plain := 0x204000, heritable := 0x800004 } := by
    rw [Parser.modifiers_of_tokens rfl, hread]
    rfl
  have hsame : (Parser.modifiers true 0 (withModifiers sampleModifiers)).toOption.map (·.1)
      = (Parser.modifiers true 0 (withModifiers sampleModifiers.reverse)).toOption.map (·.1) :=
    (modifiers_ofOrder hperm hsteps rfl rfl).1 horder horder'
  exact ⟨hperm, hsteps, horder, horder', hread, hsame.symm.trans hread⟩

/-- The modifiers `force_singlefile inherit_single`, of which the second bars the first. -/
def swappedModifiers : List ModifierText :=
  [.word "force_singlefile" (by decide), .word "inherit_single" (by decide)]

/-- A list of modifiers may be accepted in one order and refused in the other. -/
theorem modifiers_swappedModifiers :
    swappedModifiers.Perm swappedModifiers.reverse ∧ (∀ t ∈ swappedModifiers, ¬ t.IsForcedStep) ∧
      (Parser.modifiers true single (withModifiers swappedModifiers)).toOption.map (·.1)
        = some { plain := 0, heritable := single ||| singleFile } ∧
      (Parser.modifiers true single (withModifiers swappedModifiers.reverse)).toOption = none := by
  have hall : (∀ t ∈ swappedModifiers, ¬ t.IsForcedStep) ∧
      readAll true single swappedModifiers
        = some { plain := 0, heritable := single ||| singleFile } ∧
      readAll true single swappedModifiers.reverse = none := by decide +kernel
  obtain ⟨hsteps, hread, hrefused⟩ := hall
  rw [Parser.modifiers_of_tokens rfl, Parser.modifiers_of_tokens rfl, hread, hrefused]
  exact ⟨(List.reverse_perm _).symm, hsteps, rfl, rfl⟩

end CallText
end SquareDance
