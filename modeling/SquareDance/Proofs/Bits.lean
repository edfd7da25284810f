/-
# Bits of many words

Flags and modifiers come one after another, and their bits are put together.  `orAll` is the word
with the bits of all of them.  A mask takes a field out of it, which holds what those words hold
there that have anything there.
-/

import Mathlib.Data.List.Basic

namespace SquareDance

variable {xs ys : List UInt32} {a b m x : UInt32}

/-- A mask may be applied to each of two words before they are joined. -/
theorem UInt32.or_and_distrib (a b m : UInt32) : (a ||| b) &&& m = a &&& m ||| b &&& m := by
  apply UInt32.toNat_inj.1
  simp only [UInt32.toNat_or, UInt32.toNat_and, Nat.and_or_distrib_right]

/-- A mask that a word has nothing in common with may be taken away. -/
theorem and_not_eq_self {a m : UInt32} (h : a &&& m = 0) : a &&& ~~~m = a := by
  calc a &&& ~~~m = (a &&& ~~~m) ||| (a &&& m) := by rw [h, UInt32.or_zero]
    _ = (~~~m ||| m) &&& a := by
      rw [UInt32.or_and_distrib, UInt32.and_comm _ a, UInt32.and_comm _ a]
    _ = a := by simp

/-- All the bits of some words. -/
def orAll (xs : List UInt32) : UInt32 := xs.foldr (· ||| ·) 0

/-- No words have no bits. -/
@[simp] theorem orAll_nil : orAll [] = 0 := rfl

/-- One word more adds its bits. -/
@[simp] theorem orAll_cons (x : UInt32) (xs : List UInt32) : orAll (x :: xs) = x ||| orAll xs := rfl

/-- The bits of two lists are joined. -/
theorem orAll_append (xs ys : List UInt32) : orAll (xs ++ ys) = orAll xs ||| orAll ys := by
  induction xs with
  | nil => simp
  | cons x xs ih => rw [List.cons_append, orAll_cons, orAll_cons, ih, UInt32.or_assoc]

/-- A word may be added at the end as well. -/
theorem orAll_concat (xs : List UInt32) (x : UInt32) : orAll (xs ++ [x]) = orAll xs ||| x := by
  rw [orAll_append, orAll_cons, orAll_nil, UInt32.or_zero]

/-- The order of the words does not matter. -/
theorem orAll_perm (h : xs.Perm ys) : orAll xs = orAll ys := by
  refine h.foldr_eq' (fun x _ y _ z => ?_) 0
  rw [← UInt32.or_assoc, ← UInt32.or_assoc, UInt32.or_comm y]

/-! ### No bits, and the same bits -/

/-- There are no bits just if each word has none. -/
theorem orAll_eq_zero_iff : orAll xs = 0 ↔ ∀ x ∈ xs, x = 0 := by
  induction xs with
  | nil => simp
  | cons x xs ih => rw [orAll_cons, UInt32.or_eq_zero_iff, ih, List.forall_mem_cons]

/-- At most one word has its own bits, or none. -/
theorem orAll_of_length_le_one (h : xs.length ≤ 1) : orAll xs = xs.head?.getD 0 := by
  match xs, h with
  | [], _ => rfl
  | [x], _ => exact UInt32.or_zero

/-- Words that are all the same have the bits of one of them. -/
theorem orAll_of_forall_eq (h : ∀ y ∈ xs, y = x) (hx : x ∈ xs) : orAll xs = x := by
  induction xs with
  | nil => cases hx
  | cons y ys ih =>
    rw [List.forall_mem_cons] at h
    obtain ⟨rfl, hys⟩ := h
    by_cases hmem : y ∈ ys
    · rw [orAll_cons, ih hys hmem, UInt32.or_self]
    · have hnil : ys = [] := List.eq_nil_iff_forall_not_mem.2 fun z hz => hmem (hys z hz ▸ hz)
      rw [hnil, orAll_cons, orAll_nil, UInt32.or_zero]

/-! ### Bits under a mask -/

/-- Two words meet a mask just if one of them does. -/
theorem or_and_ne_zero_iff : (a ||| b) &&& m ≠ 0 ↔ a &&& m ≠ 0 ∨ b &&& m ≠ 0 := by
  rw [Ne, UInt32.or_and_distrib, UInt32.or_eq_zero_iff, not_and_or]

/-- Words miss a mask just if each of them does. -/
theorem orAll_and_eq_zero_iff : orAll xs &&& m = 0 ↔ ∀ x ∈ xs, x &&& m = 0 := by
  induction xs with
  | nil => simp
  | cons x xs ih =>
    rw [orAll_cons, UInt32.or_and_distrib, UInt32.or_eq_zero_iff, ih, List.forall_mem_cons]

/-- Bits under a mask, of things that have some there or none. -/
theorem orAll_map_and {α : Type} {f : α → UInt32} {g : α → Option UInt32}
    (h : ∀ x, f x &&& m = (g x).getD 0) (xs : List α) :
    orAll (xs.map f) &&& m = orAll (xs.filterMap g) := by
  induction xs with
  | nil => simp
  | cons x xs ih =>
    rw [List.map_cons, orAll_cons, UInt32.or_and_distrib, ih, h]
    cases hx : g x with
    | none => rw [List.filterMap_cons_none hx, Option.getD_none, UInt32.zero_or]
    | some y => rw [List.filterMap_cons_some hx, Option.getD_some, orAll_cons]

/-- **Of words of which one at most has bits under a mask**, the bits there are those of that
one. -/
theorem orAll_and_of_pairwise (h : xs.Pairwise fun x y => ¬ (x &&& m ≠ 0 ∧ y &&& m ≠ 0))
    (hx : x ∈ xs) (hne : x &&& m ≠ 0) : orAll xs &&& m = x &&& m := by
  induction xs with
  | nil => cases hx
  | cons y xs ih =>
    obtain ⟨hy, hxs⟩ := List.pairwise_cons.1 h
    rw [orAll_cons, UInt32.or_and_distrib]
    rcases List.mem_cons.1 hx with rfl | hx
    · have hrest : orAll xs &&& m = 0 :=
        orAll_and_eq_zero_iff.2 fun z hz => not_not.1 fun hc => hy z hz ⟨hne, hc⟩
      rw [hrest, UInt32.or_zero]
    · rw [ih hxs hx, not_not.1 fun hc => hy x hx ⟨hc, hne⟩, UInt32.zero_or]

end SquareDance
