/-
# Wheels that carry

A wheel goes from one position to the next and comes back to zero.  Of wheels in a row
the first always turns, and each other one when the wheel before it comes back to zero:
`carry`.  Main statement: if each wheel comes back after some positions, then all of
them together come back after all rows of such positions, each of which they show once,
`IsCycle.carry`.

The positions of a wheel are listed from zero on, without the zero at the end.  The
rows are `List.sections`, where the first wheel goes through its positions before the
second one turns.
-/

import Mathlib.Algebra.Group.Nat.Defs
import Mathlib.Data.List.Nodup
import Mathlib.Data.List.Sections
import SquareDance.Search.Odometer

namespace SquareDance

variable {α : Type}

/-! ### Paths -/

/-- States that follow one another lead from a state to another, which is not listed. -/
def IsPath (next : α → α) : α → List α → α → Prop
  | a, [], b => a = b
  | a, x :: l, b => x = a ∧ IsPath next (next a) l b

instance [DecidableEq α] (next : α → α) : (a : α) → (l : List α) → (b : α) →
    Decidable (IsPath next a l b)
  | a, [], b => inferInstanceAs (Decidable (a = b))
  | a, x :: l, b =>
    have := instDecidableIsPathOfDecidableEq next (next a) l b
    inferInstanceAs (Decidable (x = a ∧ IsPath next (next a) l b))

namespace IsPath

variable {next : α → α} {a b c : α} {l l' : List α}

/-- A path goes on from where another one ends. -/
theorem append (h : IsPath next a l b) (h' : IsPath next b l' c) :
    IsPath next a (l ++ l') c := by
  induction l generalizing a with
  | nil =>
    obtain rfl : a = b := h
    exact h'
  | cons x l ih => exact ⟨h.1, ih h.2⟩

/-- What follows a state of a path is the next one, or the end. -/
theorem next_mem (h : IsPath next a l b) {x : α} (hx : x ∈ l) : next x ∈ l ∨ next x = b := by
  induction l generalizing a with
  | nil => cases hx
  | cons y l ih =>
    obtain ⟨rfl, h⟩ := h
    rcases List.mem_cons.1 hx with rfl | hx
    · cases l with
      | nil => exact .inr h
      | cons z l =>
        obtain rfl : z = next x := h.1
        exact .inl (by simp)
    · rcases ih h hx with hmem | rfl
      · exact .inl (List.mem_cons_of_mem _ hmem)
      · exact .inr rfl

/-- Numbers in order make up a path of the successor. -/
theorem range' {next : Nat → Nat} {a n b : Nat} (hn : 0 < n)
    (hsucc : ∀ i, a ≤ i → i + 1 < a + n → next i = i + 1) (hlast : next (a + n - 1) = b) :
    IsPath next a (List.range' a n) b := by
  induction n generalizing a with
  | zero => omega
  | succ n ih =>
    refine ⟨rfl, ?_⟩
    rcases Nat.eq_zero_or_pos n with rfl | hpos
    · exact hlast
    · rw [hsucc a (Nat.le_refl _) (by omega)]
      refine ih hpos (fun i hi hlt => hsucc i (by omega) (by omega)) ?_
      rw [← hlast]
      congr 1
      omega

end IsPath

/-! ### Cycles -/

/-- Beginning with zero, states follow one another until they come back to zero. -/
structure IsCycle (next : α → α) (zero : α) (states : List α) : Prop where
  path : IsPath next zero states zero
  ne_nil : states ≠ []
  zero_not_mem : zero ∉ states.tail

namespace IsCycle

variable {next : α → α} {zero : α} {states : List α}

/-- A cycle begins with zero and does not come back to it before its end. -/
theorem exists_eq_cons (h : IsCycle next zero states) : ∃ l, states = zero :: l ∧ zero ∉ l := by
  obtain ⟨hpath, hne, hzero⟩ := h
  cases states with
  | nil => exact absurd rfl hne
  | cons x l =>
    obtain rfl : x = zero := hpath.1
    exact ⟨l, rfl, hzero⟩

/-- Zero is in a cycle. -/
theorem zero_mem (h : IsCycle next zero states) : zero ∈ states := by
  obtain ⟨l, rfl, -⟩ := h.exists_eq_cons
  exact List.mem_cons_self

/-- What follows a state of a cycle is in the cycle. -/
theorem next_mem (h : IsCycle next zero states) {x : α} (hx : x ∈ states) : next x ∈ states := by
  rcases h.path.next_mem hx with hmem | hzero
  · exact hmem
  · rw [hzero]
    exact h.zero_mem

end IsCycle

/-- A wheel with some positions comes back to zero after all of them. -/
theorem isCycle_turn {n : Nat} (hn : 0 < n) :
    IsCycle (fun i => Odometer.turn i n) 0 (List.range n) := by
  refine ⟨?_, ?_, ?_⟩
  · rw [List.range_eq_range']
    refine IsPath.range' hn (fun i _ hi => ?_) ?_
    · exact if_neg (by omega)
    · exact if_pos (by omega)
  · rw [ne_eq, List.range_eq_nil]
    omega
  · rw [List.range_eq_range', List.tail_range', List.mem_range']
    omega

/-! ### Carrying -/

/-- Turn wheels in a row, each if the one before it comes back to zero. -/
def carry : List (Nat → Nat) → List Nat → List Nat
  | next :: more, p :: ps => next p :: if next p = 0 then carry more ps else ps
  | _, _ => []

/-- While the first wheel does not come back, the others stay as they are; then they
turn. -/
theorem IsPath.carry_first {next : Nat → Nat} {more : List (Nat → Nat)} {ps : List Nat}
    {a : Nat} {l : List Nat} (hne : l ≠ []) (hzero : 0 ∉ l.tail) (h : IsPath next a l 0) :
    IsPath (carry (next :: more)) (a :: ps) (l.map (· :: ps)) (0 :: carry more ps) := by
  induction l generalizing a with
  | nil => exact absurd rfl hne
  | cons x l ih =>
    obtain ⟨rfl, h⟩ := h
    refine ⟨rfl, ?_⟩
    cases l with
    | nil =>
      have hback : next x = 0 := h
      simp only [List.map_nil, IsPath, carry, hback, if_true]
    | cons y l =>
      have hy : y = next x := h.1
      have hstay : next x ≠ 0 := fun hback => hzero (by rw [← hback, ← hy]; simp)
      have hstep : carry (next :: more) (x :: ps) = next x :: ps := by
        simp only [carry, if_neg hstay]
      rw [hstep]
      exact ih (by simp) (fun hmem => hzero (List.mem_cons_of_mem _ hmem)) h

/-- Each turn of the other wheels takes a whole turn of the first one. -/
theorem IsPath.carry_rest {next : Nat → Nat} {more : List (Nat → Nat)} {first : List Nat}
    (hfirst : IsCycle next 0 first) {ps qs : List Nat} {rows : List (List Nat)}
    (h : IsPath (carry more) ps rows qs) :
    IsPath (carry (next :: more)) (0 :: ps) (rows.flatMap fun row => first.map (· :: row))
      (0 :: qs) := by
  induction rows generalizing ps with
  | nil => exact congrArg (0 :: ·) h
  | cons row rows ih =>
    obtain ⟨rfl, h⟩ := h
    rw [List.flatMap_cons]
    exact (IsPath.carry_first hfirst.ne_nil hfirst.zero_not_mem hfirst.path).append (ih h)

/-- **Wheels in a row show every row of their positions once.**  They go through all
of them, and not before that do they all come back to zero. -/
theorem IsCycle.carry {wheels : List ((Nat → Nat) × List Nat)}
    (h : ∀ w ∈ wheels, IsCycle w.1 0 w.2) :
    IsCycle (carry (wheels.map (·.1))) (wheels.map fun _ => 0)
      (List.sections (wheels.map (·.2))) := by
  induction wheels with
  | nil => exact ⟨⟨rfl, rfl⟩, by simp [List.sections], by simp [List.sections]⟩
  | cons w wheels ih =>
    obtain ⟨next, first⟩ := w
    have hfirst : IsCycle next 0 first := h _ List.mem_cons_self
    have hrest := ih fun w hw => h w (List.mem_cons_of_mem _ hw)
    obtain ⟨l, rfl, hl⟩ := hfirst.exists_eq_cons
    obtain ⟨rows, hrows, hzeros⟩ := hrest.exists_eq_cons
    refine ⟨IsPath.carry_rest hfirst hrest.path, ?_, ?_⟩
    · simp [List.sections, hrows]
    · rw [List.map_cons, List.sections, hrows]
      simp only [List.map_cons, List.flatMap_cons, List.cons_append, List.tail_cons,
        List.mem_append, List.mem_map, List.mem_flatMap, not_or]
      refine ⟨?_, ?_⟩
      · rintro ⟨p, hp, heq⟩
        cases heq
        exact hl hp
      · rintro ⟨row, hrow, hmem⟩
        have heq : (wheels.map fun _ => 0) = row := by
          rcases List.mem_cons.1 hmem with heq | hmem
          · exact (List.cons.inj heq).2
          · obtain ⟨p, -, heq⟩ := List.mem_map.1 hmem
            exact (List.cons.inj heq).2.symm
        exact hzeros (heq ▸ hrow)

/-! ### Rows -/

/-- There are as many rows as the choices for each place multiply to. -/
theorem length_sections (lists : List (List α)) :
    lists.sections.length = (lists.map List.length).prod := by
  induction lists with
  | nil => rfl
  | cons l lists ih =>
    rw [List.sections, List.length_flatMap, List.map_cons, List.prod_cons, ← ih, Nat.mul_comm]
    simp only [List.length_map, List.map_const', List.sum_replicate_nat]

/-- Rows of different choices are different. -/
theorem nodup_sections {lists : List (List α)} (h : ∀ l ∈ lists, l.Nodup) :
    lists.sections.Nodup := by
  induction lists with
  | nil => simp [List.sections]
  | cons l lists ih =>
    have hl := h l List.mem_cons_self
    have hrest := ih fun l hl => h l (List.mem_cons_of_mem _ hl)
    rw [List.sections, List.nodup_flatMap]
    refine ⟨fun row _ => hl.map fun x y heq => (List.cons.inj heq).1, hrest.imp ?_⟩
    intro row row' hne cs hcs hcs'
    obtain ⟨x, -, rfl⟩ := List.mem_map.1 hcs
    obtain ⟨y, -, heq⟩ := List.mem_map.1 hcs'
    exact hne (List.cons.inj heq).2.symm

end SquareDance
