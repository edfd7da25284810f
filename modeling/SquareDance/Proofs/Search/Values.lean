/-
# Values and their hash

Every value chosen for a candidate is folded into the hash of a search: the position of the call,
the people, the direction, each number, the position of the tagging call and the circulating call.
The hash of some values is what folding them one after another makes of a hash (`hashOf`).

A fold multiplies by an odd number, which can be undone modulo 2^32.  So values of the same kinds
that fit into words and differ in one place have different hashes, whatever is folded after it:
`hashOf_ne`.  Positions fit into words if the catalog was made of fewer than 2^32 calls, because no
list of a catalog is longer than that of its calls: `Catalog.isWithin_ofCalls`.
-/

import Mathlib.Algebra.Group.Nat.Defs
import SquareDance.CallDirection
import SquareDance.Proofs.Search.Sorting
import SquareDance.Search

namespace SquareDance

/-! ### Values that are folded -/

/-- No two designators are at one position. -/
theorem Designator.index_inj {d d' : Designator} (h : d.index = d'.index) : d = d' := by
  have hd := ofIndex?_index d
  rw [h, ofIndex?_index] at hd
  exact (Option.some.inj hd).symm

/-- No two directions are at one position. -/
theorem CallDirection.index_inj {d d' : CallDirection} (h : d.index = d'.index) : d = d' := by
  have hd := ofIndex?_index d
  rw [h, ofIndex?_index] at hd
  exact (Option.some.inj hd).symm

/-- What a value was chosen for. -/
inductive ValueKind where
  | call
  | designator
  | direction
  | number
  | tagger
  | circulator
  deriving DecidableEq

/-- A single value that was chosen. -/
inductive ChosenValue where
  /-- The position of the call in the catalog. -/
  | call (position : Nat)
  | designator (d : Designator)
  | direction (d : CallDirection)
  | number (n : Nat)
  /-- The position of the tagging call in its class. -/
  | tagger (position : Nat)
  /-- A circulating call, counted from 1. -/
  | circulator (n : Nat)
  deriving DecidableEq

namespace ChosenValue

variable {v v' : ChosenValue}

/-- What the value was chosen for. -/
def kind : ChosenValue → ValueKind
  | call _ => .call
  | designator _ => .designator
  | direction _ => .direction
  | number _ => .number
  | tagger _ => .tagger
  | circulator _ => .circulator

/-- What is folded into the hash. -/
def code : ChosenValue → Nat
  | call position | tagger position => position
  | designator d => d.index
  | direction d => d.index
  | number n | circulator n => n - 1

/-- The value is one that a word can tell. -/
def Fits : ChosenValue → Prop
  | call position | tagger position => position < 2 ^ 32
  | designator _ | direction _ => True
  | number n | circulator n => 1 ≤ n ∧ n ≤ 2 ^ 32

/-- The code of a value that fits is a word. -/
theorem Fits.code_lt (h : v.Fits) : v.code < 2 ^ 32 := by
  cases v with
  | call | tagger => exact h
  | number | circulator =>
    rw [Fits] at h
    rw [code]
    omega
  | designator d =>
    have hlt : d.index < Designator.list.length :=
      List.idxOf_lt_length_of_mem (Designator.mem_list d)
    exact Nat.lt_trans hlt (by decide)
  | direction d => cases d <;> decide

/-- Values of one kind that fit are told by their codes. -/
theorem Fits.eq_of_code (h : v.Fits) (h' : v'.Fits) (hkind : v.kind = v'.kind)
    (hcode : v.code = v'.code) : v = v' := by
  cases v with
  | call | tagger =>
    cases v' with
    | call | tagger => first | exact congrArg _ hcode | cases hkind
    | _ => cases hkind
  | number n | circulator n =>
    cases v' with
    | number n' | circulator n' =>
      have hn : n = n' := by
        have hcode : n - 1 = n' - 1 := hcode
        have h : 1 ≤ n ∧ n ≤ 2 ^ 32 := h
        have h' : 1 ≤ n' ∧ n' ≤ 2 ^ 32 := h'
        omega
      first | exact congrArg _ hn | cases hkind
    | _ => cases hkind
  | designator d =>
    cases v' with
    | designator d' => exact congrArg _ (Designator.index_inj hcode)
    | _ => cases hkind
  | direction d =>
    cases v' with
    | direction d' => exact congrArg _ (CallDirection.index_inj hcode)
    | _ => cases hkind

/-- **A value is told by its kind and the word for its code.** -/
theorem Fits.eq_of_word (h : v.Fits) (h' : v'.Fits) (hkind : v.kind = v'.kind)
    (hword : UInt32.ofNat v.code = UInt32.ofNat v'.code) : v = v' := by
  refine h.eq_of_code h' hkind ?_
  have hcode := congrArg UInt32.toNat hword
  rwa [UInt32.toNat_ofNat_of_lt' h.code_lt, UInt32.toNat_ofNat_of_lt' h'.code_lt] at hcode

end ChosenValue

/-! ### The hash of some values -/

/-- The hash after some values were chosen, from a hash before. -/
def hashOf (h : UInt32) (vs : List ChosenValue) : UInt32 :=
  vs.foldl (fun h v => h * Search.hashMultiplier + UInt32.ofNat v.code) h

/-- The first value is folded before the others. -/
theorem hashOf_cons (h : UInt32) (v : ChosenValue) (vs : List ChosenValue) :
    hashOf h (v :: vs) = hashOf (h * Search.hashMultiplier + UInt32.ofNat v.code) vs := rfl

/-- Values are folded one after another. -/
theorem hashOf_append (h : UInt32) (vs ws : List ChosenValue) :
    hashOf h (vs ++ ws) = hashOf (hashOf h vs) ws := List.foldl_append

/-- What the multiplier is undone by. -/
def hashDivisor : UInt32 := 65044449

/-- The multiplier and what undoes it make one. -/
theorem hashMultiplier_mul_hashDivisor : Search.hashMultiplier * hashDivisor = 1 := by decide

/-- **The multiplier can be undone.** -/
theorem mul_hashMultiplier_inj {a b : UInt32}
    (h : a * Search.hashMultiplier = b * Search.hashMultiplier) : a = b := by
  have hundo : ∀ c : UInt32, c * Search.hashMultiplier * hashDivisor = c := fun c => by
    rw [UInt32.mul_assoc, hashMultiplier_mul_hashDivisor, UInt32.mul_one]
  rw [← hundo a, h, hundo]

/-- The hash before can be told from the hash after and the values. -/
theorem hashOf_inj {vs : List ChosenValue} {a b : UInt32} (h : hashOf a vs = hashOf b vs) :
    a = b := by
  induction vs generalizing a b with
  | nil => exact h
  | cons v vs ih => exact mul_hashMultiplier_inj ((UInt32.add_left_inj _).1 (ih h))

/-- **Values that differ in one place have different hashes.** -/
theorem hashOf_ne {h : UInt32} {pre post : List ChosenValue} {v v' : ChosenValue} (hv : v.Fits)
    (hv' : v'.Fits) (hkind : v.kind = v'.kind) (hne : v ≠ v') :
    hashOf h (pre ++ v :: post) ≠ hashOf h (pre ++ v' :: post) := by
  intro heq
  rw [hashOf_append, hashOf_append, hashOf_cons, hashOf_cons] at heq
  exact hne (hv.eq_of_word hv' hkind ((UInt32.add_right_inj _).1 (hashOf_inj heq)))

/-! ### Catalogs of few calls -/

namespace Catalog

variable {c : Catalog} {n : Nat}

/-- No list of the catalog is longer than a bound. -/
structure IsWithin (c : Catalog) (n : Nat) : Prop where
  calls : c.calls.size ≤ n
  taggers : ∀ cls, (c.taggersOf cls).size ≤ n
  circulators : c.circulators.size ≤ n

/-- Lists within a bound are within a greater one. -/
theorem IsWithin.mono (h : c.IsWithin n) {m : Nat} (hle : n ≤ m) : c.IsWithin m :=
  ⟨Nat.le_trans h.calls hle, fun cls => Nat.le_trans (h.taggers cls) hle,
    Nat.le_trans h.circulators hle⟩

/-- No more calls are pointed out than there are. -/
theorem PointsOut.size_circulators_le (h : c.PointsOut) : c.circulators.size ≤ c.calls.size := by
  rw [← Array.length_toList, h]
  exact Nat.le_trans (List.length_filter_le _ _) (Nat.le_of_eq List.length_range)

/-- No class has more tagging calls than there are calls. -/
theorem size_taggersOf_ofCalls_le (given : List CatalogCall) (cls : Nat) :
    ((ofCalls given).taggersOf cls).size ≤ given.length := by
  rw [← Array.length_toList]
  obtain rfl | ⟨hpos, hle⟩ | hgt : cls = 0 ∨ 1 ≤ cls ∧ cls ≤ 3 ∨ 4 ≤ cls := by omega
  · rw [taggersOf_ofCalls_zero]
    exact List.length_filter_le _ _
  · rw [taggersOf_ofCalls hpos hle]
    exact List.length_filterMap_le _ _
  · rw [taggersOf, Vector.getElem?_eq_none hgt]
    exact Nat.zero_le _

/-- **A catalog is no longer than the list of calls** that it was made of. -/
theorem isWithin_ofCalls (calls : List CatalogCall) : (ofCalls calls).IsWithin calls.length := by
  have hcalls : (ofCalls calls).calls.size ≤ calls.length := by
    rw [← Array.length_toList, calls_ofCalls]
    exact List.length_filter_le _ _
  exact ⟨hcalls, size_taggersOf_ofCalls_le calls,
    Nat.le_trans (pointsOut_ofCalls calls).size_circulators_le hcalls⟩

/-- A catalog of some calls, with any concepts. -/
def IsOf (c : Catalog) (calls : List CatalogCall) : Prop :=
  ∃ concepts scanConcepts, c = { ofCalls calls with concepts, scanConcepts }

/-- The concepts of a catalog have no effect on how long its lists are. -/
theorem IsOf.isWithin {calls : List CatalogCall} (h : c.IsOf calls) :
    c.IsWithin calls.length := by
  obtain ⟨concepts, scanConcepts, rfl⟩ := h
  obtain ⟨hcalls, htaggers, hcirculators⟩ := isWithin_ofCalls calls
  exact ⟨hcalls, htaggers, hcirculators⟩

end Catalog

end SquareDance
