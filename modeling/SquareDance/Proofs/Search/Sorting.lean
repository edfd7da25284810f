/-
# What a catalog is made of

The calls of a list are sorted into a catalog one after another.  Those that are no tagging calls
of one of the four classes are the calls to choose from; the circulating ones are pointed out among
them by their positions.  Every tagging call stands in class 0, and one of another class in its own
as well.  One of class 0 that needs a tagging call itself also stands in the other classes, where
it needs one of the same class (`CatalogCall.inClass?`).

Each list of the catalog is that of the calls before, with what one more call adds to it
(`Catalog.foldl_add_eq`).  So nothing is lost, doubled or put out of order.  Main statement:
`Catalog.sorts_ofCalls`.
-/

import Mathlib.Data.List.Basic
import SquareDance.Search.Catalog

namespace SquareDance

namespace CatalogCall

/-- The call is a tagging call of one of the classes. -/
def isTagging (call : CatalogCall) : Bool := call.taggerClass?.any (· < Catalog.classCount)

/-- What stands for a call in a class other than 0: a tagging call of the class itself, and for one
of class 0 that needs a tagging call a copy that needs one of the class. -/
def inClass? (cls : Nat) (call : CatalogCall) : Option CatalogCall :=
  if call.taggerClass? = some cls then some call
  else if call.taggerClass? = some 0 ∧ call.needs.tagger.isSome then
    some { call with needs := { call.needs with tagger := some cls } }
  else none

end CatalogCall

namespace Catalog

variable {c : Catalog} {cls cls' : Nat}

/-- The catalog holds what some calls are sorted into, and nothing else. -/
structure Sorts (c : Catalog) (given : List CatalogCall) : Prop where
  /-- The calls to choose from are those that are no tagging calls, in their order. -/
  calls : c.calls.toList = given.filter (!·.isTagging)
  /-- The positions of circulating calls come in increasing order. -/
  increasing : c.circulators.toList.Pairwise (· < ·)
  /-- They are the positions of the circulating calls, and no others. -/
  mem_circulators : ∀ i, i ∈ c.circulators.toList ↔
    ∃ call, c.calls[i]? = some call ∧ call.isCirculator = true
  /-- Class 0 has all tagging calls, each once and in their order. -/
  tagging : (c.taggersOf 0).toList = given.filter (·.isTagging)
  /-- Another class has what stands for a call in it, in the order of the calls. -/
  taggers : ∀ cls, 1 ≤ cls → cls ≤ 3 →
    (c.taggersOf cls).toList = given.filterMap (·.inClass? cls)

/-! ### One more call -/

/-- A tagging call is put behind the others of its class. -/
theorem taggersOf_addTagger (c : Catalog) (cls cls' : Nat) (call : CatalogCall) :
    ((c.addTagger cls call).taggersOf cls').toList
      = (c.taggersOf cls').toList ++ if cls' = cls ∧ cls < 4 then [call] else [] := by
  unfold addTagger
  split
  next h =>
    unfold taggersOf
    by_cases hcls : cls' = cls
    · subst hcls
      simp [h]
    · rw [Vector.getElem?_set_ne _ (Ne.symm hcls), if_neg fun h => hcls h.1, List.append_nil]
  next h => simp [h]

/-- A tagging call is no choice of its own. -/
theorem addTagger_plain (c : Catalog) (cls : Nat) (call : CatalogCall) :
    (c.addTagger cls call).calls = c.calls ∧
      (c.addTagger cls call).circulators = c.circulators := by
  unfold addTagger
  split <;> exact ⟨rfl, rfl⟩

/-- A tagging call is no choice of its own, in whatever classes it is put. -/
theorem addTagging_plain (c : Catalog) (cls : Nat) (call : CatalogCall) :
    (c.addTagging cls call).calls = c.calls ∧
      (c.addTagging cls call).circulators = c.circulators := by
  unfold addTagging addNested
  split
  · simp only [addTagger_plain, and_self]
  · split <;> simp only [List.foldl_cons, List.foldl_nil, addTagger_plain, and_self]

/-- A call is put among the tagging calls, or among the others. -/
theorem add_cases (c : Catalog) (call : CatalogCall) :
    (∃ own < 4, call.taggerClass? = some own ∧ c.add call = c.addTagging own call) ∨
      (∀ own < 4, call.taggerClass? ≠ some own) ∧ c.add call = c.addPlain call := by
  unfold add classCount
  cases call.taggerClass? with
  | none => exact .inr ⟨nofun, rfl⟩
  | some own =>
    by_cases hown : own < 4
    · exact .inl ⟨own, hown, rfl, if_pos hown⟩
    · refine .inr ⟨fun cls hcls h => hown ?_, if_neg hown⟩
      rwa [Option.some.inj h]

/-- A call of one of the classes is a tagging call. -/
theorem isTagging_eq_true {call : CatalogCall} {own : Nat} (h : call.taggerClass? = some own)
    (hown : own < 4) : call.isTagging = true := by
  rw [CatalogCall.isTagging, h]
  exact decide_eq_true hown

/-- A call of none of the classes is no tagging call. -/
theorem isTagging_eq_false {call : CatalogCall} (h : ∀ own < 4, call.taggerClass? ≠ some own) :
    call.isTagging = false := by
  rw [CatalogCall.isTagging, Option.any_eq_false_iff_get]
  intro hsome
  exact decide_eq_false fun hlt => h _ hlt (Option.some_get hsome).symm

/-- Every tagging call stands in class 0. -/
theorem taggersOf_addTagging_zero (c : Catalog) (own : Nat) (call : CatalogCall) :
    ((c.addTagging own call).taggersOf 0).toList = (c.taggersOf 0).toList ++ [call] := by
  unfold addTagging addNested
  split
  next hown => simp [taggersOf_addTagger, Ne.symm hown]
  · split <;> simp [taggersOf_addTagger]

/-- A tagging call stands in its own class; one of class 0 that needs a tagging call stands in the
others with its need changed. -/
theorem taggersOf_addTagging {own cls : Nat} (hown : own < 4) (hpos : 1 ≤ cls) (hle : cls ≤ 3)
    (c : Catalog) {call : CatalogCall} (hclass : call.taggerClass? = some own) :
    ((c.addTagging own call).taggersOf cls).toList
      = (c.taggersOf cls).toList ++ (call.inClass? cls).toList := by
  have hzero : cls ≠ 0 := Nat.ne_of_gt hpos
  unfold addTagging CatalogCall.inClass?
  rw [hclass]
  split
  next hown0 =>
    by_cases hcls : own = cls
    · simp [taggersOf_addTagger, hcls, hzero, Nat.lt_succ_of_le hle]
    · simp [taggersOf_addTagger, hcls, Ne.symm hcls, hzero, hown0]
  next hown0 =>
    obtain rfl : own = 0 := by simpa using hown0
    split
    next hneeds =>
      unfold addNested
      obtain rfl | rfl | rfl : cls = 1 ∨ cls = 2 ∨ cls = 3 := by omega
      all_goals simp [taggersOf_addTagger, hneeds]
    next hneeds => simp [taggersOf_addTagger, hzero, hneeds, Ne.symm hzero]

/-- One more call adds itself to class 0 if it is a tagging call. -/
theorem taggersOf_add_zero (c : Catalog) (call : CatalogCall) : ((c.add call).taggersOf 0).toList
    = (c.taggersOf 0).toList ++ (Option.guard (·.isTagging) call).toList := by
  obtain ⟨own, hown, hclass, hadd⟩ | ⟨hclass, hadd⟩ := c.add_cases call
  · rw [hadd, taggersOf_addTagging_zero, Option.guard, if_pos (isTagging_eq_true hclass hown)]
    rfl
  · rw [hadd, Option.guard, isTagging_eq_false hclass]
    exact (List.append_nil _).symm

/-- One more call adds what stands for it to another class. -/
theorem taggersOf_add {cls : Nat} (hpos : 1 ≤ cls) (hle : cls ≤ 3) (c : Catalog)
    (call : CatalogCall) : ((c.add call).taggersOf cls).toList
      = (c.taggersOf cls).toList ++ (call.inClass? cls).toList := by
  obtain ⟨own, hown, hclass, hadd⟩ | ⟨hclass, hadd⟩ := c.add_cases call
  · rw [hadd, taggersOf_addTagging hown hpos hle c hclass]
  · have hnone : call.inClass? cls = none := by
      rw [CatalogCall.inClass?, if_neg (hclass cls (Nat.lt_succ_of_le hle)),
        if_neg fun h => hclass 0 (by decide) h.1]
    rw [hadd, hnone]
    exact (List.append_nil _).symm

/-- One more call adds itself to the calls to choose from if it is no tagging call. -/
theorem calls_add (c : Catalog) (call : CatalogCall) : (c.add call).calls.toList
    = c.calls.toList ++ (Option.guard (!·.isTagging) call).toList := by
  obtain ⟨own, hown, hclass, hadd⟩ | ⟨hclass, hadd⟩ := c.add_cases call
  · rw [hadd, (c.addTagging_plain own call).1, Option.guard, isTagging_eq_true hclass hown]
    exact (List.append_nil _).symm
  · rw [hadd, Option.guard, isTagging_eq_false hclass, addPlain, Array.toList_push]
    rfl

/-! ### All calls -/

/-- **What each call adds to a list of the catalog is added in the order of the calls.** -/
theorem foldl_add_eq {β : Type} (list : Catalog → List β) {added : CatalogCall → Option β}
    (hadd : ∀ c call, list (c.add call) = list c ++ (added call).toList) (c : Catalog)
    (given : List CatalogCall) :
    list (given.foldl Catalog.add c) = list c ++ given.filterMap added := by
  induction given generalizing c with
  | nil => exact (List.append_nil _).symm
  | cons call given ih =>
    rw [List.foldl_cons, ih, hadd, List.append_assoc, List.filterMap_cons]
    cases added call <;> rfl

/-- The calls to choose from are those that are no tagging calls, in their order. -/
theorem calls_ofCalls (given : List CatalogCall) :
    (ofCalls given).calls.toList = given.filter (!·.isTagging) := by
  rw [ofCalls, foldl_add_eq (·.calls.toList) calls_add, List.filterMap_eq_filter]
  rfl

/-- Class 0 has all tagging calls in their order. -/
theorem taggersOf_ofCalls_zero (given : List CatalogCall) :
    ((ofCalls given).taggersOf 0).toList = given.filter (·.isTagging) := by
  rw [ofCalls, foldl_add_eq (fun c => (c.taggersOf 0).toList) taggersOf_add_zero,
    List.filterMap_eq_filter]
  rfl

/-- Another class has what stands for the calls in it, in their order. -/
theorem taggersOf_ofCalls {cls : Nat} (hpos : 1 ≤ cls) (hle : cls ≤ 3)
    (given : List CatalogCall) :
    ((ofCalls given).taggersOf cls).toList = given.filterMap (·.inClass? cls) := by
  rw [ofCalls, foldl_add_eq (fun c => (c.taggersOf cls).toList) (taggersOf_add hpos hle)]
  obtain rfl | rfl | rfl : cls = 1 ∨ cls = 2 ∨ cls = 3 := by omega
  all_goals rfl

/-! ### Circulating calls -/

/-- The circulators of the catalog are the positions of the circulating calls, in order. -/
def PointsOut (c : Catalog) : Prop := c.circulators.toList
  = (List.range c.calls.size).filter fun i => c.calls[i]?.any (·.isCirculator)

/-- **One more call is pointed out if it circulates**, and those before stay where they are. -/
theorem PointsOut.add (h : c.PointsOut) (call : CatalogCall) : (c.add call).PointsOut := by
  obtain ⟨own, -, -, hadd⟩ | ⟨-, hadd⟩ := c.add_cases call
  · rw [hadd, PointsOut, (c.addTagging_plain own call).1, (c.addTagging_plain own call).2]
    exact h
  · have hbefore : (List.range c.calls.size).filter
        (fun i => (c.calls.push call)[i]?.any (·.isCirculator)) = c.circulators.toList := by
      rw [h]
      refine List.filter_congr fun i hi => ?_
      rw [Array.getElem?_push_lt (List.mem_range.1 hi), Array.getElem?_eq_getElem]
    rw [hadd, PointsOut, addPlain, Array.size_push, List.range_succ, List.filter_append, hbefore,
      List.filter_singleton, Array.getElem?_push_size, Option.any_some]
    cases call.isCirculator
    · exact (List.append_nil _).symm
    · exact Array.toList_push

/-- The circulators of a catalog point out the circulating calls. -/
theorem pointsOut_ofCalls (given : List CatalogCall) : (ofCalls given).PointsOut :=
  List.foldlRecOn given Catalog.add rfl fun _ h call _ => h.add call

/-! ### The catalog -/

/-- **Calls are sorted into a catalog**: none is lost, doubled or put out of order, and none is
changed but for the class of the tagging call that a copy needs. -/
theorem sorts_ofCalls (given : List CatalogCall) : (ofCalls given).Sorts given where
  calls := calls_ofCalls given
  increasing := by
    rw [pointsOut_ofCalls given]
    exact List.pairwise_lt_range.filter _
  mem_circulators i := by
    rw [pointsOut_ofCalls given, List.mem_filter, List.mem_range, Option.any_eq_true]
    exact and_iff_right_of_imp fun ⟨_, hcall, _⟩ => (Array.getElem?_eq_some_iff.1 hcall).1
  tagging := taggersOf_ofCalls_zero given
  taggers _ hpos hle := taggersOf_ofCalls hpos hle given

/-- A tagging call that needs one is in the other classes as well, where it needs one of them. -/
example : ((ofCalls [.make "tag the line" .plus CallFlags.taggerUnit,
      .make "revert @v" .plus CallFlags.taggerUnit,
      .make "vertical tag" .plus (2 * CallFlags.taggerUnit)]).taggersOf 1).map
        (fun call => (call.name, call.needs.tagger))
    = #[("revert @v", some 1), ("vertical tag", none)] := by
  decide +kernel

end Catalog
end SquareDance
