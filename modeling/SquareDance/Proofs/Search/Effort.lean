/-
# How many attempts a call takes

A pass tries a call that is barred once.  A call of which all blanks can be filled in takes as
many attempts as there are rows of choices.  A call with a blank that cannot be filled in takes
as many as there are rows of choices for the blanks inside of that one, since only these
wheels turn; the attempts are all given up, for the same reason.

`Scan.attempts` counts them without a run: it multiplies the numbers of choices up to the
first blank without a choice.  `Pass.TriesAll` says that a log is made of the attempts on each
call, one call after another.
-/

import Mathlib.Data.List.TakeWhile
import SquareDance.Proofs.Search.Filling

namespace SquareDance

/-! ### What a pass should do -/

namespace Scan

/-- The number of choices for a blank; it is zero if the blank cannot be filled in. -/
def width (k : Scan) : Blank → Nat
  | .designator => k.designators.length
  | .direction => k.directions.length
  | .numbers count odd =>
    if count ≤ maxNumbers then (offeredNumbers count odd).length ^ count else 0
  | .tagger cls => (k.catalog.taggersOf cls).toList.countP (·.isScannableTagger)
  | .circulator => k.catalog.circulators.size

/-- How many attempts a pass makes on a call. -/
def attempts (k : Scan) (call : CatalogCall) : Nat :=
  if k.Allows call then ((call.blanks.map k.width).takeWhile (· ≠ 0)).prod else 1

/-- Why every attempt on a call is given up, if they are. -/
def failure? (k : Scan) (call : CatalogCall) : Option PickError :=
  if k.Allows call then (call.blanks.find? (k.width · = 0)).map (·.problem)
  else some .flagReject

end Scan

/-- What the candidates that are made of a call in a pass have in common. -/
structure Candidate.IsOf (c : Candidate) (k : Scan) (concept : Option ConceptId) (i : Nat)
    (call : CatalogCall) : Prop where
  concept : c.concept = concept
  failure : c.failure = k.failure? call
  call : c.call = if k.Allows call then some i else none

namespace Pass

/-- A pass makes all its attempts on the call at a position. -/
def TriesCall (catalog : Catalog) (options : SearchOptions) (p : Pass) (i : Nat)
    (log : List (Candidate × Search)) : Prop :=
  ∃ call, catalog.calls[i]? = some call ∧
    log.length = Scan.attempts ⟨catalog, options, p.stage⟩ call ∧
      ∀ a ∈ log, a.2.stage = p.stage ∧ a.2.conceptScan.index = p.index ∧ a.2.cursor.current = i ∧
        a.1.IsOf ⟨catalog, options, p.stage⟩ (p.concept? catalog) i call

/-- A pass makes all its attempts on each call, one call after another, in some order. -/
def TriesAll (catalog : Catalog) (options : SearchOptions) (p : Pass)
    (log : List (Candidate × Search)) : Prop :=
  ∃ order parts, order.Perm (List.range catalog.calls.size) ∧ log = parts.flatten ∧
    List.Forall₂ (p.TriesCall catalog options) order parts

/-- The number of attempts in a pass. -/
def attempts (catalog : Catalog) (options : SearchOptions) (p : Pass) : Nat :=
  (catalog.calls.toList.map (Scan.attempts ⟨catalog, options, p.stage⟩)).sum

end Pass

/-! ### Counting choices -/

/-- The calls that a scan may use from a position on are counted. -/
theorem length_scannableFrom (taggers : Array CatalogCall) (i : Nat) :
    (scannableFrom taggers i).length
      = (taggers.toList.drop i).countP (·.isScannableTagger) := by
  induction hn : taggers.size - i generalizing i with
  | zero =>
    rw [scannableFrom_of_le (by omega), List.drop_eq_nil_of_le]
    · rfl
    · rw [Array.length_toList]
      omega
  | succ n ih =>
    have hlt : i < taggers.size := by omega
    have hdrop : taggers.toList.drop i = taggers[i] :: taggers.toList.drop (i + 1) :=
      List.drop_eq_getElem_cons (by rwa [Array.length_toList])
    rw [scannableFrom_of_lt hlt, hdrop, List.countP_cons, ← ih (i + 1) (by omega)]
    split
    · rfl
    · rfl

namespace Scan

variable {k : Scan} {bs : List Blank}

/-- The choices for a blank are as many as its width. -/
theorem length_choices (k : Scan) (b : Blank) : (k.choices b).length = k.width b := by
  cases b with
  | designator => exact List.length_map _
  | direction => exact List.length_map _
  | numbers count odd =>
    simp only [choices, width]
    split
    · rw [List.length_map, length_sections, List.map_replicate, List.prod_replicate_nat]
    · rfl
  | tagger cls => rw [choices, List.length_map, length_scannableFrom, List.drop_zero, width]
  | circulator => rw [choices, List.length_map, List.length_range, width]

/-- A blank that can be filled in has a choice. -/
theorem width_ne_zero {b : Blank} : k.width b ≠ 0 ↔ k.CanFill b := by
  constructor
  · intro h
    rw [← length_choices, ne_eq, List.length_eq_zero_iff] at h
    obtain ⟨c, hc⟩ := List.exists_mem_of_ne_nil _ h
    exact canFill_of_offers (mem_choices.1 hc)
  · intro h
    rw [← length_choices, ← map_choiceAt h, List.length_map, ne_eq, List.length_eq_zero_iff]
    exact (isCycle_positions h).ne_nil

/-- The rows of choices for blanks that can be filled in multiply. -/
theorem length_rows (h : ∀ b ∈ bs, k.CanFill b) :
    (bs.map k.positions).sections.length = (bs.map k.width).prod := by
  rw [← List.length_map (List.zipWith k.choiceAt bs), map_rows h, length_sections, List.map_map]
  congr 1
  exact List.map_congr_left fun b _ => length_choices k b

end Scan

/-! ### Attempts on a call -/

namespace Scan

variable {k : Scan} {call : CatalogCall}

/-- A call that is barred takes one attempt. -/
theorem attempts_of_not_allows (h : ¬ k.Allows call) : k.attempts call = 1 := if_neg h

/-- A call that is barred is rejected for its flags. -/
theorem failure?_of_not_allows (h : ¬ k.Allows call) : k.failure? call = some .flagReject :=
  if_neg h

/-- Blanks that can be filled in have choices. -/
theorem width_of_canFill {bs : List Blank} (h : ∀ b ∈ bs, k.CanFill b) :
    ∀ n ∈ bs.map k.width, decide (n ≠ 0) = true := by
  intro n hn
  obtain ⟨b, hb, rfl⟩ := List.mem_map.1 hn
  exact decide_eq_true (width_ne_zero.2 (h b hb))

/-- **A call that can be filled in** takes an attempt for each row of choices. -/
theorem attempts_of_canFill (hallows : k.Allows call) (h : ∀ b ∈ call.blanks, k.CanFill b) :
    k.attempts call = (call.blanks.map k.width).prod := by
  rw [attempts, if_pos hallows, List.takeWhile_eq_self_iff.2 (width_of_canFill h)]

/-- A call that can be filled in does not fail. -/
theorem failure?_of_canFill (hallows : k.Allows call) (h : ∀ b ∈ call.blanks, k.CanFill b) :
    k.failure? call = none := by
  rw [failure?, if_pos hallows, Option.map_eq_none_iff, List.find?_eq_none]
  intro b hb
  rw [decide_eq_true_iff]
  exact width_ne_zero.2 (h b hb)

section

variable {pre post : List Blank} {b : Blank}

/-- **A call with a blank that cannot be filled in** takes an attempt for each row of choices
for the blanks inside of it. -/
theorem attempts_of_problem (hallows : k.Allows call) (hblanks : call.blanks = pre ++ b :: post)
    (hpre : ∀ b ∈ pre, k.CanFill b) (hb : ¬ k.CanFill b) :
    k.attempts call = (pre.map k.width).prod := by
  have hzero : k.width b = 0 := Classical.not_not.1 fun hne => hb (width_ne_zero.1 hne)
  rw [attempts, if_pos hallows, hblanks, List.map_append, List.map_cons, hzero,
    List.takeWhile_append_of_pos (width_of_canFill hpre), List.takeWhile_cons_of_neg (by simp),
    List.append_nil]

/-- The first blank that cannot be filled in is why a call fails. -/
theorem failure?_of_problem (hallows : k.Allows call) (hblanks : call.blanks = pre ++ b :: post)
    (hpre : ∀ b ∈ pre, k.CanFill b) (hb : ¬ k.CanFill b) :
    k.failure? call = some b.problem := by
  have hzero : k.width b = 0 := Classical.not_not.1 fun hne => hb (width_ne_zero.1 hne)
  have hnone : pre.find? (k.width · = 0) = none := by
    rw [List.find?_eq_none]
    intro b' hb'
    rw [decide_eq_true_iff]
    exact width_ne_zero.2 (hpre b' hb')
  rw [failure?, if_pos hallows, hblanks, List.find?_append, hnone, Option.none_or,
    List.find?_cons_of_pos (by simpa using hzero), Option.map_some]

end

end Scan
end SquareDance
