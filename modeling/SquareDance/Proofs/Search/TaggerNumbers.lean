/-
# The numbers of tagging calls

A number that stands for a tagging call has five bits for its position, counted from 1, and the
class above them.  Nothing keeps a class from growing beyond these bits, and class 0 has all tagging
calls of a catalog.  While a position is among the first 31 the number is read back as class and
position, and only then (`Search.ChoosesTagger.readsBack_iff`), so that it stands for one tagging
call (`Search.taggerNumber_tells`).  Beyond that the position runs over into the class: one number
stands for two tagging calls (`Search.taggerNumber_ambiguous`).
-/

import SquareDance.Proofs.Search.Hashing

namespace SquareDance
namespace Search

variable {s s' : Search} {cls cls' position position' : Nat} {packed packed' : UInt32}

/-- The tagging call at a position of a class is chosen, and a number stands for it. -/
def ChoosesTagger (s : Search) (cls position : Nat) (packed : UInt32) : Prop :=
  (s.comesTo cls).1 = .ok position ∧ (s.pickTagger cls).1 = .ok packed

/-- The class of a tagging call that is chosen is one of the four. -/
theorem ChoosesTagger.class_lt (h : s.ChoosesTagger cls position packed) : cls < 4 := by
  obtain ⟨-, call, hcall⟩ :=
    chooseTagger_spec (show s.comesTo cls = (.ok position, _) from Prod.ext h.1 rfl)
  exact class_lt_of_getElem? hcall

/-- A position and a class that fit into their bits stand side by side. -/
theorem ChoosesTagger.toNat (h : s.ChoosesTagger cls position packed) (hposition : position < 31) :
    packed.toNat = cls * 32 + (position + 1) := by
  obtain ⟨position', hcomes, rfl, -⟩ := hash_pickTagger h.2
  obtain rfl : position = position' := Except.ok.inj (h.1.symm.trans hcomes)
  exact taggerNumber_toNat h.class_lt (Nat.succ_lt_succ hposition)

/-- **The number of one of the first 31 tagging calls of a class is read back**, and that of no
other. -/
theorem ChoosesTagger.readsBack_iff (h : s.ChoosesTagger cls position packed) :
    packed.toNat / 32 = cls ∧ packed.toNat % 32 = position + 1 ↔ position < 31 := by
  constructor
  · rintro ⟨-, hposition⟩
    have hlt := Nat.mod_lt packed.toNat (show 0 < 32 by decide)
    omega
  · intro hposition
    rw [h.toNat hposition]
    omega

/-- **A number tells which tagging call was chosen** as long as positions fit into their bits, and
no longer: it is read back as class and position if and only if the position is among the first 31.
So two choices of such positions that give one number, whatever their stages and draws were, are of
one class and of one position in it. -/
theorem taggerNumber_tells (h : s.ChoosesTagger cls position packed)
    (h' : s'.ChoosesTagger cls' position' packed) :
    (packed.toNat / 32 = cls ∧ packed.toNat % 32 = position + 1 ↔ position < 31) ∧
      (position < 31 → position' < 31 → cls' = cls ∧ position' = position) := by
  refine ⟨h.readsBack_iff, fun hposition hposition' => ?_⟩
  obtain ⟨hclass, hplace⟩ := h.readsBack_iff.2 hposition
  obtain ⟨hclass', hplace'⟩ := h'.readsBack_iff.2 hposition'
  exact ⟨hclass'.symm.trans hclass, Nat.succ.inj (hplace'.symm.trans hplace)⟩

/-- A catalog with one tagging call of class 1, and 33 in class 0. -/
def crowdedCatalog : Catalog := .ofCalls (.make "swing thru" .mainstream 0 ::
  .make "vertical tag" .plus (2 * CallFlags.taggerUnit) ::
    List.replicate 32 (.make "tag the line" .plus CallFlags.taggerUnit))

/-- A random search of the catalog. -/
def drawnTagging (draws : List UInt32) : Search :=
  { catalog := crowdedCatalog, stage := .random, draws }

/-- A scan of the catalog. -/
def scannedTagging : Search := { catalog := crowdedCatalog, stage := .plainAny }

/-- The first tagging call of class 1, scanned and drawn. -/
theorem taggerNumber_tells_verticalTag :
    scannedTagging.ChoosesTagger 1 0 33 ∧ (drawnTagging [5]).ChoosesTagger 1 0 33 ∧
      (33 : UInt32).toNat / 32 = 1 ∧ (33 : UInt32).toNat % 32 = 0 + 1 := by
  have hscanned : scannedTagging.ChoosesTagger 1 0 33 := by
    unfold ChoosesTagger
    decide +kernel
  have hdrawn : (drawnTagging [5]).ChoosesTagger 1 0 33 := by
    unfold ChoosesTagger
    decide +kernel
  exact ⟨hscanned, hdrawn, (taggerNumber_tells hscanned hdrawn).1.2 (by decide)⟩

/-- **One number stands for two tagging calls**: for the 33rd one of class 0, and for the first one
of class 1. -/
theorem taggerNumber_ambiguous : (drawnTagging [32]).ChoosesTagger 0 32 33 ∧
    scannedTagging.ChoosesTagger 1 0 33 ∧
      (crowdedCatalog.taggersOf 0)[32]?.map (·.name) = some "tag the line" ∧
        (crowdedCatalog.taggersOf 1)[0]?.map (·.name) = some "vertical tag" := by
  unfold ChoosesTagger
  decide +kernel

end Search
end SquareDance
