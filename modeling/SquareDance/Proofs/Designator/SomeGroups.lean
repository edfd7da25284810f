/-
# "Some" after half a turn

The tables of "some" compare pairs of slots that lie half a turn apart.  After half a turn each
pair of directions is exchanged and both of them are reversed.  That does not change whether two
pairs are alike, or opposite; of the pairs that the tables name, south with north and north with
south stay, and north with north becomes south with south.  So where everybody is there the group
of a formation turned half around is the group turned half around:
`Formation.TurnsTo.testBit_someGroup?`.

With an empty slot this is not so: an empty slot counts as facing north.
-/

import SquareDance.Designator.Some
import SquareDance.Proofs.Formation.Turning
import SquareDance.Proofs.Formation.Words

namespace SquareDance

/-! ### Pairs of directions -/

section

variable {gap : Nat} (x y z w : Direction)

/-- Pairs are alike if both directions are. -/
theorem pairWord_inj (hgap : gap = 3 ∨ gap = 4) :
    pairWord gap x y = pairWord gap z w ↔ x = z ∧ y = w := by
  obtain rfl | rfl := hgap <;> cases x <;> cases y <;> cases z <;> cases w <;> decide

/-- The pair of directions after half a turn. -/
def turnedPair (gap : Nat) (x y : Direction) : UInt32 := pairWord gap y.opposite x.opposite

/-- **Pairs are alike** after half a turn if they were before. -/
theorem turnedPair_inj (hgap : gap = 3 ∨ gap = 4) :
    turnedPair gap x y = turnedPair gap z w ↔ pairWord gap x y = pairWord gap z w := by
  rw [turnedPair, turnedPair, pairWord_inj _ _ _ _ hgap, pairWord_inj _ _ _ _ hgap,
    Direction.opposite_inj, Direction.opposite_inj, and_comm]

/-- To turn both directions of a pair around is to change one bit of each. -/
theorem pairWord_xor : pairWord 4 x y ^^^ 0x202 = pairWord 4 x.opposite y.opposite := by
  cases x <;> cases y <;> decide

/-- What two words differ by, one of them differs by from the third. -/
theorem xor_eq_comm {a b c : UInt32} : a ^^^ b = c ↔ a ^^^ c = b := by
  constructor <;>
  · rintro rfl
    rw [← UInt32.xor_assoc, UInt32.xor_self, UInt32.zero_xor]

/-- **Pairs are opposite** after half a turn if they were before. -/
theorem turnedPair_xor :
    turnedPair 4 x y ^^^ 0x202 = turnedPair 4 z w ↔ pairWord 4 x y ^^^ 0x202 = pairWord 4 z w := by
  have hturned : turnedPair 4 x y ^^^ 0x202 = turnedPair 4 x.opposite y.opposite :=
    pairWord_xor _ _
  rw [hturned, pairWord_xor, turnedPair_inj _ _ _ _ (.inr rfl)]

/-- Two pairs differ in both places after half a turn if they did before. -/
theorem turnedPair_xor_eq :
    turnedPair 4 x y ^^^ turnedPair 4 z w = 0x202 ↔ pairWord 4 x y ^^^ pairWord 4 z w = 0x202 := by
  rw [xor_eq_comm, turnedPair_xor, ← xor_eq_comm]

/-- South before north is the same after half a turn. -/
theorem turnedPair_south_north : turnedPair 4 x y = 0x200 ↔ pairWord 4 x y = 0x200 :=
  turnedPair_inj x y .south .north (.inr rfl)

/-- North before south is the same after half a turn. -/
theorem turnedPair_north_south : turnedPair 4 x y = 0x002 ↔ pairWord 4 x y = 0x002 :=
  turnedPair_inj x y .north .south (.inr rfl)

/-- Two who face south faced north before half a turn. -/
theorem turnedPair_south : turnedPair 4 x y = 0x202 ↔ pairWord 4 x y = 0 :=
  turnedPair_inj x y .north .north (.inr rfl)

/-- Two who face north faced south before half a turn. -/
theorem turnedPair_north : turnedPair 4 x y = 0 ↔ pairWord 4 x y = 0x202 :=
  turnedPair_inj x y .south .south (.inr rfl)

end

namespace Formation

variable {f f' : Formation} {slot : Nat} {mode : Grouping}

namespace TurnsTo

/-- Whoever is there faces the other way. -/
theorem facingAt (h : f.TurnsTo f') (hslot : slot < f.size) (hlive : f.isLive slot = true) :
    f'.facingAt (f.setup.halfTurn slot) = (f.facingAt slot).opposite := by
  obtain ⟨p, hp⟩ := Option.isSome_iff_exists.1 hlive
  rw [Formation.facingAt, h.dancer? slot hslot, Formation.facingAt, hp]
  rfl

/-- Everybody is there after half a turn if everybody was before. -/
theorem full (h : f.TurnsTo f') (hfull : ∀ slot < f.size, f.isLive slot = true) :
    ∀ slot < f'.size, f'.isLive slot = true := by
  intro slot hslot
  rw [h.size] at hslot
  have hlive := hfull _ (Setup.halfTurn_lt hslot)
  rw [isLive, h.dancer?_eq hslot, Option.isSome_map]
  exact hlive

/-- In both halves everybody faces the other way, and the halves are exchanged. -/
theorem pairWord_facingAt (h : f.TurnsTo f') (hfull : ∀ slot < f.size, f.isLive slot = true)
    {gap : Nat} (hsize : f.size = 2 * gap) (hslot : slot < gap) :
    pairWord gap (f'.facingAt slot) (f'.facingAt (slot + gap))
      = turnedPair gap (f.facingAt slot) (f.facingAt (slot + gap)) := by
  have hturn := Setup.halfTurn_of_halves (s := f.setup) hsize
  have hfirst : f.setup.halfTurn slot = slot + gap := by
    rw [hturn, Nat.mod_eq_of_lt (by omega)]
  have hsecond : f.setup.halfTurn (slot + gap) = slot := by
    rw [hturn, show slot + gap + gap = slot + 2 * gap by omega, Nat.add_mod_right,
      Nat.mod_eq_of_lt (by omega)]
  have hreversed := fun s (hs : s < f.size) => h.facingAt hs (hfull s hs)
  have hup := hreversed slot (by omega)
  have hdown := hreversed (slot + gap) (by omega)
  rw [hfirst] at hup
  rw [hsecond] at hdown
  rw [hup, hdown, turnedPair]

end TurnsTo

/-! ### Groups by conditions -/

section

variable {P Q P' Q' : Prop} [Decidable P] [Decidable Q] [Decidable P'] [Decidable Q']
  {m n s t : Nat} {g g' : Option Nat}

/-- A group that half a turn leads to itself is chosen on the same condition. -/
theorem map_testBit_ite (hn : n.testBit t = n.testBit s)
    (h : g'.map (·.testBit t) = g.map (·.testBit s)) :
    (if P then some n else g').map (·.testBit t) = (if P then some n else g).map (·.testBit s) := by
  split
  · rw [Option.map_some, Option.map_some, hn]
  · exact h

/-- Two groups that half a turn exchanges are chosen on conditions that it exchanges. -/
theorem map_testBit_exchange (hP : P' ↔ Q) (hQ : Q' ↔ P) (hPQ : P → ¬ Q)
    (hm : m.testBit t = n.testBit s) (hn : n.testBit t = m.testBit s) :
    (if P' then some m else if Q' then some n else none).map (·.testBit t)
      = (if P then some m else if Q then some n else none).map (·.testBit s) := by
  by_cases hyes : P
  · rw [if_neg (mt hP.1 (hPQ hyes)), if_pos (hQ.2 hyes), if_pos hyes, Option.map_some,
      Option.map_some, hn]
  · rw [if_neg hyes, if_neg (mt hQ.1 hyes)]
    by_cases hother : Q
    · rw [if_pos (hP.2 hother), if_pos hother, Option.map_some, Option.map_some, hm]
    · rw [if_neg (mt hP.1 hother), if_neg hother, Option.map_none, Option.map_none]

/-- What the tables ask of the first two pairs, before and after half a turn, is not both so. -/
theorem not_exchanged {a b : UInt32} {R S T U : Prop}
    (h : a = 0x200 ∧ b = 0 ∧ R ∨ a = 0x002 ∧ b = 0x202 ∧ S) :
    ¬ (a = 0x002 ∧ b = 0 ∧ T ∨ a = 0x200 ∧ b = 0x202 ∧ U) := by
  obtain ⟨rfl, rfl, -⟩ | ⟨rfl, rfl, -⟩ := h
  · rintro (⟨ha, -⟩ | ⟨-, hb, -⟩)
    · exact absurd ha (by decide)
    · exact absurd hb (by decide)
  · rintro (⟨-, hb, -⟩ | ⟨ha, -⟩)
    · exact absurd hb (by decide)
    · exact absurd ha (by decide)

end

/-! ### Six people -/

/-- The pairs that are compared in a setup of six slots. -/
theorem sixPairs (h6 : f.size = 6) : f.directionsWord >>> 4 &&& 0xC3
      = pairWord 3 (f.facingAt 0) (f.facingAt 3) ∧
    f.directionsWord >>> 2 &&& 0xC3 = pairWord 3 (f.facingAt 1) (f.facingAt 4) ∧
      f.directionsWord &&& 0xC3 = pairWord 3 (f.facingAt 2) (f.facingAt 5) := by
  have hpair := fun slot (hslot : slot + 3 < f.size) =>
    f.and_pair_directionsWord (by decide : 0 < 3) hslot
  rw [h6] at hpair
  have hlast := hpair 2 (by decide)
  exact ⟨hpair 0 (by decide), hpair 1 (by decide), by simpa using hlast⟩

/-- The pairs of a setup of six slots after half a turn. -/
theorem TurnsTo.sixPairs (h : f.TurnsTo f') (hfull : ∀ slot < f.size, f.isLive slot = true)
    (h6 : f.size = 6) : f'.directionsWord >>> 4 &&& 0xC3
      = turnedPair 3 (f.facingAt 0) (f.facingAt 3) ∧
    f'.directionsWord >>> 2 &&& 0xC3 = turnedPair 3 (f.facingAt 1) (f.facingAt 4) ∧
      f'.directionsWord &&& 0xC3 = turnedPair 3 (f.facingAt 2) (f.facingAt 5) := by
  obtain ⟨ha, hb, hc⟩ := Formation.sixPairs (h.size.trans h6)
  have hturned := fun slot (hslot : slot < 3) => h.pairWord_facingAt hfull h6 hslot
  exact ⟨ha.trans (hturned 0 (by decide)), hb.trans (hturned 1 (by decide)),
    hc.trans (hturned 2 (by decide))⟩

/-- **The group of six people** after half a turn. -/
theorem TurnsTo.testBit_sixGroup? (h : f.TurnsTo f')
    (hfull : ∀ slot < f.size, f.isLive slot = true) (h6 : f.size = 6) (hslot : slot < 6) :
    (f'.sixGroup? mode).map (·.testBit ((slot + 3) % 6))
      = (f.sixGroup? mode).map (·.testBit slot) := by
  obtain ⟨ha, hb, hc⟩ := Formation.sixPairs h6
  obtain ⟨ha', hb', hc'⟩ := h.sixPairs hfull h6
  have hself : ∀ places, places >>> 3 = 0 → (bothHalves 3 places).testBit ((slot + 3) % 6)
      = (bothHalves 3 places).testBit slot := by
    intro places hplaces
    rw [testBit_bothHalves hplaces (Nat.mod_lt _ (by decide)), testBit_bothHalves hplaces hslot]
    congr 1
    omega
  cases mode with
  | disallowed => rfl
  | pairs =>
    simp only [sixGroup?, h.setup, ha, hb, hc, ha', hb', hc', turnedPair_inj _ _ _ _ (.inl rfl),
      ne_eq]
    exact map_testBit_ite (hself _ (by decide)) (map_testBit_ite (hself _ (by decide))
      (map_testBit_ite (hself _ (by decide)) rfl))
  | triples =>
    have hlive := liveWord_of_full hfull
    have hlive' := liveWord_of_full (h.full hfull)
    rw [h6] at hlive
    rw [h.size, h6] at hlive'
    have hleft : fullWord 6 ≠ 0xFCC := by decide
    have hright : fullWord 6 ≠ 0x33F := by decide
    simp only [sixGroup?, hlive, hlive', hleft, hright, false_and, and_false, if_false]
    rfl

/-! ### Eight people -/

/-- The pairs that are compared in a setup of eight slots. -/
theorem eightPairs (h8 : f.size = 8) : f.directionsWord >>> 6 &&& 0x0303
      = pairWord 4 (f.facingAt 0) (f.facingAt 4) ∧
    f.directionsWord >>> 4 &&& 0x0303 = pairWord 4 (f.facingAt 1) (f.facingAt 5) ∧
      f.directionsWord >>> 2 &&& 0x0303 = pairWord 4 (f.facingAt 2) (f.facingAt 6) ∧
        f.directionsWord &&& 0x0303 = pairWord 4 (f.facingAt 3) (f.facingAt 7) := by
  have hpair := fun slot (hslot : slot + 4 < f.size) =>
    f.and_pair_directionsWord (by decide : 0 < 4) hslot
  rw [h8] at hpair
  have hlast := hpair 3 (by decide)
  exact ⟨hpair 0 (by decide), hpair 1 (by decide), hpair 2 (by decide), by simpa using hlast⟩

/-- The pairs of a setup of eight slots after half a turn. -/
theorem TurnsTo.eightPairs (h : f.TurnsTo f') (hfull : ∀ slot < f.size, f.isLive slot = true)
    (h8 : f.size = 8) : f'.directionsWord >>> 6 &&& 0x0303
      = turnedPair 4 (f.facingAt 0) (f.facingAt 4) ∧
    f'.directionsWord >>> 4 &&& 0x0303 = turnedPair 4 (f.facingAt 1) (f.facingAt 5) ∧
      f'.directionsWord >>> 2 &&& 0x0303 = turnedPair 4 (f.facingAt 2) (f.facingAt 6) ∧
        f'.directionsWord &&& 0x0303 = turnedPair 4 (f.facingAt 3) (f.facingAt 7) := by
  obtain ⟨ha, hb, hc, hd⟩ := Formation.eightPairs (h.size.trans h8)
  have hturned := fun slot (hslot : slot < 4) => h.pairWord_facingAt hfull h8 hslot
  exact ⟨ha.trans (hturned 0 (by decide)), hb.trans (hturned 1 (by decide)),
    hc.trans (hturned 2 (by decide)), hd.trans (hturned 3 (by decide))⟩

/-- **The group of eight people** after half a turn. -/
theorem TurnsTo.testBit_eightGroup? (h : f.TurnsTo f')
    (hfull : ∀ slot < f.size, f.isLive slot = true) (h8 : f.size = 8) (hslot : slot < 8) :
    (f'.eightGroup? mode).map (·.testBit ((slot + 4) % 8))
      = (f.eightGroup? mode).map (·.testBit slot) := by
  obtain ⟨ha, hb, hc, hd⟩ := Formation.eightPairs h8
  obtain ⟨ha', hb', hc', hd'⟩ := h.eightPairs hfull h8
  have halike : ∀ x y z w, turnedPair 4 x y = turnedPair 4 z w
      ↔ pairWord 4 x y = pairWord 4 z w := fun x y z w => turnedPair_inj x y z w (.inr rfl)
  have hself : ∀ n ∈ [0x33, 0x66, 0xAA, 0xBB, 0xCC, 0x77, 0xEE],
      n.testBit ((slot + 4) % 8) = n.testBit slot := by
    revert slot
    decide
  have hexchanged : ∀ m n, (m, n) ∈ [(0xBE, 0xEB), (0xEB, 0xBE), (0x7E, 0xE7), (0xE7, 0x7E)] →
      m.testBit ((slot + 4) % 8) = n.testBit slot := by
    have hall : ∀ slot < 8, ∀ p ∈ [(0xBE, 0xEB), (0xEB, 0xBE), (0x7E, 0xE7), (0xE7, 0x7E)],
        p.1.testBit ((slot + 4) % 8) = p.2.testBit slot := by decide
    exact fun m n hmem => hall slot hslot (m, n) hmem
  cases mode with
  | disallowed => cases hset : f.setup <;> simp only [eightGroup?] <;> rfl
  | pairs =>
    cases hset : f.setup with
    | line8 | grid2x4 =>
      simp only [eightGroup?, h.setup, hset, ha, hb, hc, hd, ha', hb', hc', hd', halike, ne_eq]
      exact map_testBit_ite (hself _ (by decide)) (map_testBit_ite (hself _ (by decide))
        (map_testBit_ite (hself _ (by decide)) rfl))
    | twinDiamonds | bone | rigger | quarterTag =>
      simp only [eightGroup?, h.setup, hset, ha, hb, hc, hd, ha', hb', hc', hd', halike,
        turnedPair_xor_eq]
      exact map_testBit_ite (hself _ (by decide)) rfl
    | _ =>
      simp only [eightGroup?, h.setup, hset]
      rfl
  | triples =>
    cases hset : f.setup with
    | quarterTag =>
      simp only [eightGroup?, h.setup, hset, ha, hb, hd, ha', hb', hd', halike, turnedPair_xor]
      exact map_testBit_ite (hself _ (by decide)) rfl
    | line8 | grid2x4 =>
      simp only [eightGroup?, h.setup, hset, ha, hb, hc, hd, ha', hb', hc', hd', halike, ne_eq,
        List.contains_iff_mem, List.mem_cons, List.not_mem_nil, or_false, Prod.mk.injEq,
        turnedPair_south_north, turnedPair_north_south, turnedPair_south, turnedPair_north]
      exact map_testBit_ite (hself _ (by decide)) (map_testBit_ite (hself _ (by decide))
        (map_testBit_exchange or_comm or_comm not_exchanged (hexchanged _ _ (by decide))
          (hexchanged _ _ (by decide))))
    | _ =>
      simp only [eightGroup?, h.setup, hset]
      rfl

/-! ### All setups -/

/-- **No group of twelve people** leaves nobody out, before half a turn and after it. -/
theorem twelveGroup?_of_full (hfull : ∀ slot < f.size, f.isLive slot = true) (h12 : f.size = 12) :
    f.twelveGroup? mode = none := by
  have hlive := liveWord_of_full hfull
  rw [h12] at hlive
  have hleft : fullWord 12 ≠ 0xC3FC3F := by decide
  have hright : fullWord 12 ≠ 0x3CF3CF := by decide
  simp only [twelveGroup?, hlive, hleft, hright, false_and, if_false, ite_self]

/-- **The group** after half a turn. -/
theorem TurnsTo.testBit_someGroup? (h : f.TurnsTo f')
    (hfull : ∀ slot < f.size, f.isLive slot = true) (hslot : slot < f.size) :
    (f'.someGroup? mode).map (·.testBit (f.setup.halfTurn slot))
      = (f.someGroup? mode).map (·.testBit slot) := by
  unfold someGroup?
  rw [h.size]
  split
  · rename_i h6
    rw [Setup.halfTurn_of_halves (show f.setup.size = 2 * 3 from h6)]
    exact h.testBit_sixGroup? hfull h6 (h6 ▸ hslot)
  · rename_i h8
    rw [Setup.halfTurn_of_halves (show f.setup.size = 2 * 4 from h8)]
    exact h.testBit_eightGroup? hfull h8 (h8 ▸ hslot)
  · rename_i h12
    rw [twelveGroup?_of_full hfull h12, twelveGroup?_of_full (h.full hfull) (h.size.trans h12)]
    rfl
  · rfl

/-- **"Some" groups the same people** after half a turn, where everybody is there. -/
theorem TurnsTo.isInSomeGroup (h : f.TurnsTo f')
    (hfull : ∀ slot < f.size, f.isLive slot = true) (hslot : slot < f.size) :
    f'.isInSomeGroup mode (f.setup.halfTurn slot) = f.isInSomeGroup mode slot := by
  rw [isInSomeGroup_eq, isInSomeGroup_eq, h.testBit_someGroup? hfull hslot]

end Formation
end SquareDance
