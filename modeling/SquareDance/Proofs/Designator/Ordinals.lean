/-
# Ordinals count along rows

A 2x4, a 1x8, a 1x4 and a 2x2 lie in rows.  An ordinal has an answer if everybody faces along the
rows, or across them, as the ordinal asks: those of one row alike and those of two rows opposite
ways (`Formation.KeepsRows`).  Then everybody has a rank in their row, counted from one of its
ends, and an ordinal takes the lowest ranks or the highest ones: `Formation.exists_rank`.

So the first few of a row are those who are not among the last others, more people take in fewer,
and of a full row just as many are picked as the ordinal says: `Formation.ordinals_count`.
-/

import SquareDance.Designator.Ordinal
import SquareDance.Proofs.Designator.Subjects
import SquareDance.Proofs.Formation.Words

namespace SquareDance

/-! ### Rows of a setup -/

namespace Setup

/-- The rows in which people are counted.  Each is listed from left to right, as people see it who
face north in the first row and south in the second. -/
def rows : Setup → List (List Nat)
  | grid2x4 => [[0, 1, 2, 3], [4, 5, 6, 7]]
  | line8 => [[0, 1, 3, 2], [4, 5, 7, 6]]
  | line4 => [[0, 1, 3, 2]]
  | box => [[0, 1], [2, 3]]
  | _ => []

/-- How many people stand in a row; zero in a setup without rows. -/
def rowLength : Setup → Nat
  | grid2x4 | line8 | line4 => 4
  | box => 2
  | _ => 0

/-- Which way people face in the rows who are counted from left to right: along the row to the
right, or across it so that they see it from left to right. -/
def rowFacing (s : Setup) (along : Bool) (slot : Nat) : Direction :=
  let across : Direction := if slot < s.rowLength then .north else .south
  if along then across.right else across

/-- **The rows hold every slot once**, in a setup that has any. -/
theorem perm_rows {s : Setup} (h : s.rowLength ≠ 0) :
    s.rows.flatten.Perm (List.range s.size) ∧ ∀ row ∈ s.rows, row.length = s.rowLength := by
  cases s with
  | grid2x4 | line8 | line4 | box => decide
  | _ => exact absurd rfl h

end Setup

/-! ### Few of a row -/

namespace SmallCount

/-- At least one is counted. -/
theorem toNat_pos (count : SmallCount) : 0 < count.toNat := by
  cases count <;> decide

end SmallCount

namespace RowEnd

/-- The end of a row across from an end. -/
def opposite : RowEnd → RowEnd
  | first => last
  | last => first
  | leftmost => rightmost
  | rightmost => leftmost

/-- Both ends of a row are ends along it, or of a row across. -/
theorem isAlong_opposite (side : RowEnd) : side.opposite.isAlong = side.isAlong := by
  cases side <;> rfl

/-- Whether a rank in a row is among the few at this end: ranks begin with the last of a column and
the leftmost of a line. -/
def takes (side : RowEnd) (length count rank : Nat) : Bool :=
  match side with
  | first | rightmost => length - count ≤ rank
  | last | leftmost => rank < count

variable {length count rest : Nat}

/-- **Whoever is not among the few at one end** is among the others at the other end. -/
theorem takes_opposite (h : count + rest = length) (side : RowEnd) (rank : Nat) :
    side.opposite.takes length rest rank = !side.takes length count rank := by
  cases side <;> simp only [opposite, takes, ← decide_not, decide_eq_decide] <;> omega

/-- Who is among the first few is among more of them. -/
theorem takes_of_le {more rank : Nat} (hle : count ≤ more) {side : RowEnd}
    (h : side.takes length count rank = true) : side.takes length more rank = true := by
  cases side <;> simp only [takes, decide_eq_true_eq] at h ⊢ <;> omega

/-- As many numbers are below a number as it says. -/
theorem countP_range_lt (h : count ≤ length) :
    (List.range length).countP (· < count) = count := by
  induction length with
  | zero => exact (Nat.le_zero.1 h).symm
  | succ length ih =>
    rw [List.range_succ, List.countP_append, List.countP_singleton]
    by_cases hlast : count ≤ length
    · rw [ih hlast, if_neg (by simpa using hlast), Nat.add_zero]
    · have hall : (List.range length).countP (· < count) = length := by
        rw [List.countP_eq_length.2, List.length_range]
        intro rank hrank
        have := List.mem_range.1 hrank
        simp only [decide_eq_true_eq]
        omega
      rw [hall, if_pos (by simpa using hlast)]
      omega

/-- **As many ranks as there are people to take.** -/
theorem countP_takes (h : count ≤ length) (side : RowEnd) :
    (List.range length).countP (side.takes length count) = count := by
  cases side with
  | last | leftmost => exact countP_range_lt h
  | first | rightmost =>
    have hothers : (List.range length).countP (fun rank => ¬(length - count ≤ rank) : Nat → Bool)
        = length - count := by
      simp only [Nat.not_le]
      exact countP_range_lt (Nat.sub_le _ _)
    have hall := List.length_eq_countP_add_countP (fun rank => length - count ≤ rank : Nat → Bool)
      (l := List.range length)
    simp only [decide_eq_true_eq] at hall
    rw [hothers, List.length_range] at hall
    change (List.range length).countP (fun rank => length - count ≤ rank : Nat → Bool) = count
    omega

end RowEnd

/-! ### Ranks -/

namespace Formation

variable {f : Formation} {r : Rows} {along : Bool} {side : RowEnd} {slot : Nat}

namespace Rows

/-- How everybody has to face who is counted forward. -/
def ahead (r : Rows) (along : Bool) : UInt32 := if along then r.forward else r.acrossForward

/-- How everybody has to face who is counted backward. -/
def behind (r : Rows) (along : Bool) : UInt32 := if along then r.backward else r.acrossBackward

end Rows

/-- The rank by the facing of each person. -/
theorem rank_eq (f : Formation) (r : Rows) (along : Bool) (slot : Nat) :
    f.rank r along slot = if f.directionsWord = f.liveWord &&& r.ahead along then
        .ok (r.position slot)
      else if f.directionsWord = f.liveWord &&& r.behind along then
        .ok (r.length - 1 - r.position slot)
      else .error r.mismatch :=
  rfl

/-- Everybody faces as a facing for each slot says. -/
theorem faces_iff {mask : UInt32} {facing : Nat → Direction}
    (hmask : ∀ slot < f.size, digit mask (f.size - 1 - slot) = (facing slot).code.toNat) :
    f.Faces mask ↔ ∀ slot < f.size, ∀ p, f.dancer? slot = some p → p.direction = facing slot := by
  have hcode : ∀ d e : Direction, d.code.toNat = e.code.toNat ↔ d = e := by
    intro d e
    cases d <;> cases e <;> decide
  constructor
  · intro hfaces slot hslot p hp
    exact (hcode _ _).1 ((hfaces slot hslot p hp).trans (hmask slot hslot))
  · intro hfacing slot hslot p hp
    exact ((hcode _ _).2 (hfacing slot hslot p hp)).trans (hmask slot hslot).symm

/-- Everybody faces along the rows, or everybody across them, in one of two ways. -/
def KeepsRows (f : Formation) (along : Bool) : Prop :=
  (∀ slot < f.size, ∀ p, f.dancer? slot = some p → p.direction = f.setup.rowFacing along slot) ∨
    ∀ slot < f.size, ∀ p, f.dancer? slot = some p →
      p.direction = (f.setup.rowFacing along slot).opposite

/-- What the table of a setup says about its rows. -/
structure Rows.Describes (r : Rows) (s : Setup) : Prop where
  length : r.length = s.rowLength
  position : ∀ row ∈ s.rows, row.map r.position = List.range r.length
  ahead : ∀ along, ∀ slot < s.size,
    digit (r.ahead along) (s.size - 1 - slot) = (s.rowFacing along slot).code.toNat
  behind : ∀ along, ∀ slot < s.size,
    digit (r.behind along) (s.size - 1 - slot) = (s.rowFacing along slot).opposite.code.toNat

/-- A setup has no rows, or a table that describes them. -/
theorem rows?_cases (s : Setup) :
    rows? s = none ∧ s.rowLength = 0 ∨ ∃ r, rows? s = some r ∧ r.Describes s := by
  cases s with
  | grid2x4 | line8 | line4 | box =>
    exact .inr ⟨_, rfl, rfl, by decide, by decide, by decide⟩
  | _ => exact .inl ⟨rfl, rfl⟩

/-- **Ranks.**  If people face along the rows, or across them, everybody has a rank, and those of a
row are numbered from zero; otherwise all are refused with one error. -/
theorem exists_rank (h : r.Describes f.setup) (along : Bool) :
    (f.KeepsRows along ∧ ∃ rank : Nat → Nat, (∀ slot, f.rank r along slot = .ok (rank slot)) ∧
      ∀ row ∈ f.setup.rows, (row.map rank).Perm (List.range r.length)) ∨
    (¬f.KeepsRows along ∧ ∀ slot, f.rank r along slot = .error r.mismatch) := by
  have hahead : f.directionsWord = f.liveWord &&& r.ahead along ↔ _ :=
    directionsWord_eq_iff.trans (faces_iff (h.ahead along))
  have hbehind : f.directionsWord = f.liveWord &&& r.behind along ↔ _ :=
    directionsWord_eq_iff.trans (faces_iff (h.behind along))
  simp only [rank_eq]
  by_cases hyes : f.directionsWord = f.liveWord &&& r.ahead along
  · refine .inl ⟨.inl (hahead.1 hyes), r.position, fun slot => if_pos hyes, fun row hrow => ?_⟩
    rw [h.position row hrow]
  · by_cases hback : f.directionsWord = f.liveWord &&& r.behind along
    · refine .inl ⟨.inr (hbehind.1 hback), fun slot => r.length - 1 - r.position slot,
        fun slot => ?_, fun row hrow => ?_⟩
      · rw [if_neg hyes, if_pos hback]
      · have hreverse : (List.range r.length).map (r.length - 1 - ·)
            = (List.range r.length).reverse := by
          rw [List.range_eq_range', List.reverse_range', ← List.range_eq_range', Nat.zero_add]
        have hmap : row.map (fun slot => r.length - 1 - r.position slot)
            = (row.map r.position).map (r.length - 1 - ·) := by
          rw [List.map_map]
          rfl
        rw [hmap, h.position row hrow, hreverse]
        exact List.reverse_perm _
    · refine .inr ⟨not_or.2 ⟨mt hahead.2 hyes, mt hbehind.2 hback⟩, fun slot => ?_⟩
      rw [if_neg hyes, if_neg hback]

/-! ### Ordinals -/

variable {mode : Grouping} {count : SmallCount}

/-- **An ordinal by the ranks**, in a setup whose rows are long enough. -/
theorem isAmong_eq (hr : rows? f.setup = some r) (hcount : count.toNat < r.length)
    (side : RowEnd) (slot : Nat) : f.isAmong side count slot
      = (f.rank r side.isAlong slot).map (side.takes r.length count.toNat) := by
  unfold isAmong
  rw [hr]
  dsimp only
  rw [if_neg (Nat.not_le.2 hcount)]
  cases side <;> rfl

/-- A whole row or more is refused, and so is everything in a setup without rows. -/
theorem isAmong_of_rowLength_le (h : f.setup.rowLength ≤ count.toNat) (side : RowEnd)
    (slot : Nat) : f.isAmong side count slot = .error .illegalDesignator := by
  unfold isAmong
  obtain ⟨hr, -⟩ | ⟨r, hr, hdescribes⟩ := rows?_cases f.setup
  · rw [hr]
  · rw [hr]
    exact if_pos (hdescribes.length ▸ h)

/-- An ordinal asks nothing of a person but where they stand. -/
theorem picks_ordinal (hlive : f.isLive slot = true) :
    f.picks (.ordinal side count) mode slot = f.isAmong side count slot := by
  obtain ⟨p, hp⟩ := Option.isSome_iff_exists.1 hlive
  rw [picks_eq_bind rfl, subject_of_live hp]
  rfl

/-- **Full rows**: as many people are picked as the ordinal says, if it picks anybody at all. -/
theorem countP_isAmong (hr : rows? f.setup = some r) (hdescribes : r.Describes f.setup)
    (hcount : count.toNat < r.length) {row : List Nat} (hrow : row ∈ f.setup.rows)
    (hanswers : ∀ slot ∈ row, ∃ answer, f.isAmong side count slot = .ok answer) :
    row.countP (fun slot => f.isAmong side count slot = .ok true) = count.toNat := by
  obtain ⟨-, rank, hrank, hranks⟩ | ⟨-, herror⟩ := exists_rank hdescribes side.isAlong
  · calc row.countP (fun slot => f.isAmong side count slot = .ok true)
      _ = row.countP (side.takes r.length count.toNat ∘ rank) := by
        refine List.countP_congr fun slot _ => ?_
        rw [isAmong_eq hr hcount, hrank]
        simp [Except.map]
      _ = (row.map rank).countP (side.takes r.length count.toNat) := List.countP_map.symm
      _ = (List.range r.length).countP (side.takes r.length count.toNat) :=
        (hranks row hrow).countP_eq _
      _ = count.toNat := side.countP_takes (Nat.le_of_lt hcount)
  · -- Nobody of the row has an answer, and a row is never empty.
    rw [hdescribes.length] at hcount
    have hlength : row.length = f.setup.rowLength :=
      (Setup.perm_rows (Nat.ne_zero_of_lt hcount)).2 row hrow
    obtain ⟨slot, hslot⟩ := List.exists_mem_of_length_pos (l := row) (by omega)
    obtain ⟨answer, hanswer⟩ := hanswers slot hslot
    rw [isAmong_eq hr (hdescribes.length ▸ hcount), herror] at hanswer
    cases hanswer

/-- **Ordinals count along rows.**  In a row of `rowLength` people an ordinal for fewer of them
has an answer where everybody keeps to the rows.  Those whom it picks are those whom the ordinal
from the other end does not pick, for the others of the row; they are among those whom the ordinal
for one person more picks; and of a full row there are as many as the ordinal says.  An ordinal for
a whole row or more is illegal, as is any in a setup without rows. -/
theorem ordinals_count (f : Formation) (mode : Grouping) (side : RowEnd) (count : SmallCount) :
    (f.setup.rowLength ≤ count.toNat → ∀ slot, f.isLive slot = true →
      f.picks (.ordinal side count) mode slot = .error .illegalDesignator) ∧
    (count.toNat < f.setup.rowLength →
      (∀ slot, f.isLive slot = true →
        ((∃ answer, f.picks (.ordinal side count) mode slot = .ok answer) ↔
          f.KeepsRows side.isAlong)) ∧
      (∀ rest : SmallCount, count.toNat + rest.toNat = f.setup.rowLength →
        ∀ slot, f.isLive slot = true → f.picks (.ordinal side.opposite rest) mode slot
          = (f.picks (.ordinal side count) mode slot).map (!·)) ∧
      (∀ more : SmallCount, more.toNat = count.toNat + 1 → more.toNat < f.setup.rowLength →
        ∀ slot, f.isLive slot = true → f.picks (.ordinal side count) mode slot = .ok true →
          f.picks (.ordinal side more) mode slot = .ok true) ∧
      ∀ row ∈ f.setup.rows,
        (∀ slot ∈ row, f.isLive slot = true ∧
          ∃ answer, f.picks (.ordinal side count) mode slot = .ok answer) →
        row.countP (fun slot => f.picks (.ordinal side count) mode slot = .ok true)
          = count.toNat) := by
  refine ⟨fun hlength slot hlive => ?_, fun hcount => ?_⟩
  · rw [picks_ordinal hlive, isAmong_of_rowLength_le hlength]
  obtain ⟨-, hnone⟩ | ⟨r, hr, hdescribes⟩ := rows?_cases f.setup
  · omega
  rw [← hdescribes.length] at hcount ⊢
  refine ⟨fun slot hlive => ?_, fun rest hrest slot hlive => ?_,
    fun more hmore hfew slot hlive htrue => ?_, fun row hrow hanswers => ?_⟩
  · rw [picks_ordinal hlive, isAmong_eq hr hcount]
    obtain ⟨hkeeps, rank, hrank, -⟩ | ⟨hkeeps, herror⟩ := exists_rank hdescribes side.isAlong
    · rw [hrank]
      exact ⟨fun _ => hkeeps, fun _ => ⟨_, rfl⟩⟩
    · rw [herror]
      exact ⟨nofun, fun h => absurd h hkeeps⟩
  · have hlt : rest.toNat < r.length := by
      have := count.toNat_pos
      omega
    rw [picks_ordinal hlive, picks_ordinal hlive, isAmong_eq hr hcount, isAmong_eq hr hlt,
      side.isAlong_opposite]
    exact map_not (side.takes_opposite hrest) _
  · rw [picks_ordinal hlive, isAmong_eq hr hcount] at htrue
    rw [picks_ordinal hlive, isAmong_eq hr hfew]
    cases hrank : f.rank r side.isAlong slot with
    | error e =>
      rw [hrank] at htrue
      cases htrue
    | ok k =>
      rw [hrank] at htrue
      exact congrArg Except.ok (RowEnd.takes_of_le (by omega) (Except.ok.inj htrue))
  · have hpicks : ∀ slot ∈ row,
        f.picks (.ordinal side count) mode slot = f.isAmong side count slot :=
      fun slot hslot => picks_ordinal (hanswers slot hslot).1
    rw [List.countP_congr fun slot hslot => by rw [hpicks slot hslot]]
    exact countP_isAmong hr hdescribes hcount hrow fun slot hslot =>
      hpicks slot hslot ▸ (hanswers slot hslot).2

/-- Columns of a 2x4 with the last place of the northern one empty: that row faces east and the
other one west. -/
def gappedColumns : Formation where
  setup := .grid2x4
  slots := #v[none, some { direction := .east }, some { direction := .east },
    some { direction := .east }, some { direction := .west }, some { direction := .west },
    some { direction := .west }, some { direction := .west }]

/-- Three and one of a column of four are counted, the other column having a gap. -/
theorem ordinals_count_gappedColumns :
    SmallCount.three.toNat < gappedColumns.setup.rowLength ∧
      SmallCount.three.toNat + SmallCount.one.toNat = gappedColumns.setup.rowLength ∧
      [4, 5, 6, 7] ∈ gappedColumns.setup.rows ∧
      (∀ slot ∈ [4, 5, 6, 7], gappedColumns.isLive slot = true) ∧
      gappedColumns.KeepsRows true ∧
      gappedColumns.picks (.ordinal .last .one) .disallowed 4 = .ok true ∧
      [4, 5, 6, 7].countP (fun slot =>
        gappedColumns.picks (.ordinal .first .three) .disallowed slot = .ok true) = 3 := by
  have hthree : SmallCount.three.toNat < gappedColumns.setup.rowLength := by decide
  have hrest : SmallCount.three.toNat + SmallCount.one.toNat = gappedColumns.setup.rowLength := rfl
  have hrow : [4, 5, 6, 7] ∈ gappedColumns.setup.rows := by decide
  have hlive : ∀ slot ∈ [4, 5, 6, 7], gappedColumns.isLive slot = true := by decide +kernel
  have hfirst : gappedColumns.picks (.ordinal .first .three) .disallowed 4 = .ok false := by
    decide +kernel
  obtain ⟨hanswers, hothers, -, hfull⟩ :=
    (ordinals_count gappedColumns .disallowed .first .three).2 hthree
  have hkeeps := (hanswers 4 (hlive 4 (by decide))).1 ⟨false, hfirst⟩
  refine ⟨hthree, hrest, hrow, hlive, hkeeps, ?_, ?_⟩
  · exact (hothers .one hrest 4 (hlive 4 (by decide))).trans (by rw [hfirst]; rfl)
  · exact hfull _ hrow fun slot hslot =>
      ⟨hlive slot hslot, (hanswers slot (hlive slot hslot)).2 hkeeps⟩

end Formation
end SquareDance
