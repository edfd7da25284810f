/-
# Schemas

The schema of a definition says how the call is put together: from arrays of
destinations, from a matrix of offsets, from parts danced one after another, from
what the centers do while the ends do something else, or as another name of a
call.  Definitions refer to a schema by number.
-/

import SquareDance.Vocabulary

namespace SquareDance

/-- The form of a definition. -/
inductive SchemaKind where
  /-- Arrays of destinations, by starting setup. -/
  | array
  /-- No definition at all. -/
  | nothing
  /-- A matrix of two entries. -/
  | matrix
  /-- A matrix of sixteen entries. -/
  | partnerMatrix
  /-- Calls done one after another. -/
  | sequential
  /-- Another call. -/
  | sameAs
  /-- Two calls, done at the same time by different people. -/
  | concentric
  deriving DecidableEq, Inhabited

/-- The number of entries of a matrix. -/
def SchemaKind.matrixEntries? : SchemaKind → Option Nat
  | matrix => some 2
  | partnerMatrix => some 16
  | _ => none

namespace Schema

/-- The names of the schemas.  An empty name marks a number out of use. -/
def table : Vocabulary :=
  ["conc", "crossconc", "3x3kconc", "3x3kcrossconc", "4x4kconc", "4x4kcrossconc", "singleconc",
   "singlecrossconc", "grandsingleconc", "grandsinglecrossconc", "singleconc_together",
   "singlecrossconc_together", "maybematrix_singleconc_together", "maybesingleconc",
   "maybesinglecrossconc", "maybegrandsingleconc", "maybegrandsinglecrossconc",
   "maybespecialsingleconc", "maybespecialtradeby", "specialtradeby",
   "maybegrandsingleormatrixconc", "3x3_conc", "4x4_lines_conc", "4x4_cols_conc",
   "maybe_nxn_lines_conc", "maybe_nxn_cols_conc", "maybe_nxn_1331_lines_conc",
   "maybe_nxn_1331_cols_conc", "1331_conc", "", "1221_conc", "conc_diamond_line", "conc_lines_z",
   "conc_diamonds", "crossconc_diamonds", "conc_zs", "crossconc_zs", "conc_or_diamond_line",
   "conc_or_6_2_line", "conc6_2", "crossconc6_2", "conc6_2_line", "conc2_6", "crossconc2_6",
   "conc2_4", "crossconc2_4", "conc2_4_or_normal", "conc4_2", "conc4_2_prefer_1x4",
   "crossconc4_2", "conc4_2_or_normal", "conc_or_2_6", "conc_or_6_2", "", "", "conc2_6_or_2_4",
   "crossconc2_6_or_2_4", "conc_innermost", "conc_touch_by_1_of_3", "crossconc_innermost",
   "crossconc_touch_by_1_of_3", "conc_touch_by_2_of_3", "singleconc_together_if_odd",
   "singlecrossconc_together_if_odd", "conc6p", "conc6p_or_normal",
   "conc6p_or_normal_or_2x6_2x3", "conc6p_or_singletogether", "crossconc6p_or_normal",
   "conc_others", "conc6_2_tgl", "conc_to_outer_dmd", "conc_no31dwarn", "conc_specialpromenade",
   "crossconc_specialpromenade", "conc_12", "conc_16", "conc_star", "conc_star12", "conc_star16",
   "conc_bar", "conc_bar12", "conc_bar16", "conc_o", "conc_intermediate_diamond",
   "conc_outside_diamond", "maybematrix_conc", "maybematrix_conc_star", "maybematrix_conc_bar",
   "checkpoint", "checkpoint_spots", "checkpoint_mystic_ok", "cross_checkpoint",
   "reverse_checkpoint", "", "ckpt_star", "maybe_in_out_triple_dyp_squash",
   "in_out_triple_dyp_squash", "maybe_in_out_triple_squash", "in_out_triple_squash",
   "sgl_in_out_triple_squash", "3x3_in_out_triple_squash", "4x4_in_out_triple_squash",
   "in_out_triple", "sgl_in_out_triple", "3x3_in_out_triple", "4x4_in_out_triple", "in_out_quad",
   "in_out_12mquad", "", "", "select_leads", "select_headliners", "select_sideliners",
   "select_original_rims", "select_original_hubs", "select_those_facing_both_sets_live",
   "select_center2", "select_center4", "select_center6", "select_who_can", "select_who_did",
   "select_who_didnt", "select_who_did_and_didnt", "", "", "", "", "setup", "nulldefine",
   "nulldefine_noroll", "nulldefine_other_elong", "matrix", "partnermatrix",
   "partnerpartialmatrix", "rolldefine", "recenter", "seq", "splitseq", "seq_with_fraction",
   "seq_with_split_1x8_id", "seq_alternate", "seq_remainder", "alias"]

end Schema

/-- A schema: a number that is in use. -/
structure Schema where
  index : Nat
  isNamed : (Schema.table[index]?).any (· != "") = true
  deriving DecidableEq

namespace Schema

/-- The schema with a given number. -/
def ofIndex? (i : Nat) : Option Schema :=
  if h : (table[i]?).any (· != "") = true then some ⟨i, h⟩ else none

/-- The schema with a given name. -/
def ofName? (word : String) : Option Schema := (table.index? word).bind ofIndex?

/-- The name of a schema. -/
def name (s : Schema) : String := table[s.index]?.getD ""

/-- The form of a definition with this schema. -/
def kind (s : Schema) : SchemaKind :=
  match s.index with
  | 128 => .array
  | 129 | 130 | 131 | 135 | 136 => .nothing
  | 132 => .matrix
  | 133 | 134 => .partnerMatrix
  | 137 | 138 | 139 | 140 | 141 | 142 => .sequential
  | 143 => .sameAs
  | _ => .concentric

/-- There are 144 schemas. -/
theorem index_lt (s : Schema) : s.index < 144 := by
  obtain ⟨i, h⟩ := s
  by_cases hi : i < 144
  · exact hi
  · have : table[i]? = none := List.getElem?_eq_none (Nat.le_of_not_lt hi)
    simp [this] at h

/-- **A schema is found at its number.** -/
@[simp] theorem ofIndex?_index (s : Schema) : ofIndex? s.index = some s := by
  simp [ofIndex?, s.isNamed]

end Schema
end SquareDance
