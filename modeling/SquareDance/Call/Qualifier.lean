/-
# Qualifiers

A qualifier restricts a definition to formations that look a certain way:
`wave_only`, `couples_only`.  A definition holds its number together with a few
signs of its own, in one word:

| bits | holds |
| --- | --- |
| `0x10000`, `0x8000`, `0x4000` | left, right, live |
| `0x2000`, `0x1000` | T-boned, not T-boned |
| `0x0F00` | one more than a number, or zero |
| `0x00FF` | the number of the qualifier |
-/

import SquareDance.Vocabulary

namespace SquareDance
namespace Qualifier

/-- The qualifiers. -/
def table : Vocabulary :=
  ["none", "alwaysfail", "give_fudgy_warn", "wave_only", "wave_unless_say_2faced",
   "all_facing_same", "1fl_only", "2fl_only", "2fl_per_1x4", "ctr_2fl_only", "3x3_2fl_only",
   "4x4_2fl_only", "leads_only", "trailers_only", "couples_only", "3x3couples_only",
   "4x4couples_only", "ckpt_miniwaves", "ctr_miniwaves", "ctr_couples", "awkward_centers",
   "dmd_same_point", "dmd_facing", "diamond_like", "qtag_like", "qtag_like_anisotropic",
   "pu_qtag_like", "conc_cpls_same", "conc_cpls_diff", "regular_tbone", "gen_qbox",
   "nice_diamonds", "nice_wv_triangles", "nice_tnd_triangles", "magic_only", "in_or_out",
   "centers_in_or_out", "independent_in_or_out", "miniwaves", "not_miniwaves", "tgl_tandbase",
   "true_Z_cw", "true_Z_ccw", "true_PG_cw", "true_PG_ccw", "lateral_columns_empty",
   "ctrwv_end2fl", "ctr2fl_endwv", "split_dixie", "not_split_dixie", "dmd_ctrs_mwv",
   "dmd_ctrs_mwv_no_mirror", "dmd_ctrs_mwv_change_to_34_tag", "spd_base_mwv", "qtag_mwv",
   "qtag_mag_mwv", "dmd_ctrs_1f", "dmd_pts_mwv", "dmd_pts_1f", "dmd_intlk", "dmd_not_intlk",
   "tall_6", "ctr_pts_rh", "ctr_pts_lh", "extend_inroutl", "extend_inloutr", "said_diamond",
   "said_triangle", "didnt_say_triangle", "said_galaxy", "occupied_as_stars",
   "occupied_as_clumps", "occupied_as_blocks", "occupied_as_h", "occupied_as_qtag",
   "occupied_as_3x1tgl", "line_ends_looking_out", "col_ends_looking_in", "ripple_one_end",
   "ripple_both_ends", "ripple_both_ends_1x4_only", "ripple_both_centers", "ripple_any_centers",
   "people_1_and_5_real", "centers_sel", "ends_sel", "all_sel", "not_all_sel", "some_sel",
   "none_sel", "normal_unwrap_sel", "ptp_unwrap_sel", "explodable", "reverse_explodable",
   "peelable_box", "ends_are_peelable", "siamese_in_quad", "not_tboned_in_quad",
   "inroller_is_cw", "inroller_is_ccw", "outroller_is_cw", "outroller_is_ccw", "judge_is_cw",
   "judge_is_ccw", "socker_is_cw", "socker_is_ccw", "levelplus", "levela1", "levela2", "levelc1",
   "levelc2", "levelc3", "levelc4", "not_tboned", "opposite_sex", "quarterbox_or_col",
   "quarterbox_or_magic_col", "", "", "", "", "", "", "", "", "", ""]

/-- The number of a qualifier. -/
def index? (word : String) : Option Nat := table.index? word

/-- The qualifier is for the left hand. -/
def left : UInt32 := 0x10000

/-- The qualifier is for the right hand. -/
def right : UInt32 := 0x8000

/-- The qualifier is for live people. -/
def live : UInt32 := 0x4000

/-- The qualifier is for a T-bone. -/
def tBone : UInt32 := 0x2000

/-- The qualifier is for what is no T-bone. -/
def notTBone : UInt32 := 0x1000

/-- The bits that hold one more than the number of a qualifier. -/
def numberMask : UInt32 := 0x0F00

/-- One step of the number of a qualifier. -/
def numberUnit : UInt32 := 0x0100

/-- The bits that hold which qualifier it is. -/
def codeMask : UInt32 := 0x00FF

/-- The largest number that a qualifier may carry. -/
def maxNumber : UInt32 := 14

end Qualifier
end SquareDance
