/-
# The words of call definitions

The words that the text of call definitions is written with, in tables.  The number
of a word in its table is usually the number of a bit.  The words for heritable
modifiers that are codes are in families: the word at position `i` of a family
stands for `i + 1` units of it.
-/

import SquareDance.Call.Heritable
import SquareDance.Vocabulary

namespace SquareDance
namespace Words

/-- Tags that every table has, with these numbers.  The first one stands for no call. -/
def baseTags : Vocabulary :=
  ["+++", "nullcall", "nullsecond", "real_base_0", "real_base_0_noflip", "base_tag_call_flip",
   "armturn_n4", "endsshadow", "chreact_1", "makepass_1", "nuclear_1", "scootback",
   "scootbacktowave", "backemup", "circulate", "trade", "plainprom", "plainpromeighths",
   "any_hand_remake_start_with_n", "passthru", "check_cross_counter", "lockit", "disband1",
   "slither", "maybegrandslither", "dixie_half_tag", "plan_ctrtoend", "prepare_to_drop", "hinge",
   "hinge_for_nicely", "hinge_with_warn", "hinge_for_breaker", "hinge_then_trade",
   "hinge_then_trade_for_breaker", "two_o_circs_for_frac", "cloverleaf", "clover", "tagnullcall0",
   "tagnullcall1", "tagnullcall2", "tagnullcall3", "circnullcall", "turnstarn",
   "revert_if_needed", "extend_n"]

/-- Words that mark array definitions, before the setups. -/
def arrayFlags : Vocabulary :=
  ["simple_funny", "lateral_to_selectees", "split_to_box"]

/-- Modifiers of any sub-call. -/
def subCallModifiers : Vocabulary :=
  ["conc_demand_lines", "conc_demand_columns", "conc_force_lines", "conc_force_columns",
   "conc_force_otherway", "conc_force_spots", "conc_concentric_rules",
   "suppress_elongation_warnings", "or_anycall", "mandatory_anycall", "allow_forced_mod",
   "only_force_elong_if_empty", "roll_transparent_if_z", "endscando", "finish_this_part",
   "roll_transparent", "permit_touch_or_rear_back", "cpls_unless_single", "shift_one_number",
   "shift_two_numbers", "", "", "", "no_check_mod_level", "", "suppress_roll"]

/-- More modifiers, for the parts of a sequence. -/
def partModifiers : Vocabulary :=
  ["seq_re_evaluate", "do_half_more", "seq_never_re_evaluate", "seq_re_enable_elongation_check",
   "repeat_n", "repeat_nm1", "normalize"]

/-- Flags of a body.  The first 32 go into `flags1`, the others into the overflow word. -/
def callFlags : Vocabulary :=
  ["first_part_visible", "first_two_parts_visible", "last_two_parts_visible",
   "12_16_matrix_means_split", "preserve_z_stuff", "split_like_dixie_style", "parallel_conc_end",
   "take_right_hands", "take_right_hands_as_couples", "yoyo_fractal_numbers", "fudge_to_q_tag",
   "step_to_wave", "rear_back_from_r_wave", "rear_back_from_qtag", "distribute_repetitions",
   "neednumber", "need_two_numbers", "need_four_numbers", "left_means_touch_or_check",
   "sequence_starter", "sequence_starter_promenade", "dont_use_in_resolve",
   "dont_use_in_nice_resolve", "split_large_setups", "split_if_z", "base_tag_call_0",
   "base_tag_call_1", "base_tag_call_3", "base_circ_call", "ends_take_right_hands",
   "funny_means_those_facing", "split_like_square_thru", "no_seq_if_no_frac",
   "can_be_one_side_lateral", "no_elongation_allowed", "imprecise_rotation", "can_be_fan",
   "equalize", "one_person_call", "yield_if_ambiguous", "do_exchange_compress",
   "anyone_who_moves_cant_roll", "fractional_numbers", "dont_raise_overcast",
   "overcast_transparent", "is_star_call", "accept_in_all_menus"]

/-- Flags of a body for heritable modifiers that are one bit each. -/
def heritableFlags : Vocabulary :=
  ["diamond_is_legal", "reverse_means_mirror", "left_means_mirror", "funny_is_inherited",
   "intlk_is_inherited", "magic_is_inherited", "grand_is_inherited", "12_matrix_is_inherited",
   "16_matrix_is_inherited", "cross_is_inherited", "single_is_inherited",
   "singlefile_is_inherited", "half_is_inherited", "rewind_is_inherited", "straight_is_inherited",
   "twisted_is_inherited", "lasthalf_is_inherited", "fractal_is_inherited", "fast_is_inherited"]

/-- Keys of alternate definitions, in step with `heritableFlags`. -/
def alternateKeys : Vocabulary :=
  ["diamond", "reverse", "left", "funny", "interlocked", "magic", "grand", "12matrix", "16matrix",
   "cross", "single", "singlefile", "half", "rewind", "straight", "twisted", "lasthalf",
   "fractal", "fast"]

/-- Modifiers that hand down what a call was given, in step with `heritableFlags`. -/
def inheritModifiers : Vocabulary :=
  ["inherit_diamond", "inherit_reverse", "inherit_left", "inherit_funny", "inherit_intlk",
   "inherit_magic", "inherit_grand", "", "", "inherit_cross", "inherit_single",
   "inherit_singlefile", "inherit_half", "inherit_rewind", "inherit_straight", "inherit_twisted",
   "inherit_lasthalf", "inherit_fractal", "inherit_fast"]

/-- Modifiers that add to what a sub-call is given, in step with `heritableFlags`. -/
def forceModifiers : Vocabulary :=
  ["force_diamond", "force_reverse", "force_left", "force_funny", "force_intlk", "force_magic",
   "force_grand", "force_12_matrix", "force_16_matrix", "force_cross", "force_single",
   "force_singlefile", "force_half", "force_rewind", "force_straight", "force_twisted",
   "force_lasthalf", "force_fractal", "force_fast"]

/-- Keys of the yoyo family. -/
def yoyoKeys : Vocabulary :=
  ["yoyo", "generous", "stingy"]

/-- Modifiers of the yoyo family. -/
def yoyoForces : Vocabulary :=
  ["force_yoyo", "force_generous", "force_stingy"]

/-- Keys of the mxn family. -/
def mxnKeys : Vocabulary :=
  ["1x2", "2x1", "1x3", "3x1", "0x3", "3x0", "0x4", "4x0", "6x2", "3x2"]

/-- Modifiers of the mxn family. -/
def mxnForces : Vocabulary :=
  ["force_1x2", "force_2x1", "force_1x3", "force_3x1", "force_0x3", "force_3x0", "force_0x4",
   "force_4x0", "force_6x2", "force_3x2"]

/-- Keys of the nxn family. -/
def nxnKeys : Vocabulary :=
  ["2x2", "3x3", "4x4", "5x5", "6x6", "7x7", "8x8"]

/-- Modifiers of the nxn family. -/
def nxnForces : Vocabulary :=
  ["force_2x2", "force_3x3", "force_4x4", "force_5x5", "force_6x6", "force_7x7", "force_8x8"]

/-- Keys of the revert family. -/
def revertKeys : Vocabulary :=
  ["revert", "reflect", "revertreflect", "reflectrevert", "revertreflectrevert",
   "reflectrevertreflect", "reflectreflect"]

/-- Modifiers of the revert family. -/
def revertForces : Vocabulary :=
  ["force_revert", "force_reflect", "force_revertreflect", "force_reflectrevert",
   "force_revertreflectrevert", "force_reflectrevertreflect", "force_reflectreflect"]

/-- Flags of a matrix. -/
def matrixFlags : Vocabulary :=
  ["use_selector", "stop_and_warn_on_tbone", "tbone_is_ok", "ignore_nonselectees",
   "must_face_same_way", "find_jaywalkers", "both_selected_ok", "find_squeezers",
   "find_spreaders", "use_veer_data", "use_number", "lateral_mirror_if_right_of_center",
   "only_in", "only_out", "add_2n", "include_phantoms", "not_true_invader"]

/-- The bit with a given number. -/
def bit (i : Nat) : UInt32 := 1 <<< UInt32.ofNat i

/-- The bits of a word of a family of codes. -/
def codeBits? (family : Vocabulary) (unit : UInt32) (word : String) : Option UInt32 :=
  (family.index? word).map fun i => unit * (UInt32.ofNat i + 1)

/-- The heritable modifiers that a key of an alternate definition stands for. -/
def alternateKeyBits? (word : String) : Option UInt32 :=
  ((alternateKeys.index? word).map bit)
    <|> codeBits? yoyoKeys Heritable.yoyoUnit word
    <|> codeBits? mxnKeys Heritable.mxnUnit word
    <|> codeBits? nxnKeys Heritable.nxnUnit word
    <|> codeBits? revertKeys Heritable.revertUnit word

/-- The heritable modifiers that a modifier of a sub-call adds. -/
def forceBits? (word : String) : Option UInt32 :=
  ((forceModifiers.index? word).map bit)
    <|> codeBits? yoyoForces Heritable.yoyoUnit word
    <|> codeBits? mxnForces Heritable.mxnUnit word
    <|> codeBits? nxnForces Heritable.nxnUnit word
    <|> codeBits? revertForces Heritable.revertUnit word

end Words
end SquareDance
