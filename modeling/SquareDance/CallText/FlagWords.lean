/-
# Flag words

A body begins with words that are flags of the call.  Most set a bit and may be
repeated.  Of the words for what people first do only one may be given; the words
for heritable modifiers may not be repeated.  `CallFlags.add` is the rule, and
`Parser.callFlags` reads words for as long as they are flags.

Words for the flags of the array definitions follow.
-/

import SquareDance.CallText.Parser

namespace SquareDance
namespace CallText

/-- What a flag word stands for. -/
inductive FlagWord where
  /-- Bits of `flags1`. -/
  | basic (bits : UInt32)
  /-- Bits of `flags1` that may not be there before. -/
  | basicOnce (bits : UInt32)
  /-- What people first do: touch, step to a wave or rear back. -/
  | stepRear (bits : UInt32)
  | overflow (bits : UInt16)
  | heritable (bits : UInt32)
  deriving DecidableEq, Inhabited

namespace FlagWord

/-- The flag with a given number. -/
def ofIndex (i : Nat) : FlagWord :=
  if 32 ≤ i then .overflow (1 <<< UInt16.ofNat (i - 32))
  else if Words.bit i &&& CallFlags.stepRearMask ≠ 0 then .stepRear (Words.bit i)
  else .basic (Words.bit i)

/-- The flags with names of their own: codes, and groups of heritable modifiers. -/
def ofSpecialWord? : String → Option FlagWord
  | "step_to_nonphantom_box" => some (.stepRear CallFlags.stepToNonphantomBox)
  | "rear_back_from_wave_or_qtag" => some (.stepRear CallFlags.rearBackFromEither)
  | "step_to_qtag" => some (.stepRear CallFlags.stepToQTag)
  | "visible_fractions" => some (.basic (7 * CallFlags.visibleFractionUnit))
  | "last_part_visible" => some (.basic (3 * CallFlags.visibleFractionUnit))
  | "first_and_last_parts_visible" => some (.basic (5 * CallFlags.visibleFractionUnit))
  | "need_three_numbers" => some (.basic (3 * CallFlags.numberUnit))
  | "optional_special_number" => some (.basic CallFlags.numberMask)
  | "base_tag_call_2" => some (.basicOnce (3 * CallFlags.taggerUnit))
  | "yoyo_is_inherited" => some (.heritable Heritable.yoyo)
  | "gen_sting_is_inherited" => some (.heritable Heritable.generous)
  | "mxn_is_inherited" => some (.heritable Heritable.mxnMask)
  | "nxn_is_inherited" => some (.heritable Heritable.nxnMask)
  | "bigmatrix_is_inherited" => some (.heritable (Heritable.matrix12 ||| Heritable.matrix16))
  | "revert_is_inherited" => some (.heritable Heritable.revertMask)
  | _ => none

/-- What a word stands for, if it is a flag. -/
def ofWord? (word : String) : Option FlagWord :=
  (Words.callFlags.index? word).map ofIndex
    <|> ofSpecialWord? word
    <|> (Words.heritableFlags.index? word).map fun i => .heritable (Words.bit i)

end FlagWord

end CallText

/-- Add what a flag word stands for to the flags of a body. -/
def CallFlags.add (flags : CallFlags) : CallText.FlagWord → Except String CallFlags
  | .basic bits => .ok { flags with flags1 := flags.flags1 ||| bits }
  | .basicOnce bits =>
    if flags.flags1 &&& bits ≠ 0 then .error "Redundant indicator"
    else .ok { flags with flags1 := flags.flags1 ||| bits }
  | .stepRear bits =>
    if flags.flags1 &&& stepRearMask ≠ 0 then .error "Too many touch/rear flags"
    else .ok { flags with flags1 := flags.flags1 ||| bits }
  | .overflow bits => .ok { flags with overflow := flags.overflow ||| bits }
  | .heritable bits =>
    if flags.heritable &&& bits ≠ 0 then .error "Redundant indicator"
    else .ok { flags with heritable := flags.heritable ||| bits }

/-- The flag of an array definition that a word before the setups stands for. -/
def ArrayFlags.ofWord? : String → Option UInt32
  | "simple_funny" => some facingFunny
  | "lateral_to_selectees" => some lateralToSelectees
  | "split_to_box" => some splitToBox
  | _ => none

namespace CallText
namespace Parser

open Consumer

/-- Add a flag word to the flags before it, or stop at another word. -/
def callFlagStep (flags : CallFlags) : Parser (CallFlags ⊕ CallFlags) := do
  let word ← indicator
  match FlagWord.ofWord? word with
  | none => return .inr flags
  | some w =>
    let flags ← accepted (flags.add w)
    advance
    return .inl flags

/-- Every flag of a call is left behind. -/
theorem turns_callFlagStep (flags : CallFlags) : (callFlagStep flags).Turns :=
  keeps_indicator.bind_turns fun _ => by
    split
    · exact .done _
    · exact ((keeps_accepted _).bind_takes fun _ => takes_advance.bind fun _ => .pure _).turns

/-- A word that is no flag of a call stays where it is. -/
theorem keeps_callFlagStep (flags : CallFlags) : (callFlagStep flags).Keeps :=
  keeps_indicator.bind fun _ => by
    split
    · exact .pure _
    · exact (keeps_accepted _).bind fun _ => takes_advance.keeps.bind fun _ => .pure _

/-- The flags of a body, up to a word that is none. -/
def callFlags : Parser CallFlags := loop callFlagStep turns_callFlagStep {}

/-- The flags of a call are read from the front. -/
theorem keeps_callFlags : callFlags.Keeps := keeps_loop _ keeps_callFlagStep {}

/-- Add a flag of an array definition to those before it, or stop at another word. -/
def arrayFlagStep (flags : UInt32) : Parser (UInt32 ⊕ UInt32) := do
  let word ← indicator
  match ArrayFlags.ofWord? word with
  | none => return .inr flags
  | some bits =>
    advance
    return .inl (flags ||| bits)

/-- Every flag of an array definition is left behind. -/
theorem turns_arrayFlagStep (flags : UInt32) : (arrayFlagStep flags).Turns :=
  keeps_indicator.bind_turns fun _ => by
    split
    · exact .done _
    · exact (takes_advance.bind fun _ => .pure _).turns

/-- A word that is no flag of an array definition stays where it is. -/
theorem keeps_arrayFlagStep (flags : UInt32) : (arrayFlagStep flags).Keeps :=
  keeps_indicator.bind fun _ => by
    split
    · exact .pure _
    · exact takes_advance.keeps.bind fun _ => .pure _

/-- The flags of an array definition before its setups, up to a word that is none. -/
def arrayFlags : Parser UInt32 := loop arrayFlagStep turns_arrayFlagStep 0

/-- The flags of an array definition are read from the front. -/
theorem keeps_arrayFlags : arrayFlags.Keeps := keeps_loop _ keeps_arrayFlagStep 0

end Parser
end CallText
end SquareDance
