/-
# Flags of calls and of array definitions

The flags of a body are three words: `flags1`, an overflow word and the heritable
ones.  Most of `flags1` is single bits; a few fields hold a code:

| bits | holds |
| --- | --- |
| `0x00000007` | which fractions of the call are visible |
| `0x00003800` | whether people first touch, step to a wave or rear back |
| `0x00038000` | how many numbers the call needs |
| `0x00200000`, `0x00400000` | not for resolving, not for nice resolving |
| `0x0E000000` | one more than the class of a tagging call |
| `0x10000000` | a circulating call |

An array definition has a word of flags of its own.
-/

namespace SquareDance

/-- The flags of a body. -/
structure CallFlags where
  flags1 : UInt32 := 0
  /-- Flags for which `flags1` had no room. -/
  overflow : UInt16 := 0
  heritable : UInt32 := 0
  deriving DecidableEq, Inhabited

namespace CallFlags

/-- No flag is set. -/
def isEmpty (f : CallFlags) : Bool := f.flags1 == 0 && f.overflow == 0 && f.heritable == 0

/-- One step of the code for visible fractions. -/
def visibleFractionUnit : UInt32 := 0x1

/-- The bits that say how people touch, step or rear back first. -/
def stepRearMask : UInt32 := 0x3800

/-- The code for `step_to_nonphantom_box`. -/
def stepToNonphantomBox : UInt32 := 0x1800

/-- The code for `rear_back_from_wave_or_qtag`. -/
def rearBackFromEither : UInt32 := 0x2800

/-- The code for `step_to_qtag`. -/
def stepToQTag : UInt32 := 0x3000

/-- One number that the call needs. -/
def numberUnit : UInt32 := 0x8000

/-- The bits that hold how many numbers the call needs. -/
def numberMask : UInt32 := 0x38000

/-- The call is not to be chosen for a resolve. -/
def notInResolve : UInt32 := 0x200000

/-- The call is not to be chosen for a nice resolve. -/
def notInNiceResolve : UInt32 := 0x400000

/-- One step of the code for the class of a tagging call. -/
def taggerUnit : UInt32 := 0x2000000

/-- The bits that hold the class of a tagging call. -/
def taggerMask : UInt32 := 0xE000000

/-- The call needs a circulating call. -/
def circulator : UInt32 := 0x10000000

end CallFlags

namespace ArrayFlags

/-- The flag for `rotate`. -/
def rotate : UInt32 := 0x1

/-- The flag for `simple_funny`, which stands before the setups. -/
def facingFunny : UInt32 := 0x2

/-- The flag for a rotation of the outer setup. -/
def rotateOuter : UInt32 := 0x8

/-- The strength of a restriction for `unusual`. -/
def unusual : UInt32 := 0x10

/-- The strength of a restriction for `forbidden`. -/
def forbidden : UInt32 := 0x20

/-- The strength of a restriction for `resolve_ok`. -/
def resolveOk : UInt32 := 0x30

/-- The strength of a restriction for `controversial`. -/
def controversial : UInt32 := 0x40

/-- The strength of a restriction for `serious_violation`. -/
def seriousViolation : UInt32 := 0x50

/-- The strength of a restriction for `assume_dpt`. -/
def assumeDpt : UInt32 := 0x60

/-- The strength of a restriction for `each_1x3`. -/
def each1x3 : UInt32 := 0x70

/-- The flag for `no_cutting_through`. -/
def noCuttingThrough : UInt32 := 0x100

/-- The flag for `no_facing_ends`. -/
def noFacingEnds : UInt32 := 0x200

/-- The flag for `lateral_to_selectees`, which stands before the setups. -/
def lateralToSelectees : UInt32 := 0x400

/-- The flag for `other_elongate`. -/
def otherElongate : UInt32 := 0x800

/-- The flag for `split_to_box`, which stands before the setups. -/
def splitToBox : UInt32 := 0x1000

/-- The flag for `really_want_diamond`. -/
def reallyWantDiamond : UInt32 := 0x2000

/-- The flag for `no_compress`. -/
def noCompress : UInt32 := 0x4000

/-- The flag for `plus_eighth_rotation`. -/
def plusEighthRotation : UInt32 := 0x8000

end ArrayFlags
end SquareDance
