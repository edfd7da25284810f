/-
# Heritable modifiers

A caller may modify a call: "single", "reverse", "3x3", "revert".  Modifiers that
a call hands down to its parts are bits and small codes in one word.

`merge?` adds modifiers to a word.  It refuses what is there already and what
excludes it: at most one of fractal and the yoyo family, one of single and single
file, one of the mxn and nxn codes, one of the 12 and 16 matrices.  Revert and
reflect are not added but composed, up to three steps: "revert" after "reflect"
is "reflect revert".
-/

namespace SquareDance
namespace Heritable

/-- The modifier "reverse". -/
def reverse : UInt32 := 0x00000002

/-- The modifier "left". -/
def left : UInt32 := 0x00000004

/-- The modifier "12 matrix". -/
def matrix12 : UInt32 := 0x00000080

/-- The modifier "16 matrix". -/
def matrix16 : UInt32 := 0x00000100

/-- The modifier "single". -/
def single : UInt32 := 0x00000400

/-- The modifier "single file". -/
def singleFile : UInt32 := 0x00000800

/-- The modifier "fractal". -/
def fractal : UInt32 := 0x00020000

/-- The bits of the yoyo family. -/
def yoyoMask : UInt32 := 0x00180000

/-- One step of the code in the yoyo family. -/
def yoyoUnit : UInt32 := 0x00080000

/-- The modifier "yoyo". -/
def yoyo : UInt32 := 0x00080000

/-- The modifier "generous", of the yoyo family. -/
def generous : UInt32 := 0x00100000

/-- The bits for m-by-n formations such as 1x2. -/
def mxnMask : UInt32 := 0x01E00000

/-- One step of the code for m-by-n formations. -/
def mxnUnit : UInt32 := 0x00200000

/-- The bits for n-by-n formations such as 3x3. -/
def nxnMask : UInt32 := 0x0E000000

/-- One step of the code for n-by-n formations. -/
def nxnUnit : UInt32 := 0x02000000

/-- The bits for the steps of revert and reflect. -/
def revertMask : UInt32 := 0x70000000

/-- One step of the code for revert and reflect. -/
def revertUnit : UInt32 := 0x10000000

/-- The step "revert". -/
def revert : UInt32 := 0x10000000

/-- The step "reflect". -/
def reflect : UInt32 := 0x20000000

/-- The steps "revert reflect". -/
def revertReflect : UInt32 := 0x30000000

/-- The steps "reflect revert". -/
def reflectRevert : UInt32 := 0x40000000

/-- The steps "revert reflect revert". -/
def revertReflectRevert : UInt32 := 0x50000000

/-- The steps "reflect revert reflect". -/
def reflectRevertReflect : UInt32 := 0x60000000

/-- The steps "reflect reflect". -/
def reflectReflect : UInt32 := 0x70000000

/-- Groups of modifiers of which a word holds at most one. -/
def exclusiveGroups : List UInt32 :=
  [fractal ||| yoyoMask, singleFile ||| single, mxnMask ||| nxnMask, matrix12 ||| matrix16]

/-- The composition of a step with the steps that went before. -/
def compose? (before step : UInt32) : Option UInt32 :=
  if step = revert then
    if before = reflect then some reflectRevert
    else if before = revertReflect then some revertReflectRevert
    else none
  else if step = reflect then
    if before = revert then some revertReflect
    else if before = reflect then some reflectReflect
    else if before = reflectRevert then some reflectRevertReflect
    else none
  else none

/-- Two words hold something of one exclusive group. -/
def conflicts (dest source : UInt32) : Bool :=
  exclusiveGroups.any fun group => dest &&& group != 0 && source &&& group != 0

/-- Add modifiers to a word, unless they are redundant or contradict it.  A first
revert or reflect comes with whatever else the source holds; a later one is
composed and brings nothing else. -/
def merge? (dest source : UInt32) : Option UInt32 :=
  if source &&& revertMask ≠ 0 then
    if dest &&& revertMask = 0 then some (dest ||| source)
    else
      (compose? (dest &&& revertMask) (source &&& revertMask)).map fun composed =>
        dest &&& ~~~revertMask ||| composed
  else if dest &&& source ≠ 0 ∨ conflicts dest source then none
  else some (dest ||| source)

/-- To merge no flags changes none. -/
@[simp] theorem merge?_zero_right (dest : UInt32) : merge? dest 0 = some dest := by
  simp [merge?, conflicts]

end Heritable
end SquareDance
