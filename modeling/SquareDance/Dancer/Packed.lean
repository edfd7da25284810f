/-
# Dancers packed into three words

| word | bits | holds |
| --- | --- | --- |
| `id1` | `0x800` | set for every live person |
| | `0x400`, `0x200` | dancing phantom, virtual person |
| | `0x1C0` | the personal number |
| | `0x00B` | the direction: north 8, east 1, south 10, west 3 |
| | `0x06000000` | the roll: right 1, left 2, neutral 3 |
| | `0x08000000` | moved |
| | `0x30000000` | the slide: right 1, left 2 |
| `id2` | from the top bit down | one bit for each role, in order |
| `id3` | `0x3FF` | what follows from the identity, zero for nobody |

`pack` writes the words and `unpack` reads them.  Reading refuses a word that
writing could not have produced, and says what is wrong with it.
-/

import SquareDance.Dancer

namespace SquareDance

/-- The three words of a packed dancer. -/
structure PackedDancer where
  id1 : UInt32
  id2 : UInt32
  id3 : UInt32
  deriving DecidableEq, Inhabited

namespace PackedDancer

/-- Why three words do not describe a dancer. -/
inductive Error where
  | notAPerson (id1 : UInt32)
  | badDirection (id1 : UInt32)
  | unknownBits (id1 : UInt32)
  | inconsistentIdentity (number : UInt32) (id3 : UInt32)
  | unknownRoles (id2 : UInt32)
  deriving DecidableEq, Inhabited

/-- A word in lower-case hexadecimal. -/
def hex (w : UInt32) : String := "0x" ++ String.ofList (Nat.toDigits 16 w.toNat)

/-- What is wrong, as text. -/
def Error.message : Error → String
  | notAPerson id1 => "id1 " ++ hex id1 ++ " does not describe a live person"
  | badDirection id1 => "id1 " ++ hex id1 ++ " has an unknown direction encoding"
  | unknownBits id1 => "id1 " ++ hex id1 ++ " has unknown bits set"
  | inconsistentIdentity n id3 =>
    "identity bits id3 " ++ hex id3 ++ " disagree with personal id " ++ toString n.toNat
  | unknownRoles id2 => "id2 " ++ hex id2 ++ " has unknown role bits set"

/-- The bits of `id1` that have a meaning. -/
def knownBits : UInt32 := 0x3E000FCB

/-- The bit of a role in `id2`, counted down from the top. -/
def roleBit (r : Role) : UInt32 := 0x80000000 >>> UInt32.ofNat r.index

/-- The bits of `id2` that belong to a role. -/
def roleBits : UInt32 := 0xFFFFFFC0

/-- The roles of a set as `id2`. -/
def packRoles (s : RoleSet) : UInt32 :=
  s.toList.foldl (fun w r => w ||| roleBit r) 0

/-- The roles whose bits are set in `id2`. -/
def unpackRoles (id2 : UInt32) : RoleSet :=
  .ofList (Role.all.filter fun r => id2 &&& roleBit r != 0)

/-- The bits of `id3`: gender, head or side, corner, and the "not" bit of each
of the three quarters of the square that the dancer is not in. -/
def identityBits (p : Identity) : UInt32 :=
  let gender := if p.isBoy then 0x002 else 0x001
  let group := if p.isHead then 0x008 else 0x004
  let corner := if p.isHeadCorner then 0x020 else 0x010
  let own := match p.isHead, p.isBoy with
    | true, true => 0x040
    | true, false => 0x080
    | false, true => 0x100
    | false, false => 0x200
  gender ||| group ||| corner ||| (0x3C0 &&& ~~~own)

/-- The direction field of `id1`. -/
def directionBits : Direction → UInt32
  | .north => 0x8
  | .east => 0x1
  | .south => 0xA
  | .west => 0x3

/-- The direction that a direction field stands for. -/
def direction? (field : UInt32) : Option Direction :=
  if field = 0x8 then some .north
  else if field = 0x1 then some .east
  else if field = 0xA then some .south
  else if field = 0x3 then some .west
  else none

/-- A direction is read back from its bits. -/
@[simp] theorem direction?_directionBits (d : Direction) :
    direction? (directionBits d) = some d := by
  cases d <;> rfl

/-- The personal number field of `id1`, zero for nobody. -/
def numberBits : Option Identity → UInt32
  | none => 0
  | some p => UInt32.ofNat p.number <<< 6

/-- The roll field of `id1`. -/
def rollBits : Option Roll → UInt32
  | none => 0
  | some .right => 0x02000000
  | some .left => 0x04000000
  | some .neutral => 0x06000000

/-- The roll that a roll field stands for. -/
def roll (field : UInt32) : Option Roll :=
  if field = 0x02000000 then some .right
  else if field = 0x04000000 then some .left
  else if field = 0x06000000 then some .neutral
  else none

/-- A roll, or its absence, is read back from its bits. -/
@[simp] theorem roll_rollBits (r : Option Roll) : roll (rollBits r) = r := by
  rcases r with _ | r
  · rfl
  · cases r <;> rfl

/-- The slide field of `id1`. -/
def slideBits : Option Slide → UInt32
  | none => 0
  | some .right => 0x10000000
  | some .left => 0x20000000

/-- The slide that a slide field stands for; both ways at once is no slide. -/
def slide? (field : UInt32) : Option (Option Slide) :=
  if field = 0 then some none
  else if field = 0x10000000 then some (some .right)
  else if field = 0x20000000 then some (some .left)
  else none

/-- A slide, or its absence, is read back from its bits. -/
@[simp] theorem slide?_slideBits (s : Option Slide) : slide? (slideBits s) = some s := by
  rcases s with _ | s
  · rfl
  · cases s <;> rfl

/-- A word with one given bit set or clear. -/
def flag (bit : UInt32) (b : Bool) : UInt32 := if b then bit else 0

/-- The identity that a personal number and `id3` agree on.  A zero `id3` is
nobody, and nobody has the number zero. -/
def identity? (number id3 : UInt32) : Option (Option Identity) :=
  if id3 = 0 then
    if number = 0 then some none else none
  else
    match Identity.ofNumber? number.toNat with
    | some p => if identityBits p = id3 then some (some p) else none
    | none => none

end PackedDancer

namespace Dancer

open PackedDancer

/-- The three words of a dancer.  Role bits beyond the last role are dropped. -/
def pack (p : Dancer) : PackedDancer where
  id1 := 0x800 ||| directionBits p.direction ||| flag 0x400 p.activePhantom
    ||| flag 0x200 p.virtual
    ||| numberBits p.identity ||| rollBits p.roll ||| flag 0x08000000 p.moved ||| slideBits p.slide
  id2 := packRoles p.roles
  id3 := p.identity.elim 0 identityBits

/-- The dancer that three words describe.  The faults are looked for in a fixed
order: no person, unknown bits, direction, identity, roles, slide. -/
def unpack (w : PackedDancer) : Except PackedDancer.Error Dancer := do
  if w.id1 &&& 0x800 = 0 then throw (.notAPerson w.id1)
  if w.id1 &&& ~~~knownBits ≠ 0 then throw (.unknownBits w.id1)
  let some direction := direction? (w.id1 &&& 0xB) | throw (.badDirection w.id1)
  let number := (w.id1 &&& 0x1C0) >>> 6
  let some identity := identity? number w.id3 | throw (.inconsistentIdentity number w.id3)
  if w.id2 &&& ~~~roleBits ≠ 0 then throw (.unknownRoles w.id2)
  let some slide := slide? (w.id1 &&& 0x30000000) | throw (.unknownBits w.id1)
  return {
    identity, direction, slide
    virtual := w.id1 &&& 0x200 != 0
    activePhantom := w.id1 &&& 0x400 != 0
    roll := PackedDancer.roll (w.id1 &&& 0x06000000)
    moved := w.id1 &&& 0x08000000 != 0
    roles := unpackRoles w.id2 }

end Dancer
end SquareDance
