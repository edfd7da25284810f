/-
# Destinations

A destination says where a person goes in a call: which way they turn, whether
they slide or roll, the spot they end on and the direction they then face.  The
spot is at most 24, or an even number up to 36.  An entry of a matrix gives an
offset and has a second coordinate.

A destination is written as text, `CAFL12W`, and packed into a halfword:

| bits | holds |
| --- | --- |
| `0x8000` | the turn is reversed |
| `0x7000` | the turn |
| `0x0800`, `0x0400` | slide F, slide G |
| `0x0180` | roll R, L, M |
| `0x007C` | one more than the spot, spots above 24 halved |
| `0x0003` | the direction |

No destination packs to zero, which stands for no legal action.
-/

import SquareDance.Direction

namespace SquareDance

/-- How a person turns on the way, before it is known whether it is reversed: a
word of the letters `A`, anticlockwise, and `C`, clockwise. -/
inductive TurnCode where
  | plain
  | a
  | ac
  | aac
  | aaac
  | aaaac
  | aa
  deriving DecidableEq, Inhabited

namespace TurnCode

/-- The letters of a turn that is not reversed. -/
def letters : TurnCode → List Char
  | plain => []
  | a => ['A']
  | ac => ['A', 'C']
  | aac => ['A', 'A', 'C']
  | aaac => ['A', 'A', 'A', 'C']
  | aaaac => ['A', 'A', 'A', 'A', 'C']
  | aa => ['A', 'A']

/-- The number of a turn. -/
def code : TurnCode → UInt16
  | plain => 0
  | a => 1
  | ac => 2
  | aac => 3
  | aaac => 4
  | aaaac => 5
  | aa => 6

/-- The turn with a given number. -/
def ofCode? (n : UInt16) : Option TurnCode :=
  if n = 0 then some plain
  else if n = 1 then some a
  else if n = 2 then some ac
  else if n = 3 then some aac
  else if n = 4 then some aaac
  else if n = 5 then some aaaac
  else if n = 6 then some aa
  else none

/-- A turn is read back from its code. -/
@[simp] theorem ofCode?_code (t : TurnCode) : ofCode? t.code = some t := by
  cases t <;> rfl

end TurnCode

/-- A turn, reversed or not. -/
structure Turn where
  code : TurnCode := .plain
  reverse : Bool := false
  deriving DecidableEq, Inhabited

namespace Turn

/-- A turn as four bits. -/
def bits (t : Turn) : UInt16 := t.code.code ||| if t.reverse then 8 else 0

/-- The turn that four bits stand for. -/
def ofBits? (b : UInt16) : Option Turn :=
  (TurnCode.ofCode? (b &&& 7)).map fun code => ⟨code, b &&& 8 != 0⟩

/-- **A turn is read back from its bits.** -/
@[simp] theorem ofBits?_bits (t : Turn) : ofBits? t.bits = some t := by
  obtain ⟨c, r⟩ := t
  cases c <;> cases r <;> rfl

/-- Anticlockwise for clockwise. -/
def swapLetter (c : Char) : Char := if c = 'A' then 'C' else 'A'

/-- The letters of a turn; the reverse of no turn is written `Z`. -/
def letters (t : Turn) : List Char :=
  if t.reverse then
    if t.code = .plain then ['Z'] else t.code.letters.map swapLetter
  else t.code.letters

end Turn

/-- The mark of a slide. -/
inductive SlideMark where
  | f
  | g
  deriving DecidableEq, Inhabited

/-- The letter for a slide in a text. -/
def SlideMark.letter : SlideMark → Char
  | f => 'F'
  | g => 'G'

/-- The mark with a given letter. -/
def SlideMark.ofLetter? : Char → Option SlideMark
  | 'F' => some f
  | 'G' => some g
  | _ => none

/-- The mark of a roll. -/
inductive RollMark where
  | r
  | l
  | m
  deriving DecidableEq, Inhabited

/-- The letter for a roll in a text. -/
def RollMark.letter : RollMark → Char
  | r => 'R'
  | l => 'L'
  | m => 'M'

/-- The mark with a given letter. -/
def RollMark.ofLetter? : Char → Option RollMark
  | 'R' => some r
  | 'L' => some l
  | 'M' => some m
  | _ => none

/-- Where one starting spot goes. -/
structure Destination where
  turn : Turn := {}
  slide : Option SlideMark := none
  roll : Option RollMark := none
  position : UInt8
  direction : Direction
  /-- The second coordinate of an entry of a matrix. -/
  y : Option UInt16 := none
  deriving DecidableEq, Inhabited

namespace Destination

/-- A spot that can be packed. -/
def isValidPosition (n : Nat) : Bool := n ≤ 24 || (n ≤ 36 && n % 2 == 0)

/-- The spot as packed, one more than itself, with those above 24 halved. -/
def positionField (p : UInt8) : UInt16 :=
  (if p > 24 then (p >>> 1).toUInt16 + 12 else p.toUInt16) + 1

/-- The spot of a packed field; zero is none. -/
def position? (field : UInt16) : Option UInt8 :=
  if field = 0 then none
  else if field - 1 > 24 then some ((field - 1 - 12) * 2).toUInt8
  else some (field - 1).toUInt8

/-- The slide as packed. -/
def slideField : Option SlideMark → UInt16
  | none => 0
  | some .f => 16
  | some .g => 8

/-- The slide of a packed field; both at once is no slide. -/
def slide? (field : UInt16) : Option (Option SlideMark) :=
  if field = 0 then some none
  else if field = 16 then some (some .f)
  else if field = 8 then some (some .g)
  else none

/-- The roll as packed. -/
def rollField : Option RollMark → UInt16
  | none => 0
  | some .r => 1
  | some .l => 2
  | some .m => 3

/-- The roll of a packed field. -/
def rollOf (field : UInt16) : Option RollMark :=
  if field = 0 then none
  else if field = 1 then some .r
  else if field = 2 then some .l
  else some .m

/-- The halfword of a destination. -/
def word (d : Destination) : UInt16 :=
  d.turn.bits <<< 12 ||| (slideField d.slide ||| rollField d.roll) <<< 7
    ||| positionField d.position <<< 2 ||| d.direction.code.toUInt16

/-- The destination of a halfword, with a second coordinate from elsewhere. -/
def ofWord? (w : UInt16) (y : Option UInt16) : Option Destination := do
  let position ← position? (w >>> 2 &&& 0x1F)
  let slide ← slide? (w >>> 7 &&& 0x18)
  let turn ← Turn.ofBits? (w >>> 12)
  return {
    turn, slide, position, y
    roll := rollOf (w >>> 7 &&& 3)
    direction := .ofBits w.toUInt8 }

/-- The letters of a destination before its spot. -/
def marks (d : Destination) : List Char :=
  d.turn.letters ++ d.slide.toList.map SlideMark.letter ++ d.roll.toList.map RollMark.letter

/-- The text of a destination, without a second coordinate. -/
def spelling (d : Destination) : String :=
  String.ofList (d.marks ++ Nat.toDigits 10 d.position.toNat ++ [d.direction.letter])

/-- The text of a destination. -/
def render (d : Destination) : String :=
  match d.y with
  | none => d.spelling
  | some y => d.spelling ++ " " ++ toString y.toNat

end Destination

/-- An entry of a definition: a destination, or no legal action. -/
inductive Entry where
  | empty
  | dest (d : Destination)
  deriving DecidableEq, Inhabited

namespace Entry

/-- The halfword of an entry. -/
def word : Entry → UInt16
  | empty => 0
  | dest d => d.word

/-- The text of an entry. -/
def render : Entry → String
  | empty => "0"
  | dest d => d.render

end Entry
end SquareDance
