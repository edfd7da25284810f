/-
# Dancers in shorthand

A dancer is written as the number of the couple and `B` or `G`, or two dashes for
nobody in particular, then the letter of the direction and marks: `1BN`, `--Sp`,
`3GEvr>`.  Roles are not written.

| mark | means |
| --- | --- |
| `v`, `p`, `m` | virtual, an active phantom, moved |
| `r`, `l`, `n` | may roll right or left, or not at all |
| `>`, `<` | slid right or left |
-/

import SquareDance.Dancer

namespace SquareDance
namespace Dancer

/-- The characters for who a dancer is. -/
def identityChars : Option Identity → List Char
  | none => ['-', '-']
  | some i => [Nat.digitChar i.coupleNumber, if i.isBoy then 'B' else 'G']

/-- The mark of a roll. -/
def rollChars : Option Roll → List Char
  | none => []
  | some .right => ['r']
  | some .left => ['l']
  | some .neutral => ['n']

/-- The mark of a slide. -/
def slideChars : Option Slide → List Char
  | none => []
  | some .right => ['>']
  | some .left => ['<']

/-- A dancer in shorthand. -/
def shorthand (p : Dancer) : String :=
  String.ofList (identityChars p.identity ++ [p.direction.letter]
    ++ (if p.virtual then ['v'] else []) ++ (if p.activePhantom then ['p'] else [])
    ++ (if p.moved then ['m'] else []) ++ rollChars p.roll ++ slideChars p.slide)

/-- Who two characters stand for. -/
def identityOfChars? (a b : Char) : Option (Option Identity) :=
  if a = '-' ∧ b = '-' then some none
  else if b = 'B' then (Identity.ofCouple? (a.toNat - '0'.toNat) .boy).map some
  else if b = 'G' then (Identity.ofCouple? (a.toNat - '0'.toNat) .girl).map some
  else none

/-- Add what a mark stands for. -/
def addMark? (p : Dancer) : Char → Option Dancer
  | 'v' => some { p with virtual := true }
  | 'p' => some { p with activePhantom := true }
  | 'm' => some { p with moved := true }
  | 'r' => some { p with roll := some .right }
  | 'l' => some { p with roll := some .left }
  | 'n' => some { p with roll := some .neutral }
  | '>' => some { p with slide := some .right }
  | '<' => some { p with slide := some .left }
  | _ => none

/-- The dancer that a text in shorthand stands for. -/
def ofShorthand? (s : String) : Option Dancer :=
  match s.toList with
  | a :: b :: d :: marks => do
    let identity ← identityOfChars? a b
    let direction ← Direction.ofLetter? d
    marks.foldlM addMark? { identity, direction }
  | _ => none

end Dancer
end SquareDance
