/-
# The odometer of a scan

A scan goes through the choices for the blanks of a call like an odometer: people
turn fastest, then the direction, the numbers, the tagging call and the circulating
call.  A wheel moves on when all wheels inside it are back at zero.

The numbers are one wheel, with two bits for each number.  If the numbers have to be
odd, the wheel rests only where every number is: `settle` carries until none of the
low bits is set.
-/

namespace SquareDance

/-- The positions of the wheels. -/
structure Odometer where
  designator : Nat := 0
  direction : Nat := 0
  number : UInt32 := 0
  tagger : Nat := 0
  circulator : Nat := 0
  deriving DecidableEq, Inhabited

namespace Odometer

/-- The wheels inside the direction are at zero. -/
def restsInsideDirection (o : Odometer) : Bool := o.designator == 0

/-- The wheels inside the numbers are at zero. -/
def restsInsideNumber (o : Odometer) : Bool := o.restsInsideDirection && o.direction == 0

/-- The wheels inside the tagging call are at zero. -/
def restsInsideTagger (o : Odometer) : Bool := o.restsInsideNumber && o.number == 0

/-- The wheels inside the circulating call are at zero. -/
def restsInsideCirculator (o : Odometer) : Bool := o.restsInsideTagger && o.tagger == 0

/-- All wheels are at zero. -/
def rests (o : Odometer) : Bool := o.restsInsideCirculator && o.circulator == 0

/-- The position of a wheel with some positions after it is moved on. -/
def turn (position count : Nat) : Nat := if count ≤ position + 1 then 0 else position + 1

/-- A wheel stays among its positions. -/
theorem turn_lt {position count : Nat} (h : 0 < count) : turn position count < count := by
  unfold turn
  split <;> omega

end Odometer

/-! ### Odd numbers -/

namespace OddNumbers

/-- The low bits of the two bits of each number. -/
def lowBits : Nat := 0x55555555

/-- The value of the lowest bit that is set. -/
def lowestBit (n : Nat) : Nat :=
  if n = 0 then 0
  else if n % 2 = 1 then 1
  else 2 * lowestBit (n / 2)
termination_by n
decreasing_by omega

/-- A number that is not zero has a lowest bit. -/
theorem lowestBit_pos {n : Nat} (h : n ≠ 0) : 0 < lowestBit n := by
  fun_induction lowestBit n with
  | case1 => exact absurd rfl h
  | case2 => exact Nat.one_pos
  | case3 n _ hodd ih =>
    have := ih (by omega)
    omega

/-- The lowest bit is no greater than a number with which a bit is shared. -/
theorem lowestBit_le_of_testBit {n m i : Nat} (hn : n.testBit i = true)
    (hm : m.testBit i = true) : lowestBit n ≤ m := by
  fun_induction lowestBit n generalizing m i with
  | case1 => exact Nat.zero_le _
  | case2 =>
    have : m ≠ 0 := by
      rintro rfl
      simp at hm
    omega
  | case3 n _ hodd ih =>
    cases i with
    | zero => simp [hodd] at hn
    | succ i =>
      rw [Nat.testBit_succ] at hn hm
      have := ih hn hm
      omega

/-- **Adding the lowest bit carries it up.** -/
theorem lowestBit_lt_add {n : Nat} (h : n ≠ 0) : lowestBit n < lowestBit (n + lowestBit n) := by
  fun_induction lowestBit n with
  | case1 => exact absurd rfl h
  | case2 n hn hodd =>
    rw [lowestBit]
    have := lowestBit_pos (n := (n + 1) / 2) (by omega)
    split
    · omega
    · split <;> omega
  | case3 n hn hodd ih =>
    have hpos := lowestBit_pos (n := n / 2) (by omega)
    have := ih (by omega)
    have hdiv : (n + 2 * lowestBit (n / 2)) / 2 = n / 2 + lowestBit (n / 2) := by omega
    rw [lowestBit.eq_def (n + 2 * lowestBit (n / 2)), hdiv]
    split
    · omega
    · split <;> omega

/-- A number with a low bit has its lowest bit among the low bits or below. -/
theorem lowestBit_le {n : Nat} (h : n &&& lowBits ≠ 0) : lowestBit n ≤ lowBits := by
  obtain ⟨i, hi⟩ := Nat.exists_testBit_of_ne_zero h
  rw [Nat.testBit_and, Bool.and_eq_true] at hi
  exact lowestBit_le_of_testBit hi.1 hi.2

/-- Carry the lowest bit up until none of the low bits is set. -/
def settle (n : Nat) : Nat :=
  if n &&& lowBits = 0 then n else settle (n + lowestBit n)
termination_by lowBits + 1 - lowestBit n
decreasing_by
  rename_i h
  have h₀ : n ≠ 0 := fun h₀ => h (by simp [h₀])
  have := lowestBit_lt_add h₀
  have := lowestBit_le h
  omega

/-- **Where a wheel settles all numbers are odd.** -/
theorem settle_and_lowBits (n : Nat) : settle n &&& lowBits = 0 := by
  fun_induction settle n with
  | case1 n h => exact h
  | case2 n _ ih => exact ih

/-- The position at or after a given one where all numbers are odd, or zero if there
is none. -/
def upward (position : UInt32) : UInt32 := UInt32.ofNat (settle position.toNat)

end OddNumbers
end SquareDance
