/-
# Dance program levels

Each call belongs to a level of the dance program.  Levels are ordered; a search
that calls at some level does not pick calls below that level's floor.
-/

namespace SquareDance

/-- A level of the dance program. -/
inductive Level where
  | mainstream
  | plus
  | a1
  | a2
  | c1
  | c2
  | c3a
  | c3
  | c3x
  | c4a
  | c4
  | c4x
  | dontShow
  deriving DecidableEq, Inhabited

namespace Level

/-- Every level, in order. -/
def all : List Level :=
  [mainstream, plus, a1, a2, c1, c2, c3a, c3, c3x, c4a, c4, c4x, dontShow]

/-- The position of a level in the order. -/
def index : Level → Nat
  | mainstream => 0
  | plus => 1
  | a1 => 2
  | a2 => 3
  | c1 => 4
  | c2 => 5
  | c3a => 6
  | c3 => 7
  | c3x => 8
  | c4a => 9
  | c4 => 10
  | c4x => 11
  | dontShow => 12

/-- There are 13 levels. -/
theorem index_lt (l : Level) : l.index < 13 := by
  cases l <;> decide

/-- The level at a position of the order. -/
def ofIndex? (i : Nat) : Option Level := all[i]?

/-- **A level is found at its index.** -/
@[simp] theorem ofIndex?_index (l : Level) : ofIndex? l.index = some l := by
  cases l <;> rfl

instance : LE Level := ⟨fun l m => l.index ≤ m.index⟩

instance : LT Level := ⟨fun l m => l.index < m.index⟩

instance (l m : Level) : Decidable (l ≤ m) := inferInstanceAs (Decidable (l.index ≤ m.index))

instance (l m : Level) : Decidable (l < m) := inferInstanceAs (Decidable (l.index < m.index))

/-- The written name of a level. -/
def name : Level → String
  | mainstream => "mainstream"
  | plus => "plus"
  | a1 => "a1"
  | a2 => "a2"
  | c1 => "c1"
  | c2 => "c2"
  | c3a => "c3a"
  | c3 => "c3"
  | c3x => "c3x"
  | c4a => "c4a"
  | c4 => "c4"
  | c4x => "c4x"
  | dontShow => "dontshow"

/-- The level with a given written name. -/
def ofName? (s : String) : Option Level :=
  all.find? (·.name == s)

/-- **A level is found by its name.** -/
@[simp] theorem ofName?_name (l : Level) : ofName? l.name = some l := by
  cases l <;> rfl

/-- The lowest level that a call may have to be picked when calling at this level. -/
def floor : Level → Level
  | mainstream => mainstream
  | plus => plus
  | a1 | a2 => a1
  | c1 => c1
  | c2 => c2
  | c3a | c3 | c3x => c3a
  | c4a | c4 | c4x => c3x
  | dontShow => dontShow

/-- A level is not below the one that its calls are held to. -/
theorem floor_le (l : Level) : l.floor ≤ l := by
  cases l <;> decide

end Level
end SquareDance
