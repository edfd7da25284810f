/-
# Modifiers

A reference to a call comes with a list of modifiers in brackets.  A modifier sets
bits, inserts a number, hands down heritable modifiers that the call was given, or
adds heritable modifiers of its own.  What is handed down must be a flag of the
call, and what is added must not be one, except for reverse and left, which move
around.  `SubCallModifiers.add` is the rule.

The keys of an alternate definition are heritable modifiers as well.
-/

import SquareDance.CallText.Parser

namespace SquareDance
namespace CallText

/-- A modifier. -/
inductive Modifier where
  /-- Set bits. -/
  | plain (bits : UInt32)
  /-- Insert a number; `fractal` says that it is a fraction. -/
  | insertion (fractal : Bool) (n : UInt32)
  /-- Hand down heritable modifiers. -/
  | inherits (bits : UInt32)
  /-- Add heritable modifiers. -/
  | forces (bits : UInt32)
  deriving DecidableEq, Inhabited

/-- A word for a modifier. -/
inductive ModifierWord where
  | complete (m : Modifier)
  /-- A number follows. -/
  | insertion (fractal : Bool)
  deriving DecidableEq, Inhabited

/-- The modifiers of a sub-call. -/
structure SubCallModifiers where
  plain : UInt32 := 0
  heritable : UInt32 := 0
  deriving DecidableEq, Inhabited

namespace SubCallModifiers

/-- The bits that hold which number is inserted. -/
def insertionMask : UInt32 := 0x700000

/-- One step of the number that is inserted. -/
def insertionUnit : UInt32 := 0x100000

/-- The number is inserted by `insert_fractal`. -/
def fractalInsertion : UInt32 := 0x1000000

/-- One step of the shift of numbers. -/
def shiftUnit : UInt32 := 0x40000

/-- The bits for `allow_plain_mod`. -/
def allowPlain : UInt32 := 0x300

/-- The bits for `or_secondary_call`. -/
def orSecondary : UInt32 := 0x500

/-- The bits for `mandatory_secondary_call`. -/
def mandatorySecondary : UInt32 := 0x600

/-- The heritable modifiers that need no flag of the call. -/
def mobile : UInt32 := Heritable.reverse ||| Heritable.left

/-- Only one number can be inserted. -/
def insertable (m : SubCallModifiers) : Except String Unit :=
  if m.plain &&& insertionMask ≠ 0 then .error "Only one number insertion is allowed" else .ok ()

/-- Add a modifier to those of a sub-call, in a call with the given heritable flags. -/
def add (flags : UInt32) (m : SubCallModifiers) : Modifier → Except String SubCallModifiers
  | .plain bits => .ok { m with plain := m.plain ||| bits }
  | .insertion fractal n => do
    m.insertable
    if n < 1 ∨ 8 ≤ n then throw "bad number"
    let mark := if fractal then fractalInsertion else 0
    return { m with plain := m.plain ||| n * insertionUnit ||| mark }
  | .inherits bits =>
    if bits &&& ~~~(flags ||| mobile) ≠ 0 then
      .error "Can't use an \"inherit\" flag unless corresponding top level flag is on"
    else .ok { m with heritable := m.heritable ||| bits }
  | .forces bits =>
    if bits &&& flags &&& ~~~mobile ≠ 0 then
      .error "Can't use a \"force\" flag unless corresponding top level flag is off"
    else
      match Heritable.merge? m.heritable bits with
      | some heritable => .ok { m with heritable }
      | none => .error "Redundant \"force\" flags"

end SubCallModifiers

namespace ModifierWord

open SubCallModifiers

/-- The modifiers with names of their own: groups and codes. -/
def ofSpecialWord? : String → Option ModifierWord
  | "inherit_nxn" => some (.complete (.inherits Heritable.nxnMask))
  | "inherit_mxn" => some (.complete (.inherits Heritable.mxnMask))
  | "inherit_bigmatrix" =>
    some (.complete (.inherits (Heritable.matrix12 ||| Heritable.matrix16)))
  | "inherit_revert" => some (.complete (.inherits Heritable.revertMask))
  | "inherit_yoyo" => some (.complete (.inherits Heritable.yoyo))
  | "inherit_gensting" => some (.complete (.inherits Heritable.generous))
  | "allow_plain_mod" => some (.complete (.plain allowPlain))
  | "or_secondary_call" => some (.complete (.plain orSecondary))
  | "mandatory_secondary_call" => some (.complete (.plain mandatorySecondary))
  | "shift_three_numbers" => some (.complete (.plain (3 * shiftUnit)))
  | "insert_number" => some (.insertion false)
  | "insert_fractal" => some (.insertion true)
  | _ => none

/-- What a word stands for.  The parts of a sequence have more modifiers than other
sub-calls. -/
def ofWord? (inSequence : Bool) (word : String) : Option ModifierWord :=
  (Words.subCallModifiers.index? word).map (fun i => complete (.plain (Words.bit i)))
    <|> (if inSequence then
          (Words.partModifiers.index? word).map fun i => complete (.plain (Words.bit i))
        else none)
    <|> ofSpecialWord? word
    <|> (Words.inheritModifiers.index? word).map (fun i => complete (.inherits (Words.bit i)))
    <|> (Words.forceBits? word).map fun bits => complete (.forces bits)

end ModifierWord

namespace Parser

open Consumer

/-- Complete a modifier: a number to insert follows its word. -/
def modifier (m : SubCallModifiers) : ModifierWord → Parser Modifier
  | .complete modifier => return modifier
  | .insertion fractal => do
    accepted m.insertable
    let n ← number "Need a number here"
    return .insertion fractal n

/-- A modifier takes more than its word only if a number is inserted. -/
theorem keeps_modifier (m : SubCallModifiers) (w : ModifierWord) : (modifier m w).Keeps := by
  cases w with
  | complete => exact .pure _
  | insertion =>
    exact (keeps_accepted _).bind fun _ => (takes_number _).keeps.bind fun _ => .pure _

/-- Add a modifier to those before it, or stop at the closing bracket. -/
def modifierStep (inSequence : Bool) (flags : UInt32) (m : SubCallModifiers) :
    Parser (SubCallModifiers ⊕ SubCallModifiers) := do
  if ← isAt .rightBracket then return .inr m
  else
    let word ← symbolHere "Improper defmod key"
    let word ← orFail (ModifierWord.ofWord? inSequence word) (.unknown "defmod key")
    let modifier ← modifier m word
    let m ← accepted (m.add flags modifier)
    advance
    return .inl m

/-- Every modifier is left behind. -/
theorem turns_modifierStep (inSequence : Bool) (flags : UInt32) (m : SubCallModifiers) :
    (modifierStep inSequence flags m).Turns :=
  (keeps_isAt _).bind_turns fun _ => by
    split
    · exact .done _
    · exact ((keeps_symbolHere _).bind_takes fun _ => (keeps_orFail _ _).bind_takes fun _ =>
        (keeps_modifier _ _).bind_takes fun _ => (keeps_accepted _).bind_takes fun _ =>
          takes_advance.bind fun _ => .pure _).turns

/-- The closing bracket stays where it is. -/
theorem keeps_modifierStep (inSequence : Bool) (flags : UInt32) (m : SubCallModifiers) :
    (modifierStep inSequence flags m).Keeps :=
  (keeps_isAt _).bind fun _ => by
    split
    · exact .pure _
    · exact (keeps_symbolHere _).bind fun _ => (keeps_orFail _ _).bind fun _ =>
        (keeps_modifier _ _).bind fun _ => (keeps_accepted _).bind fun _ =>
          takes_advance.keeps.bind fun _ => .pure _

/-- The modifiers of a sub-call, up to the closing bracket. -/
def modifiers (inSequence : Bool) (flags : UInt32) : Parser SubCallModifiers := do
  advance
  if !(← isAt .leftBracket) then malformed "Missing left bracket in defmod list"
  else
    advance
    loop (modifierStep inSequence flags) (turns_modifierStep inSequence flags) {}

/-- The parser goes on to the opening bracket. -/
theorem takes_modifiers (inSequence : Bool) (flags : UInt32) :
    (modifiers inSequence flags).Takes :=
  takes_advance.bind fun _ => (keeps_isAt _).bind fun _ => by
    split
    · exact keeps_fail _
    · exact takes_advance.keeps.bind fun _ => keeps_loop _ (keeps_modifierStep _ _) {}

/-- A reference to a call with its modifiers, up to the closing bracket. -/
def subCall (message : String) (inSequence : Bool) (flags : CallFlags) : Parser SubCall := do
  let word ← symbol message
  let tag ← referToTag word
  let m ← modifiers inSequence flags.heritable
  return { tag, modifiers1 := m.plain, modifiersh := m.heritable }

/-- The parser goes on to the name of a tag. -/
theorem takes_subCall (message : String) (inSequence : Bool) (flags : CallFlags) :
    (subCall message inSequence flags).Takes :=
  (takes_symbol _).bind fun _ => (keeps_referToTag _).bind fun _ =>
    (takes_modifiers _ _).keeps.bind fun _ => .pure _

/-- Add a key to those before it, or stop at the closing bracket. -/
def alternateKeyStep (keys : UInt32) : Parser (UInt32 ⊕ UInt32) := do
  if ← isAt .rightBracket then return .inr keys
  else
    let word ← symbolHere "Improper alternate_definition key"
    let bits ← orFail (Words.alternateKeyBits? word) (.unknown "alternate_definition key")
    let keys ← orFail (Heritable.merge? keys bits)
      (.malformed "Can't specify this combination of flags")
    advance
    return .inl keys

/-- Every key is left behind. -/
theorem turns_alternateKeyStep (keys : UInt32) : (alternateKeyStep keys).Turns :=
  (keeps_isAt _).bind_turns fun _ => by
    split
    · exact .done _
    · exact ((keeps_symbolHere _).bind_takes fun _ => (keeps_orFail _ _).bind_takes fun _ =>
        (keeps_orFail _ _).bind_takes fun _ => takes_advance.bind fun _ => .pure _).turns

/-- The bracket that closes the keys stays where it is. -/
theorem keeps_alternateKeyStep (keys : UInt32) : (alternateKeyStep keys).Keeps :=
  (keeps_isAt _).bind fun _ => by
    split
    · exact .pure _
    · exact (keeps_symbolHere _).bind fun _ => (keeps_orFail _ _).bind fun _ =>
        (keeps_orFail _ _).bind fun _ => takes_advance.keeps.bind fun _ => .pure _

/-- The head of a group of alternative definitions, up to its level. -/
def alternateHeader : Parser AlternateHeader := do
  advance
  if !(← isAt .leftBracket) then malformed "Missing left bracket in alternate_definition list"
  else
    advance
    let keys ← loop alternateKeyStep turns_alternateKeyStep 0
    let word ← symbol "Improper alternate_definition level"
    let level ← orFail (Level.ofName? word) (.unknown "alternate_definition level")
    return { level, keys }

/-- The parser goes on to the bracket that opens the keys. -/
theorem takes_alternateHeader : alternateHeader.Takes :=
  takes_advance.bind fun _ => (keeps_isAt _).bind fun _ => by
    split
    · exact keeps_fail _
    · exact takes_advance.keeps.bind fun _ => (keeps_loop _ keeps_alternateKeyStep 0).bind fun _ =>
        (takes_symbol _).keeps.bind fun _ => (keeps_orFail _ _).bind fun _ => .pure _

end Parser
end CallText
end SquareDance
