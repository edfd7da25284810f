/-
# Commands

What can be asked for from the command line, and the lines that are shown for it:

    compile [TEXT] [--output BOOK]
    dump BOOK
    pick BOOK [--goal GOAL] [--level LEVEL] [--count COUNT] [--seed SEED]

`compile` turns a text of call definitions into a call book, `dump` lists the calls of
a book, and `pick` begins a search and shows the calls that it picks.  An option and
its value are two words, or one with `=` between them.
-/

import SquareDance.Search.Calls

namespace SquareDance

/-- A command. -/
inductive Command where
  | compile (text book : String)
  | dump (book : String)
  | pick (book : String) (goal : Goal) (level : Level) (count : Nat) (seed : Option Nat)
  deriving DecidableEq

namespace Command

/-- An option that has a value. -/
inductive Setting where
  | output
  | goal
  | level
  | count
  | seed
  deriving DecidableEq

namespace Setting

/-- The name of an option. -/
def name : Setting → String
  | output => "--output"
  | goal => "--goal"
  | level => "--level"
  | count => "--count"
  | seed => "--seed"

/-- The option that a word stands for. -/
def ofWord? (word : String) : Option Setting :=
  if word = "-o" then some output
  else [output, goal, level, count, seed].find? (·.name == word)

end Setting

/-- What is wrong with the words of a command. -/
inductive UsageError where
  | noCommand
  | unknownCommand (word : String)
  | unexpected (word : String)
  | noValue (setting : Setting)
  | badValue (setting : Setting) (value : String)
  | noBook
  deriving DecidableEq

/-- How commands are written. -/
def usage : String :=
  "Usage: compile [TEXT] [--output BOOK]\n"
    ++ "       dump BOOK\n"
    ++ "       pick BOOK [--goal GOAL] [--level LEVEL] [--count COUNT] [--seed SEED]\n"

/-- What is wrong, as text. -/
def UsageError.message : UsageError → String
  | noCommand => "a command is required"
  | unknownCommand word => "unrecognized subcommand '" ++ word ++ "'"
  | unexpected word => "unexpected argument '" ++ word ++ "' found"
  | noValue setting => "a value is required for '" ++ setting.name ++ "' but none was supplied"
  | badValue setting value => "invalid value '" ++ value ++ "' for '" ++ setting.name ++ "'"
  | noBook => "the following required arguments were not provided: BOOK"

/-- The words of a command, sorted. -/
structure Words where
  files : List String := []
  settings : List (Setting × String) := []

namespace Words

/-- Add a file. -/
def addFile (w : Words) (file : String) : Words := { w with files := w.files ++ [file] }

/-- Add an option with its value. -/
def addSetting (w : Words) (setting : Setting) (value : String) : Words :=
  { w with settings := w.settings ++ [(setting, value)] }

/-- Whether more is logged is not told by what is shown. -/
def isVerbose (word : String) : Bool := word == "-v" || word == "--verbose"

/-- The parts of a word before and after the first `=`. -/
def split (word : String) : String × Option String :=
  let name := word.toList.takeWhile (· != '=')
  match word.toList.drop name.length with
  | [] => (word, none)
  | _ :: value => (String.ofList name, some (String.ofList value))

/-- Sort words.  After the word `--` all are files. -/
def sort (w : Words) : List String → Except UsageError Words
  | [] => .ok w
  | word :: rest =>
    if word = "--" then .ok { w with files := w.files ++ rest }
    else if isVerbose word then w.sort rest
    else if word = "-" ∨ ¬ word.startsWith "-" then (w.addFile word).sort rest
    else
      match Setting.ofWord? (split word).1, (split word).2 with
      | none, _ => .error (.unexpected word)
      | some setting, some value => (w.addSetting setting value).sort rest
      | some setting, none =>
        match rest with
        | [] => .error (.noValue setting)
        | value :: rest => (w.addSetting setting value).sort rest

/-- The value of an option, or what it is if it is not given. -/
def value {α : Type} (w : Words) (setting : Setting) (default : α) (read? : String → Option α) :
    Except UsageError α :=
  match w.settings.lookup setting with
  | none => .ok default
  | some value =>
    match read? value with
    | some a => .ok a
    | none => .error (.badValue setting value)

/-- Nothing is said but a number of files and certain options. -/
def check (w : Words) (maxFiles : Nat) (allowed : List Setting) : Except UsageError Unit :=
  match w.settings.find? (! allowed.contains ·.1), w.files[maxFiles]? with
  | some (setting, _), _ => .error (.unexpected setting.name)
  | none, some file => .error (.unexpected file)
  | none, none => .ok ()

/-- The file of a command that needs one. -/
def book (w : Words) : Except UsageError String :=
  match w.files with
  | [] => .error .noBook
  | file :: _ => .ok file

end Words

/-- A number of decimal digits, less than `2 ^ 64`. -/
def number? (value : String) : Option Nat :=
  if value.all Char.isDigit then value.toNat?.filter (· < 18446744073709551616) else none

/-- The command that the words after its name make up. -/
def ofWords (name : String) (w : Words) : Except UsageError Command :=
  match name with
  | "compile" => do
    w.check 1 [.output]
    let book ← w.value .output "sd_calls.dat" some
    return compile (w.files.headD "sd_calls.txt") book
  | "dump" => do
    w.check 1 []
    return dump (← w.book)
  | "pick" => do
    w.check 1 [.goal, .level, .count, .seed]
    let goal ← w.value .goal .randomCall Goal.ofName?
    let level ← w.value .level .mainstream Level.ofName?
    let count ← w.value .count 10 number?
    let seed ← w.value .seed none fun value => (number? value).map some
    return pick (← w.book) goal level count seed
  | _ => .error (.unknownCommand name)

/-- The command that words make up. -/
def ofArguments (words : List String) : Except UsageError Command :=
  match words.dropWhile Words.isVerbose with
  | [] => .error .noCommand
  | name :: rest => do ofWords name (← Words.sort {} rest)

end Command

/-- A text filled up with blanks on its right. -/
def padded (width : Nat) (s : String) : String :=
  s ++ String.ofList (List.replicate (width - s.length) ' ')

/-- The lines that tell what a call book holds. -/
def CallBook.listing (b : CallBook) : List String :=
  ("version \"" ++ b.version ++ "\"")
    :: (toString b.headerCount ++ " calls, " ++ toString b.tagCount.toNat ++ " tags")
    :: b.calls.map fun c =>
      padded 12 c.level.name ++ " " ++ padded 16 c.body.schema.name ++ " " ++ c.name

namespace Search

/-- The draws that a seed stands for. -/
def drawsOfSeed : StdGen → Nat → List UInt32
  | _, 0 => []
  | g, n + 1 => UInt32.ofNat (stdNext g).1 :: drawsOfSeed (stdNext g).2 n

/-- How many draws are enough for picking one call. -/
def drawsPerPick : Nat := 3

/-- Pick one call, and tell by a line what was picked. -/
def showPick (s : Search) : String × Search :=
  let (concept, s) := { s with hash := 0 }.pickConcept false
  let (call, s') := s.pickCall
  let picked := match call with
    | .error e => "(" ++ e.message ++ ")"
    | .ok index =>
      let name := (s'.catalog.calls[index]?.map (·.name)).getD "?"
      match concept with
      | some c => "concept " ++ toString c.toNat ++ " " ++ name
      | none => name
  (s.stage.label ++ ": " ++ picked, s')

/-- Pick a number of calls. -/
def showPicks (s : Search) : Nat → List String
  | 0 => []
  | n + 1 =>
    let (line, s) := s.showPick
    line :: s.showPicks n

/-- Search the calls of a book, and tell what was picked. -/
def sample (b : CallBook) (goal : Goal) (level : Level) (count seed : Nat) : List String :=
  let search : Search :=
    { catalog := .ofBook b
      options := { callingLevel := level }
      draws := drawsOfSeed (mkStdGen seed) (count * drawsPerPick) }
  (search.start goal).showPicks count

end Search
end SquareDance
