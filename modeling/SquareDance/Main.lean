/-
# The command line

Reads files, shows lines and writes call books; what is in them is decided elsewhere.
The command fails with 1 if a file cannot be read, compiled, loaded or written, and
with 2 if it is not understood.
-/

import SquareDance.CallBook.Load
import SquareDance.CallText.Compile
import SquareDance.Command

namespace SquareDance
namespace Command

/-- Tell what went wrong while something was done. -/
def fail (doing cause : String) : IO UInt32 := do
  IO.eprint ("Error: " ++ doing ++ "\n\nCaused by:\n    " ++ cause ++ "\n")
  return 1

/-- Do something that can fail, and go on with what it gives. -/
def attempt {α : Type} (doing : String) (act : IO α) (next : α → IO UInt32) : IO UInt32 := do
  match ← act.toBaseIO with
  | .error e => fail doing (toString e)
  | .ok a => next a

/-- Load a call book from a file, and show the lines for it. -/
def showBook (file : String) (lines : CallBook → List String) : IO UInt32 :=
  attempt ("reading " ++ file) (IO.FS.readBinFile file) fun bytes => do
    match CallBook.load bytes.toList with
    | .error e => fail ("loading " ++ file) e.message
    | .ok book =>
      (lines book).forM IO.println
      return 0

/-- A seed that cannot be foreseen. -/
def freshSeed : IO Nat := do
  return (← IO.getRandomBytes 8).toList.foldl (fun n byte => 256 * n + byte.toNat) 0

/-- Do what a command asks for. -/
def run : Command → IO UInt32
  | .compile text book =>
    attempt ("reading " ++ text) (IO.FS.readFile text) fun source => do
      match CallText.compile source with
      | .error report =>
        IO.eprint report.render
        return 1
      | .ok compiled =>
        let bytes := ByteArray.mk compiled.bytes.toArray
        attempt ("writing " ++ book) (IO.FS.writeBinFile book bytes) fun _ => pure 0
  | .dump book => showBook book CallBook.listing
  | .pick book goal level count seed => do
    let seed ← seed.elim freshSeed pure
    showBook book (Search.sample · goal level count seed)

end Command
end SquareDance

/-- Do what the command line asks for. -/
def main (words : List String) : IO UInt32 := do
  match SquareDance.Command.ofArguments words with
  | .ok command => command.run
  | .error e =>
    IO.eprint ("error: " ++ e.message ++ "\n\n" ++ SquareDance.Command.usage)
    return 2
