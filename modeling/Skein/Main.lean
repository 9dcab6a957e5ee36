import Skein.Demo.Run
import Skein.Identifier

/-!
# The command line

Runs the demo with the configuration in the file that the first argument names,
or with the demo's own.
-/

def refuse (error : String) : IO UInt32 := do
  IO.eprintln s!"Error: {error}"
  return 1

def runDemo (config : Skein.Demo.Config) : IO UInt32 := do
  let seed ← IO.rand 0 (Nat.pow 2 60)
  let number ← IO.rand 0 (Nat.pow 2 30)
  let fails (n : Nat) : Bool :=
    Float.ofNat (randNat (mkStdGen (seed + n)) 0 (Nat.pow 2 30 - 1)).1 <
      config.failureRate * Float.ofNat (Nat.pow 2 30)
  let thread := Skein.Demo.threadName config (.ofNat .fiber number)
  for text in Skein.Demo.print [Skein.Demo.workerEntry thread] do
    IO.println text
  for text in Skein.Demo.print (Skein.Demo.entries config fails thread (Nat.pow 2 40)) do
    IO.println text
  return 0

/-- Runs the demo; without an argument, with its own configuration. -/
def main (args : List String) : IO UInt32 := do
  match args with
  | [] => runDemo {}
  | path :: _ =>
    try
      match Skein.Demo.Config.load (← IO.FS.readFile path) with
      | .error e => refuse e.describe
      | .ok config => runDemo config
    catch _ => refuse Skein.Demo.missingFile
