import Skein.Json.Fault

/-!
# Where a text is at fault

A reader that meets a fault stops, and how much of the text it has not passed
yet says where.  Measured against the whole text that is a line, counted from
one, and a column: how many bytes of the line the reader has passed.  Whoever
learns that a text was refused is told both, the fault and the position.
-/

namespace Skein

namespace Json

def size (s : List Char) : Nat :=
  (s.map Char.utf8Size).foldl (· + ·) 0

/-- A fault, and how many bytes of the text its reader has not passed. -/
structure Stop where
  fault : Fault
  left : Nat
deriving DecidableEq

namespace Fault

/-- Stops a reader that has passed so many bytes of the rest of the text, or all
of it if it has no more. -/
def past (n : Nat) (rest : List Char) (fault : Fault) : Stop :=
  { fault := fault, left := size rest - n }

def before (rest : List Char) (fault : Fault) : Stop :=
  fault.past 0 rest

/-- Stops a reader that has passed the first byte of the rest of the text, if
there is one. -/
def on (rest : List Char) (fault : Fault) : Stop :=
  fault.past 1 rest

def atEnd (fault : Fault) : Stop :=
  fault.before []

end Fault

structure Position where
  line : Nat := 1
  column : Nat := 0
deriving DecidableEq

def Position.advance (p : Position) (n : Nat) : List Char → Position
  | [] => p
  | c :: rest =>
    if n < c.utf8Size then { p with column := p.column + n }
    else if c = '\n' then advance { line := p.line + 1, column := 0 } (n - c.utf8Size) rest
    else advance { p with column := p.column + c.utf8Size } (n - c.utf8Size) rest

structure Refusal where
  fault : Fault
  position : Position
deriving DecidableEq

def Refusal.text (r : Refusal) : String :=
  s!"{r.fault.message} at line {r.position.line} column {r.position.column}"

def Stop.refusal (stop : Stop) (text : List Char) : Refusal :=
  { fault := stop.fault, position := ({} : Position).advance (size text - stop.left) text }

end Json

end Skein
