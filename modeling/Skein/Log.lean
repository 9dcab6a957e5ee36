/-!
# Log entries

What the library reports while it works: a level, the part that reports, a
message, and named fields.  A field is a count or a text; how an entry is written
out is left to whoever prints it.
-/

namespace Skein

namespace Log

inductive Level
  | debug
  | info
  | warn
deriving DecidableEq

inductive Origin
  | policy
  | inline
  | workItem
  | demo
deriving DecidableEq

inductive Value
  | count (n : Nat)
  | text (s : String)
deriving DecidableEq

def Value.render : Value → String
  | .count n => toString n
  | .text s => s

structure Entry where
  level : Level
  origin : Origin
  message : String
  fields : List (String × Value) := []
deriving DecidableEq

def Level.name : Level → String
  | .debug => "DEBUG"
  | .info => "INFO"
  | .warn => "WARN"

end Log

end Skein
