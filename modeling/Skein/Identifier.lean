import Skein.Json.Decode
import Skein.Json.Write

/-!
# Identifiers

An identifier is a number below `2 ^ 128`.  It is written with 26 digits in base
32, most significant first, in an alphabet without the letters I, L, O and U, so
that the order of the texts is the order of the numbers.  Identifiers of fibers
and of work items are different types and start with different words.
-/

namespace Skein

inductive Bearer
  | fiber
  | item
deriving DecidableEq

def Bearer.word : Bearer → String
  | .fiber => "fiber-"
  | .item => "item-"

structure Identifier (bearer : Bearer) where
  number : Nat
  small : number < Nat.pow 2 128

namespace Identifier

def alphabet : List Char :=
  ['0', '1', '2', '3', '4', '5', '6', '7', '8', '9', 'A', 'B', 'C', 'D', 'E', 'F',
    'G', 'H', 'J', 'K', 'M', 'N', 'P', 'Q', 'R', 'S', 'T', 'V', 'W', 'X', 'Y', 'Z']

def digit (n : Nat) : Char :=
  alphabet.getD n '0'

/-- The value of a digit; small letters count as capitals. -/
def digitValue? (c : Char) : Option Nat :=
  alphabet.idxOf? c.toUpper

def lastDigits : Nat → Nat → List Char
  | 0, _ => []
  | count + 1, n => lastDigits count (n / 32) ++ [digit (n % 32)]

def digits (n : Nat) : List Char :=
  lastDigits 26 n

/-- The value of digits, most significant first, onto what was read before.  Only
the last 128 bits are kept. -/
def valueOf : Nat → List Char → Except Json.Fault Nat
  | n, [] => .ok n
  | n, c :: rest =>
    match digitValue? c with
    | some d => valueOf ((n * 32 + d) % Nat.pow 2 128) rest
    | none => .error .identifierCharacter

def ofText (text : String) : Except Json.Fault Nat :=
  if text.utf8ByteSize = 26 then valueOf 0 text.toList else .error .identifierLength

variable {bearer : Bearer}

def ofNat (bearer : Bearer) (n : Nat) : Identifier bearer :=
  { number := n % Nat.pow 2 128, small := Nat.mod_lt n (by decide) }

def text (i : Identifier bearer) : String :=
  bearer.word ++ String.ofList (digits i.number)

def short (i : Identifier bearer) : String :=
  bearer.word ++ String.ofList ((digits i.number).drop 20)

def write (i : Identifier bearer) : String :=
  String.ofList (Json.writeObject [("ulid", Json.writeText (String.ofList (digits i.number)))])

def record : Json.Record (Option Nat) where
  wanted := "struct Id"
  members := [Json.Member.of "ulid" (fun s => do
    let (text, rest) ← Json.Decoder.text "a string" s
    let n ← (ofText text).mapError (·.before rest)
    .ok (n, rest)) (fun n _ => some n)]
  start := none
  complete
    | some _ => .ok ()
    | none => .error (.missingMember "ulid")
  enough taken := .error (.wrongLength taken "struct Id with 1 element")

def parse (bearer : Bearer) (text : String) : Except Json.Refusal (Identifier bearer) := do
  let n ← Json.parse record.decoder text
  .ok (ofNat bearer (n.getD 0))

def compare (i j : Identifier bearer) : Ordering :=
  Ord.compare i.number j.number

def sort (is : List (Identifier bearer)) : List (Identifier bearer) :=
  is.mergeSort fun i j => i.compare j != .gt

end Identifier

end Skein
