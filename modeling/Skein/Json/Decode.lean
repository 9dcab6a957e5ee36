import Skein.Json.Skip
import Skein.Text.Quoted

/-!
# Reading values of a known kind

A decoder reads one value off the front of a text.  Decoders for records read an
object, whose members may come in any order and may be missing, or a list of the
members' values in their own order.  Members that a record does not know are
passed over; a known one that comes twice is a fault.
-/

namespace Skein

namespace Json

/-- Reads a value off the front of a text, blanks before it allowed. -/
abbrev Decoder (α : Type) := List Char → Except Stop (α × List Char)

/-- Stops at a value of another kind than the one wanted.  The value is read
first when it is a simple one, and may be at fault itself; a list or an object
is not entered. -/
def misfit (wanted : String) : List Char → Stop
  | 'n' :: rest => ofWord (readWord ['u', 'l', 'l'] rest) .null
  | 't' :: rest => ofWord (readWord ['r', 'u', 'e'] rest) (.boolean true)
  | 'f' :: rest => ofWord (readWord ['a', 'l', 's', 'e'] rest) (.boolean false)
  | '"' :: rest =>
    match readString rest with
    | .error stop => stop
    | .ok (s, rest) => (Fault.wrongType (.text (Text.quote s)) wanted).before rest
  | '[' :: rest => (Fault.wrongType .sequence wanted).before ('[' :: rest)
  | '\x7b' :: rest => (Fault.wrongType .map wanted).before ('\x7b' :: rest)
  | [] => Fault.noValue.atEnd
  | c :: rest =>
    if c == '-' || c.isDigit then
      match readNumber (c :: rest) with
      | .error stop => stop
      | .ok (n, rest) => (Fault.wrongType n.found wanted).before rest
    else Fault.noValue.on (c :: rest)
where
  ofWord (r : Except Stop (List Char)) (found : Found) : Stop :=
    match r with
    | .error stop => stop
    | .ok rest => (Fault.wrongType found wanted).before rest

namespace Decoder

def boolean : Decoder Bool := fun s =>
  match skipBlank s with
  | [] => .error Fault.endInValue.atEnd
  | 't' :: rest => do .ok (true, ← readWord ['r', 'u', 'e'] rest)
  | 'f' :: rest => do .ok (false, ← readWord ['a', 'l', 's', 'e'] rest)
  | s => .error (misfit "a boolean" s)

def number (wanted : String) : Decoder Number := fun s =>
  match skipBlank s with
  | [] => .error Fault.endInValue.atEnd
  | c :: rest =>
    if c == '-' || c.isDigit then readNumber (c :: rest) else .error (misfit wanted (c :: rest))

/-- Reads a natural number below a limit.  An integer outside the range is a
wrong value, any other number one of the wrong kind. -/
def naturalBelow (limit : Nat) (wanted : String) : Decoder Nat := fun s => do
  let (n, rest) ← number wanted s
  match n with
  | .natural k =>
    if k < limit then .ok (k, rest) else .error ((Fault.wrongValue n.found wanted).before rest)
  | .negative _ => .error ((Fault.wrongValue n.found wanted).before rest)
  | .float _ => .error ((Fault.wrongType n.found wanted).before rest)

def float : Decoder Float := fun s => do
  let (n, rest) ← number "f64" s
  .ok (n.toFloat, rest)

def text (wanted : String) : Decoder String := fun s =>
  match skipBlank s with
  | [] => .error Fault.endInValue.atEnd
  | '"' :: rest => readString rest
  | s => .error (misfit wanted s)

def null (wanted : String) : Decoder Unit := fun s =>
  match skipBlank s with
  | [] => .error Fault.endInValue.atEnd
  | 'n' :: rest => do .ok ((), ← readWord ['u', 'l', 'l'] rest)
  | s => .error (misfit wanted s)

def optional {α : Type} (decoder : Decoder α) : Decoder (Option α) := fun s =>
  match skipBlank s with
  | 'n' :: rest => do .ok (none, ← readWord ['u', 'l', 'l'] rest)
  | s => do
    let (a, rest) ← decoder s
    .ok (some a, rest)

end Decoder

/-- Looks for the next element of a list: `true` and the text before it, or
`false` and the text before the closing bracket. -/
def nextElement (first : Bool) (s : List Char) : Except Stop (Bool × List Char) :=
  match skipBlank s with
  | [] => .error Fault.endInList.atEnd
  | c :: rest =>
    if c = ']' then .ok (false, c :: rest)
    else if first then .ok (true, c :: rest)
    else if c = ',' then
      match skipBlank rest with
      | [] => .error Fault.endInValue.atEnd
      | d :: rest =>
        if d = ']' then .error (Fault.trailingComma.on (d :: rest)) else .ok (true, d :: rest)
    else .error (Fault.noListEnd.on (c :: rest))

def closeList (s : List Char) : Except Stop (List Char) :=
  match skipBlank s with
  | [] => .error Fault.endInList.atEnd
  | ']' :: rest => .ok rest
  | ',' :: rest =>
    match skipBlank rest with
    | ']' :: rest => .error (Fault.trailingComma.on (']' :: rest))
    | rest => .error (Fault.trailingCharacters.on rest)
  | s => .error (Fault.trailingCharacters.on s)

/-- Looks for the next member of an object: `true` and the text after the
opening quote of its name, or `false` and the text after the closing brace. -/
def nextMember (first : Bool) (s : List Char) : Except Stop (Bool × List Char) :=
  match skipBlank s with
  | [] => .error Fault.endInObject.atEnd
  | c :: rest =>
    if c = '\x7d' then .ok (false, rest)
    else if first then
      if c = '"' then .ok (true, rest) else .error (Fault.keyNotString.on (c :: rest))
    else if c = ',' then
      match skipBlank rest with
      | [] => .error Fault.endInValue.atEnd
      | '"' :: rest => .ok (true, rest)
      | '\x7d' :: rest => .error (Fault.trailingComma.on ('\x7d' :: rest))
      | rest => .error (Fault.keyNotString.on rest)
    else .error (Fault.noObjectEnd.on (c :: rest))

/-- The text after a closing character that comes next, or else before what
comes next.  A record that is refused as a whole is refused there. -/
def afterClosing (closing : Char) (s : List Char) : List Char :=
  match skipBlank s with
  | [] => []
  | c :: rest => if c = closing then rest else c :: rest

namespace Decoder

/-- Reads elements up to the closing bracket, onto those already read (the last
one first). -/
def elements {α : Type} (decoder : Decoder α) : Nat → Bool → List α → Decoder (List α)
  | 0, _, _, _ => .error Fault.endInList.atEnd
  | fuel + 1, first, taken, s =>
    match nextElement first s with
    | .error stop => .error stop
    | .ok (false, rest) => do .ok (taken.reverse, ← closeList rest)
    | .ok (true, rest) =>
      match decoder rest with
      | .error stop => .error stop
      | .ok (a, rest) => elements decoder fuel false (a :: taken) rest

def list {α : Type} (decoder : Decoder α) : Decoder (List α) := fun s =>
  match skipBlank s with
  | [] => .error Fault.endInValue.atEnd
  | '[' :: rest => elements decoder (rest.length + 1) true [] rest
  | s => .error (misfit "a sequence" s)

def variant {α : Type} (variants : List (String × α)) (name : String) : Decoder α := fun rest =>
  match variants.find? (·.1 == name) with
  | some v => .ok (v.2, rest)
  | none => .error ((Fault.unknownVariant name (variants.map (·.1))).before rest)

def variantName : Decoder String := fun s =>
  match skipBlank s with
  | [] => .error Fault.endInObject.atEnd
  | '"' :: rest => readString rest
  | '\x7d' :: rest => .error (Fault.noValue.on ('\x7d' :: rest))
  | s => .error (Fault.keyNotString.on s)

/-- Reads one of several named variants: its name as a string, or an object
whose one member has that name and the value `null`. -/
def choice {α : Type} (variants : List (String × α)) : Decoder α := fun s =>
  match skipBlank s with
  | [] => .error Fault.endInValue.atEnd
  | '"' :: rest => do
    let (name, rest) ← readString rest
    variant variants name rest
  | '\x7b' :: rest => do
    let (name, rest) ← variantName rest
    let (a, rest) ← variant variants name rest
    let rest ← readColon rest
    let ((), rest) ← null "unit" rest
    match skipBlank rest with
    | [] => .error Fault.endInObject.atEnd
    | '\x7d' :: rest => .ok (a, rest)
    | s => .error (Fault.noValue.before s)
  | s => .error (Fault.noValue.on s)

end Decoder

/-- A member of a record: its name, and how its value is read into the record
under construction. -/
structure Member (σ : Type) where
  name : String
  read : σ → Decoder σ

def Member.of {σ α : Type} (name : String) (decoder : Decoder α) (put : α → σ → σ) : Member σ where
  name := name
  read r s := do
    let (a, rest) ← decoder s
    .ok (put a r, rest)

structure Record (σ : Type) where
  /-- What the record is called where another value stands in its place. -/
  wanted : String
  members : List (Member σ)
  start : σ
  /-- What is asked of a record when all its members have been read. -/
  complete : σ → Except Fault Unit := fun _ => .ok ()
  /-- What is asked of a list that ends after so many values. -/
  enough : Nat → Except Fault Unit := fun _ => .ok ()

namespace Record

variable {σ : Type}

def readMember (shape : Record σ) (seen : List String) (name : String) (r : σ) :
    Decoder σ := fun s =>
  match shape.members.find? (·.name == name) with
  | none => do .ok (r, ← skipValue (← readColon s))
  | some m =>
    if seen.contains name then .error ((Fault.repeatedMember name).before (afterClosing '\x7d' s))
    else do m.read r (← readColon s)

def object (shape : Record σ) : Nat → Bool → List String → σ → Decoder σ
  | 0, _, _, _, _ => .error Fault.endInObject.atEnd
  | fuel + 1, first, seen, r, s =>
    match nextMember first s with
    | .error stop => .error stop
    | .ok (false, rest) => do
      (shape.complete r).mapError (·.before rest)
      .ok (r, rest)
    | .ok (true, rest) =>
      match readString rest with
      | .error stop => .error stop
      | .ok (name, rest) =>
        match shape.readMember seen name r rest with
        | .error stop => .error stop
        | .ok (r, rest) => object shape fuel false (name :: seen) r rest

def positional (shape : Record σ) : List (Member σ) → Nat → σ → Decoder σ
  | [], _, r, s => do .ok (r, ← closeList s)
  | m :: rest, taken, r, s =>
    match nextElement (taken == 0) s with
    | .error stop => .error stop
    | .ok (false, s) => do
      (shape.enough taken).mapError (·.before (afterClosing ']' s))
      .ok (r, ← closeList s)
    | .ok (true, s) =>
      match m.read r s with
      | .error stop => .error stop
      | .ok (r, s) => positional shape rest (taken + 1) r s

def decoder (shape : Record σ) : Decoder σ := fun s =>
  match skipBlank s with
  | [] => .error Fault.endInValue.atEnd
  | '[' :: rest => shape.positional shape.members 0 shape.start rest
  | '\x7b' :: rest => shape.object (rest.length + 1) true [] shape.start rest
  | s => .error (misfit shape.wanted s)

end Record

def Decoder.whole {α : Type} (decoder : Decoder α) (s : List Char) : Except Stop α := do
  let (a, rest) ← decoder s
  match skipBlank rest with
  | [] => .ok a
  | rest => .error (Fault.trailingCharacters.on rest)

def parse {α : Type} (decoder : Decoder α) (text : String) : Except Refusal α :=
  (decoder.whole text.toList).mapError (·.refusal text.toList)

end Json

end Skein
