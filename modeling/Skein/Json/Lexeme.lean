import Skein.Json.Position

/-!
# Blanks, words and strings of a JSON text

The smallest pieces of a text.  Every reader takes the characters still to be
read and gives back those it left.
-/

namespace Skein

namespace Json

/-- The blanks that may stand between the pieces of a text. -/
def isBlank (c : Char) : Bool :=
  c == ' ' || c == '\n' || c == '\t' || c == '\r'

def skipBlank (s : List Char) : List Char :=
  s.dropWhile isBlank

def readWord : List Char → List Char → Except Stop (List Char)
  | [], s => .ok s
  | _ :: _, [] => .error Fault.endInValue.atEnd
  | w :: ws, c :: s => if c = w then readWord ws s else .error (Fault.badWord.on (c :: s))

def readColon (s : List Char) : Except Stop (List Char) :=
  match skipBlank s with
  | ':' :: rest => .ok rest
  | [] => .error Fault.endInObject.atEnd
  | s => .error (Fault.noColon.on s)

def hexValue? (c : Char) : Option Nat :=
  if '0' ≤ c ∧ c ≤ '9' then some (c.toNat - 48)
  else if 'a' ≤ c ∧ c ≤ 'f' then some (c.toNat - 87)
  else if 'A' ≤ c ∧ c ≤ 'F' then some (c.toNat - 55)
  else none

def hexFour? : List Char → Option (Nat × List Char)
  | a :: b :: c :: d :: rest => do
    let a ← hexValue? a
    let b ← hexValue? b
    let c ← hexValue? c
    let d ← hexValue? d
    some (((a * 16 + b) * 16 + c) * 16 + d, rest)
  | _ => none

/-- Reads the four hexadecimal digits of an escape.  Four bytes are taken
whatever they are; a text with fewer is one that is cut off. -/
def readHex (s : List Char) : Except Stop (Nat × List Char) :=
  match hexFour? s with
  | some read => .ok read
  | none => .error (if size s < 4 then Fault.endInString.atEnd else Fault.badEscape.past 4 s)

def escapeLetter? : Char → Option Char
  | '"' => some '"'
  | '\\' => some '\\'
  | '/' => some '/'
  | 'b' => some '\x08'
  | 'f' => some '\x0c'
  | 'n' => some '\n'
  | 'r' => some '\r'
  | 't' => some '\t'
  | _ => none

def isHighSurrogate (n : Nat) : Bool :=
  0xD800 ≤ n && n ≤ 0xDBFF

def isLowSurrogate (n : Nat) : Bool :=
  0xDC00 ≤ n && n ≤ 0xDFFF

/-- Reads the second half of a surrogate pair, escape included. -/
def readLowSurrogate (high : Nat) : List Char → Except Stop (Char × List Char)
  | [] => .error Fault.endInString.atEnd
  | ['\\'] => .error Fault.endInString.atEnd
  | '\\' :: 'u' :: rest => do
    let (low, rest) ← readHex rest
    if isLowSurrogate low then
      .ok (Char.ofNat (0x10000 + (high - 0xD800) * 0x400 + (low - 0xDC00)), rest)
    else
      .error (Fault.loneSurrogate.before rest)
  | '\\' :: rest => .error (Fault.brokenPair.on rest)
  | s => .error (Fault.brokenPair.on s)

/-- Reads an escaped character, the backslash already read.  A text that is only
skipped need not pair its surrogates. -/
def readEscape (strict : Bool) : List Char → Except Stop (Char × List Char)
  | [] => .error Fault.endInString.atEnd
  | 'u' :: rest => do
    let (n, rest) ← readHex rest
    if strict && isLowSurrogate n then .error (Fault.loneSurrogate.before rest)
    else if strict && isHighSurrogate n then readLowSurrogate n rest
    else .ok (Char.ofNat n, rest)
  | c :: rest =>
    match escapeLetter? c with
    | some d => .ok (d, rest)
    | none => .error (Fault.badEscape.on (c :: rest))

/-- Reads the next character of a string, or its closing quote.  A control
character is passed before it is refused, unless the text is only skipped. -/
def readUnit (strict : Bool) : List Char → Except Stop (Option Char × List Char)
  | [] => .error Fault.endInString.atEnd
  | '"' :: rest => .ok (none, rest)
  | '\\' :: rest => do
    let (c, rest) ← readEscape strict rest
    .ok (some c, rest)
  | c :: rest =>
    if c.toNat < 0x20 then
      .error (Fault.controlCharacter.past (if strict then 1 else 0) (c :: rest))
    else .ok (some c, rest)

/-- Reads characters up to the closing quote, onto those already read (the last
one first). -/
def readUnits (strict : Bool) : Nat → List Char → List Char → Except Stop (List Char × List Char)
  | 0, _, _ => .error Fault.endInString.atEnd
  | fuel + 1, taken, s =>
    match readUnit strict s with
    | .error stop => .error stop
    | .ok (none, rest) => .ok (taken.reverse, rest)
    | .ok (some c, rest) => readUnits strict fuel (c :: taken) rest

/-- Reads a string, its opening quote already read.  Every unit takes at least
one character, so the length of the text is allowance enough. -/
def readString (s : List Char) : Except Stop (String × List Char) :=
  match readUnits true (s.length + 1) [] s with
  | .error stop => .error stop
  | .ok (cs, rest) => .ok (String.ofList cs, rest)

def skipString (s : List Char) : Except Stop (List Char) :=
  match readUnits false (s.length + 1) [] s with
  | .error stop => .error stop
  | .ok (_, rest) => .ok rest

end Json

end Skein
