import Skein.Json.Lexeme
import Skein.Decimal.Layout

/-!
# Numbers of a JSON text

A number without fraction and exponent is an integer when it fits 64 bits,
signed or not; every other number, and minus zero, is a floating-point number.
Its value is the significand, as far as it fits 64 bits, times or divided by one
power of ten.
-/

namespace Skein

namespace Json

inductive Number
  | natural (n : Nat)
  /-- The number below zero whose absolute value is `n`. -/
  | negative (n : Nat)
  | float (x : Float)

/-- Faults show a floating-point number with a point or an exponent,
positionally from `10 ^ -5` to below `10 ^ 16`. -/
def faultStyle : Decimal.Style :=
  { tie := .toEven, plainFrom := -5, plainTo := 15, pointZero := true, plusSign := true }

def Number.found : Number → Found
  | .natural n => .integer n
  | .negative n => .integer (-n)
  | .float x => .float (faultStyle.render x)

def Number.toFloat : Number → Float
  | .natural n => Float.ofNat n
  | .negative n => -Float.ofNat n
  | .float x => x

def digitValue (c : Char) : Nat :=
  c.toNat - 48

/-- Appends digits to a significand while it stays below `2 ^ 64`: the
significand, the number of digits it took, and the rest of the text. -/
def absorb (significand : Nat) : List Char → Nat × Nat × List Char
  | [] => (significand, 0, [])
  | c :: rest =>
    if c.isDigit && significand * 10 + digitValue c < UInt64.size then
      let (final, count, rest) := absorb (significand * 10 + digitValue c) rest
      (final, count + 1, rest)
    else
      (significand, 0, c :: rest)

def startsWithDigit : List Char → Bool
  | c :: _ => c.isDigit
  | [] => false

def powerOfTen (n : Nat) : Float :=
  Float.ofScientific 1 false n

/-- Divides by a power of ten, in two steps where one power is too large for a
floating-point number. -/
def shrink (x : Float) (n : Nat) : Float :=
  if n ≤ 308 then x / powerOfTen n
  else if n ≤ 616 then x / powerOfTen 308 / powerOfTen (n - 308)
  else 0

def grow? (x : Float) (n : Nat) : Option Float :=
  if n ≤ 308 then
    let y := x * powerOfTen n
    if y.isInf then none else some y
  else if x == 0 then some x
  else none

def assemble? (positive : Bool) (significand : Nat) (exponent : Int) : Option Float := do
  let x := Float.ofNat significand
  let x ← if exponent < 0 then some (shrink x exponent.natAbs) else grow? x exponent.natAbs
  some (if positive then x else -x)

def finish (positive : Bool) (significand : Nat) (exponent : Int) (rest : List Char) :
    Except Stop (Float × List Char) :=
  match assemble? positive significand exponent with
  | some x => .ok (x, rest)
  | none => .error (Fault.outOfRange.before rest)

/-- The largest exponent that is read as written; a larger one makes the number
zero or too large. -/
def maxExponent : Nat := 2147483647

def afterMaxExponent (exponent : Nat) : List Char → List Char
  | [] => []
  | c :: rest =>
    if maxExponent < exponent * 10 + digitValue c then rest
    else afterMaxExponent (exponent * 10 + digitValue c) rest

/-- Reads the digits of an exponent that counts up or down.  A number that is too
large is refused at the digit that shows it. -/
def readPower (positive up : Bool) (significand : Nat) (start : Int) (s : List Char) :
    Except Stop (Float × List Char) :=
  match s with
  | [] => .error Fault.endInValue.atEnd
  | c :: _ =>
    if c.isDigit then
      let exponent := (s.takeWhile Char.isDigit).foldl (fun n c => n * 10 + digitValue c) 0
      let rest := s.dropWhile Char.isDigit
      if exponent ≤ maxExponent then
        finish positive significand (if up then start + exponent else start - exponent) rest
      else if significand ≠ 0 ∧ up then .error (Fault.outOfRange.before (afterMaxExponent 0 s))
      else .ok (if positive then 0 else -0, rest)
    else
      .error (Fault.badNumber.on s)

def readExponent (positive : Bool) (significand : Nat) (start : Int) :
    List Char → Except Stop (Float × List Char)
  | '+' :: rest => readPower positive true significand start rest
  | '-' :: rest => readPower positive false significand start rest
  | s => readPower positive true significand start s

def readScale (positive : Bool) (significand : Nat) (exponent : Int) (s : List Char) :
    Except Stop (Float × List Char) :=
  match s with
  | 'e' :: rest => readExponent positive significand exponent rest
  | 'E' :: rest => readExponent positive significand exponent rest
  | rest => finish positive significand exponent rest

/-- Reads a fraction, its point already read.  Digits that the significand has no
room for are passed over. -/
def readFraction (positive : Bool) (significand : Nat) (exponent : Int) (s : List Char) :
    Except Stop (Float × List Char) :=
  let (significand, count, rest) := absorb significand s
  if startsWithDigit rest then
    readScale positive significand (exponent - count) (rest.dropWhile Char.isDigit)
  else if count = 0 then
    .error (if rest.isEmpty then Fault.endInValue.atEnd else Fault.badNumber.on rest)
  else
    readScale positive significand (exponent - count) rest

/-- Ends a number whose integer digits all fit the significand. -/
def readTail (positive : Bool) (significand : Nat) (s : List Char) :
    Except Stop (Number × List Char) :=
  match s with
  | '.' :: rest => do
    let (x, rest) ← readFraction positive significand 0 rest
    .ok (.float x, rest)
  | 'e' :: rest => do
    let (x, rest) ← readExponent positive significand 0 rest
    .ok (.float x, rest)
  | 'E' :: rest => do
    let (x, rest) ← readExponent positive significand 0 rest
    .ok (.float x, rest)
  | rest =>
    if positive then .ok (.natural significand, rest)
    else if significand = 0 ∨ UInt64.size / 2 < significand then
      .ok (.float (-Float.ofNat significand), rest)
    else .ok (.negative significand, rest)

/-- Ends a number with more integer digits than the significand has room for:
each one passed over counts as a power of ten. -/
def readLongTail (positive : Bool) (significand : Nat) (s : List Char) :
    Except Stop (Number × List Char) := do
  let passed := (s.takeWhile Char.isDigit).length
  let (x, rest) ← match s.dropWhile Char.isDigit with
    | '.' :: rest => readFraction positive significand passed rest
    | rest => readScale positive significand passed rest
  .ok (.float x, rest)

def readUnsigned (positive : Bool) : List Char → Except Stop (Number × List Char)
  | [] => .error Fault.endInValue.atEnd
  | '0' :: rest =>
    if startsWithDigit rest then .error (Fault.badNumber.on rest) else readTail positive 0 rest
  | c :: rest =>
    if c.isDigit then
      let (significand, _, rest) := absorb (digitValue c) rest
      if startsWithDigit rest then readLongTail positive significand rest
      else readTail positive significand rest
    else
      .error (Fault.badNumber.on (c :: rest))

def readNumber : List Char → Except Stop (Number × List Char)
  | '-' :: rest => readUnsigned false rest
  | s => readUnsigned true s

def skipExponent (s : List Char) : Except Stop (List Char) :=
  let s := match s with
    | '+' :: rest => rest
    | '-' :: rest => rest
    | s => s
  if startsWithDigit s then .ok (s.dropWhile Char.isDigit) else .error (Fault.badNumber.on s)

def skipTail : List Char → Except Stop (List Char)
  | '.' :: rest =>
    if startsWithDigit rest then
      match rest.dropWhile Char.isDigit with
      | 'e' :: rest => skipExponent rest
      | 'E' :: rest => skipExponent rest
      | rest => .ok rest
    else .error (Fault.badNumber.on rest)
  | 'e' :: rest => skipExponent rest
  | 'E' :: rest => skipExponent rest
  | rest => .ok rest

def skipUnsigned : List Char → Except Stop (List Char)
  | '0' :: rest => if startsWithDigit rest then .error (Fault.badNumber.on rest) else skipTail rest
  | c :: rest =>
    if c.isDigit then skipTail (rest.dropWhile Char.isDigit)
    else .error (Fault.badNumber.on (c :: rest))
  | [] => .error Fault.badNumber.atEnd

end Json

end Skein
