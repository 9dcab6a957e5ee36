import Skein.Json.Number

/-!
# Passing over a value

A member that a record does not know is passed over, whatever its value.  The
grammar is checked, but numbers may have any size and surrogates need no
partner.  Open lists and objects are kept on a list of brackets, so the depth of
the value costs no recursion.
-/

namespace Skein

namespace Json

inductive Bracket
  | list
  | object
deriving DecidableEq

def Bracket.cutOff : Bracket → Fault
  | .list => .endInList
  | .object => .endInObject

def Bracket.noEnd : Bracket → Fault
  | .list => .noListEnd
  | .object => .noObjectEnd

def Bracket.closing : Bracket → Char
  | .list => ']'
  | .object => '\x7d'

def skipKey (s : List Char) : Except Stop (List Char) := do
  match skipBlank s with
  | '"' :: rest => readColon (← skipString rest)
  | [] => .error Fault.endInObject.atEnd
  | s => .error (Fault.keyNotString.on s)

def enter : Bracket → List Char → Except Stop (List Char)
  | .list, s => .ok s
  | .object, s => skipKey s

/-- Passes over a value that holds no other: what is left, or the bracket that
the value opens. -/
def skipSimple : List Char → Except Stop (Option Bracket × List Char)
  | 'n' :: rest => do .ok (none, ← readWord ['u', 'l', 'l'] rest)
  | 't' :: rest => do .ok (none, ← readWord ['r', 'u', 'e'] rest)
  | 'f' :: rest => do .ok (none, ← readWord ['a', 'l', 's', 'e'] rest)
  | '"' :: rest => do .ok (none, ← skipString rest)
  | '-' :: rest => do .ok (none, ← skipUnsigned rest)
  | '[' :: rest => .ok (some .list, rest)
  | '\x7b' :: rest => .ok (some .object, rest)
  | [] => .error Fault.endInValue.atEnd
  | c :: rest =>
    if c.isDigit then do .ok (none, ← skipUnsigned (c :: rest))
    else .error (Fault.noValue.on (c :: rest))

/-- Where a reader that passes over a value stands: before a value, right after an
opening bracket, or after an element of the innermost open bracket. -/
inductive Place
  | value
  | opened
  | element

/-- Passes over a value and over all that the open brackets still ask for. -/
def skipFrom : Nat → Place → List Bracket → List Char → Except Stop (List Char)
  | 0, _, _, _ => .error Fault.endInValue.atEnd
  | fuel + 1, .value, pending, s =>
    match skipSimple (skipBlank s) with
    | .error stop => .error stop
    | .ok (some bracket, rest) => skipFrom fuel .opened (bracket :: pending) rest
    | .ok (none, rest) => skipFrom fuel .element pending rest
  | _ + 1, _, [], s => .ok s
  | fuel + 1, .opened, bracket :: pending, s =>
    match skipBlank s with
    | [] => .error bracket.cutOff.atEnd
    | c :: rest =>
      if c = bracket.closing then skipFrom fuel .element pending rest
      else
        match enter bracket (c :: rest) with
        | .error stop => .error stop
        | .ok rest => skipFrom fuel .value (bracket :: pending) rest
  | fuel + 1, .element, bracket :: pending, s =>
    match skipBlank s with
    | [] => .error bracket.cutOff.atEnd
    | c :: rest =>
      if c = bracket.closing then skipFrom fuel .element pending rest
      else if c = ',' then
        match enter bracket rest with
        | .error stop => .error stop
        | .ok rest => skipFrom fuel .value (bracket :: pending) rest
      else .error (bracket.noEnd.on (c :: rest))

/-- Passes over one value.  No two steps leave the text at the same length
without a bracket having been opened in between, so twice the length of the text
is allowance enough. -/
def skipValue (s : List Char) : Except Stop (List Char) :=
  skipFrom (2 * s.length + 2) .value [] s

end Json

end Skein
