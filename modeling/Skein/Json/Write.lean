/-!
# Writing JSON texts

Texts are written without blanks.  In a string the quote, the backslash and the
control characters are escaped and every other character stands for itself.
-/

namespace Skein

namespace Json

def hexDigit (n : Nat) : Char :=
  if n < 10 then Char.ofNat (48 + n) else Char.ofNat (87 + n)

def writeChar (c : Char) : List Char :=
  match c with
  | '"' => ['\\', '"']
  | '\\' => ['\\', '\\']
  | '\x08' => ['\\', 'b']
  | '\x0c' => ['\\', 'f']
  | '\n' => ['\\', 'n']
  | '\r' => ['\\', 'r']
  | '\t' => ['\\', 't']
  | c =>
    if c.toNat < 0x20 then
      ['\\', 'u', '0', '0', hexDigit (c.toNat / 16), hexDigit (c.toNat % 16)]
    else [c]

def writeText (s : String) : List Char :=
  '"' :: s.toList.flatMap writeChar ++ ['"']

def writeNat (n : Nat) : List Char :=
  Nat.toDigits 10 n

def writeBool (b : Bool) : List Char :=
  if b then ['t', 'r', 'u', 'e'] else ['f', 'a', 'l', 's', 'e']

def writeOptional {α : Type} (write : α → List Char) : Option α → List Char
  | none => ['n', 'u', 'l', 'l']
  | some a => write a

def separate : List (List Char) → List Char
  | [] => []
  | [item] => item
  | item :: rest => item ++ ',' :: separate rest

def writeList {α : Type} (write : α → List Char) (as : List α) : List Char :=
  '[' :: separate (as.map write) ++ [']']

def writeObject (members : List (String × List Char)) : List Char :=
  '\x7b' :: separate (members.map fun m => writeText m.1 ++ ':' :: m.2) ++ ['\x7d']

end Json

end Skein
