import Skein.Text.Shape

/-!
# Quoted text

A text between double quotes, on one line and readable: the quote and the
backslash stand behind a backslash, the common control characters have a letter,
and every other character without a shape of its own is written by its code
point in hexadecimal.
-/

namespace Skein

namespace Text

def spell (c : Char) : List Char :=
  match c with
  | '"' => ['\\', '"']
  | '\\' => ['\\', '\\']
  | '\t' => ['\\', 't']
  | '\r' => ['\\', 'r']
  | '\n' => ['\\', 'n']
  | '\x00' => ['\\', '0']
  | c => if isShaped c then [c] else ['\\', 'u', '\x7b'] ++ Nat.toDigits 16 c.toNat ++ ['\x7d']

def quote (s : String) : String :=
  String.ofList ('"' :: s.toList.flatMap spell ++ ['"'])

end Text

end Skein
