/-!
# What can be wrong with a JSON text

A text is read from left to right straight into the value it should give, so the
first thing that is wrong decides: a text that breaks the grammar, a value of
another kind than the one wanted, or a record that names a member twice. `Fault`
has one case for each, and `Fault.message` is the only place where they are put
into words.
-/

namespace Skein

namespace Json

inductive Found
  | null
  | boolean (b : Bool)
  | integer (n : Int)
  /-- A number with a fraction or an exponent, or one outside the 64-bit
  integers, as it is written. -/
  | float (written : String)
  | text (quoted : String)
  | sequence
  | map
deriving DecidableEq

def Found.describe : Found → String
  | .null => "null"
  | .boolean b => s!"boolean `{b}`"
  | .integer n => s!"integer `{n}`"
  | .float written => s!"floating point `{written}`"
  | .text quoted => s!"string {quoted}"
  | .sequence => "sequence"
  | .map => "map"

inductive Fault
  | endInValue
  | endInList
  | endInObject
  | endInString
  | noColon
  | noListEnd
  | noObjectEnd
  | badWord
  | noValue
  | badEscape
  | badNumber
  | outOfRange
  | loneSurrogate
  | brokenPair
  | controlCharacter
  | keyNotString
  | trailingComma
  | trailingCharacters
  | wrongType (found : Found) (wanted : String)
  | wrongValue (found : Found) (wanted : String)
  | wrongLength (length : Nat) (wanted : String)
  | unknownVariant (name : String) (known : List String)
  | missingMember (name : String)
  | repeatedMember (name : String)
  | identifierLength
  | identifierCharacter
deriving DecidableEq

def Fault.message : Fault → String
  | .endInValue => "EOF while parsing a value"
  | .endInList => "EOF while parsing a list"
  | .endInObject => "EOF while parsing an object"
  | .endInString => "EOF while parsing a string"
  | .noColon => "expected `:`"
  | .noListEnd => "expected `,` or `]`"
  | .noObjectEnd => "expected `,` or `\x7d`"
  | .badWord => "expected ident"
  | .noValue => "expected value"
  | .badEscape => "invalid escape"
  | .badNumber => "invalid number"
  | .outOfRange => "number out of range"
  | .loneSurrogate => "lone leading surrogate in hex escape"
  | .brokenPair => "unexpected end of hex escape"
  | .controlCharacter => "control character (\\u0000-\\u001F) found while parsing a string"
  | .keyNotString => "key must be a string"
  | .trailingComma => "trailing comma"
  | .trailingCharacters => "trailing characters"
  | .wrongType found wanted => s!"invalid type: {found.describe}, expected {wanted}"
  | .wrongValue found wanted => s!"invalid value: {found.describe}, expected {wanted}"
  | .wrongLength length wanted => s!"invalid length {length}, expected {wanted}"
  | .unknownVariant name known =>
    s!"unknown variant `{name}`, expected one of " ++
      String.intercalate ", " (known.map fun k => s!"`{k}`")
  | .missingMember name => s!"missing field `{name}`"
  | .repeatedMember name => s!"duplicate field `{name}`"
  | .identifierLength => "invalid length"
  | .identifierCharacter => "invalid character"

end Json

end Skein
