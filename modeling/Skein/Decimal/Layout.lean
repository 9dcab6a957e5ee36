import Skein.Decimal.Shortest

/-!
# Writing floating-point numbers

A number is written with its shortest digits.  A `Style` decides the rest: which
of two equally near decimals is taken, which magnitudes are written
positionally, whether a whole number keeps a point and a zero, and whether a
positive exponent shows its sign.
-/

namespace Skein

namespace Decimal

/-- The decisions of a format.  Exponents are those of the leading digit. -/
structure Style where
  tie : Tie
  plainFrom : Int
  plainTo : Int
  /-- A whole number written positionally ends in a point and a zero. -/
  pointZero : Bool
  plusSign : Bool

/-- The significant digits of a number, most significant first and without
trailing zeros; zero keeps its one digit. -/
def significant (n : Nat) : List Char :=
  match ((Nat.toDigits 10 n).reverse.dropWhile (· == '0')).reverse with
  | [] => ['0']
  | ds => ds

def wholePart (ds : List Char) (lead : Int) : List Char :=
  if lead < 0 then ['0']
  else ds.take (lead.toNat + 1) ++ List.replicate (lead.toNat + 1 - ds.length) '0'

def fractionPart (ds : List Char) (lead : Int) : List Char :=
  if lead < 0 then List.replicate (-lead - 1).toNat '0' ++ ds else ds.drop (lead.toNat + 1)

def Style.positional (style : Style) (ds : List Char) (lead : Int) : List Char :=
  match fractionPart ds lead with
  | [] => if style.pointZero then wholePart ds lead ++ ['.', '0'] else wholePart ds lead
  | part => wholePart ds lead ++ '.' :: part

def Style.scientific (style : Style) (ds : List Char) (lead : Int) : List Char :=
  let sign := if lead < 0 then ['-'] else if style.plusSign then ['+'] else []
  let pointed := match ds with
    | d :: e :: rest => d :: '.' :: e :: rest
    | short => short
  pointed ++ 'e' :: sign ++ Nat.toDigits 10 lead.natAbs

def Style.layout (style : Style) (d : Number) : List Char :=
  let ds := significant d.digits
  let lead := if d.digits = 0 then 0 else (Nat.toDigits 10 d.digits).length - 1 + d.exponent
  if style.plainFrom ≤ lead ∧ lead ≤ style.plainTo then style.positional ds lead
  else style.scientific ds lead

/-- A floating-point number as text.  Zero keeps its sign. -/
def Style.render (style : Style) (x : Float) : String :=
  let sign := if x.toBits >>> 63 == 1 then "-" else ""
  if x.isNaN then "NaN"
  else if x.isInf then sign ++ "inf"
  else sign ++ String.ofList (style.layout ((Dyadic.ofBits x.toBits).shortest style.tie))

end Decimal

end Skein
