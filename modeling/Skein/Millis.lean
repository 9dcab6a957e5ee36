/-!
# Durations

Durations are whole milliseconds.
-/

namespace Skein

/-- A duration, or a moment on a clock that starts at zero. -/
abbrev Millis := Nat

/-- The decimal digits of a part of a second, without zeros at the end. -/
def Millis.fraction (ms : Nat) : List Char :=
  [ms / 100, ms / 10 % 10, ms % 10].map (fun d => Char.ofNat (48 + d))
    |>.reverse.dropWhile (· == '0') |>.reverse

/-- A duration in words: in seconds from one second on, and with no more digits
than it has. -/
def Millis.text (d : Millis) : String :=
  if d = 0 then "0ns"
  else if d < 1000 then s!"{d}ms"
  else
    match Millis.fraction (d % 1000) with
    | [] => s!"{d / 1000}s"
    | part => s!"{d / 1000}." ++ String.ofList part ++ "s"

end Skein
