/-! Numbers with a decimal point, kept exactly. -/

namespace PlotScript

/-- The number `digits / 10 ^ places`. The sign stands apart, so there is a negative zero. -/
structure Decimal where
  negative : Bool
  digits : Nat
  places : Nat
  deriving DecidableEq, Repr

/-- The number with its point, and at least one digit on either side of it. -/
def Decimal.text (d : Decimal) : String :=
  let digits := Nat.toDigits 10 d.digits
  let padded := List.replicate (d.places + 1 - digits.length) '0' ++ digits
  let (whole, part) := padded.splitAt (padded.length - d.places)
  (if d.negative then "-" else "") ++ String.ofList whole ++ "." ++
    (if part.isEmpty then "0" else String.ofList part)

end PlotScript
