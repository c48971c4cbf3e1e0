import GoalSearch.Number.Binary64

/-!
# Decimal text with a fixed number of places

The exact value is rounded once to the asked number of places, halves to the even digit.
-/

namespace GoalSearch.Fixed

/-- Puts the point before the last `places` digits of `n`. -/
def point (places n : Nat) : String :=
  let digits := Nat.toDigits 10 n
  let digits := List.replicate (places + 1 - digits.length) '0' ++ digits
  let whole := digits.take (digits.length - places)
  let rest := digits.drop (digits.length - places)
  String.ofList (if rest.isEmpty then whole else whole ++ '.' :: rest)

def text (places : Nat) (x : Float) : String :=
  if Binary64.isNaN x then "nan"
  else
    let sign := if Binary64.isNegative x then "-" else ""
    if Binary64.isInfinite x then sign ++ "inf"
    else
      let (num, den) := Binary64.ratio x
      sign ++ point places (Binary64.roundQuotient (num * Nat.pow 10 places) den)

def padLeft (width : Nat) (s : String) : String :=
  String.ofList (List.replicate (width - s.length) ' ') ++ s

/-- A ratio as a percentage with two places; the product with 100 is a binary64 product. -/
def percent (x : Float) : String := text 2 (x * 100) ++ "%"

end GoalSearch.Fixed
