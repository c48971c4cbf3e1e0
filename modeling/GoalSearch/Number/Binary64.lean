/-!
# Exact arithmetic on binary64 values

A finite `Float` stands for the rational `± m * 2 ^ q`. This file reads sign, `m` and `q` off the
bits, and gives the functions that other modules need exactly: comparison with an integer,
rounding to an integer (toward zero, or to the nearest with halves to even), and `ofRatio`, the
`Float` nearest to a quotient of integers.
-/

namespace GoalSearch.Binary64

/-- The sign bit, set for negative numbers and for the negative zero. -/
def isNegative (x : Float) : Bool := x.toBits >>> 63 == 1

def exponentField (x : Float) : Nat := ((x.toBits >>> 52) &&& 0x7FF).toNat

def fractionField (x : Float) : Nat := (x.toBits &&& 0xFFFFFFFFFFFFF).toNat

def isFinite (x : Float) : Bool := exponentField x != 0x7FF

def isNaN (x : Float) : Bool := exponentField x == 0x7FF && fractionField x != 0

def isInfinite (x : Float) : Bool := exponentField x == 0x7FF && fractionField x == 0

/-- The `m` of a finite value `± m * 2 ^ q`. -/
def significand (x : Float) : Nat :=
  if exponentField x == 0 then fractionField x else Nat.pow 2 52 + fractionField x

/-- The `q` of a finite value `± m * 2 ^ q`. -/
def exponent (x : Float) : Int :=
  if exponentField x == 0 then -1074 else (exponentField x : Int) - 1075

def infinity : Float := Float.ofBits 0x7FF0000000000000

def nan : Float := Float.ofBits 0x7FF8000000000000

def largest : Float := Float.ofBits 0x7FEFFFFFFFFFFFFF

/-- The absolute value of a finite `x` as a numerator and a positive denominator. -/
def ratio (x : Float) : Nat × Nat :=
  (significand x * Nat.pow 2 (exponent x).toNat, Nat.pow 2 (-exponent x).toNat)

def withSign (x : Float) (n : Nat) : Int := if isNegative x then -(n : Int) else n

/-- The integer part of a finite value, cut toward zero. -/
def truncate? (x : Float) : Option Int :=
  if isFinite x then
    let (num, den) := ratio x
    some (withSign x (num / den))
  else none

/-- `num / den` rounded to the nearest integer, halves to the even neighbour. -/
def roundQuotient (num den : Nat) : Nat :=
  let q := num / den
  let r := num % den
  if 2 * r < den then q
  else if den < 2 * r then q + 1
  else if q % 2 == 0 then q else q + 1

def round? (x : Float) : Option Int :=
  if isFinite x then
    let (num, den) := ratio x
    some (withSign x (roundQuotient num den))
  else none

/-- How the integer `n` compares with the exact value of `x`; `none` if `x` is a NaN. -/
def compareInt? (n : Int) (x : Float) : Option Ordering :=
  if isNaN x then none
  else if isInfinite x then some (if isNegative x then .gt else .lt)
  else
    let (num, den) := ratio x
    some (compare (n * den) (withSign x num))

/-- The bits of the value nearest to `num / den`, ties to even: first the exponent that leaves 53
significant bits (or the least exponent there is), then one rounding. A carry out of the
significand moves into the exponent field by itself. -/
def nearestBits (num den : Nat) : Nat :=
  if num == 0 then 0 else
    let guess : Int := (num.log2 : Int) - den.log2 - 52
    let scaled (q : Int) : Nat × Nat := (num * Nat.pow 2 (-q).toNat, den * Nat.pow 2 q.toNat)
    -- The quotient lies in (2^52, 2^54) / 2, so the guess is right or one too large.
    let q := if (scaled guess).1 < Nat.pow 2 52 * (scaled guess).2 then guess - 1 else guess
    let q := max q (-1074)
    let m := roundQuotient (scaled q).1 (scaled q).2
    if m < Nat.pow 2 52 then m else (q + 1075).toNat * Nat.pow 2 52 + (m - Nat.pow 2 52)

/-- The value nearest to `num / den`, ties to even; `none` beyond the largest finite value. -/
def ofRatio? (num : Int) (den : Nat) : Option Float :=
  let bits := nearestBits num.natAbs den
  if bits < 0x7FF0000000000000 then
    some (Float.ofBits ((if num < 0 then 0x8000000000000000 else 0) ||| bits.toUInt64))
  else none

/-- The value nearest to an integer, ties to even; `none` beyond the largest finite value. -/
def ofInt? (n : Int) : Option Float := ofRatio? n 1

def hex (x : Float) : String :=
  let digits := Nat.toDigits 16 x.toBits.toNat
  String.ofList (List.replicate (16 - digits.length) '0' ++ digits)

end GoalSearch.Binary64
