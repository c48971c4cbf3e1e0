import GoalSearch.Number.Binary64

/-!
# Shortest decimal text

`shortest` writes a value with the fewest decimal digits that still read back to it. The digits are
found by exact arithmetic: the reals that round to `m * 2 ^ q` form an interval, and for one, two,
… digits the two neighbours of the value on that decimal grid are tested against it. The first grid
with a hit wins, and of two hits the nearer one.
-/

namespace GoalSearch.Shortest

/-- A positive decimal `digits * 10 ^ exp`. -/
structure Decimal where
  digits : Nat
  exp : Int
deriving Repr, DecidableEq

/-- Compares `a * 10 ^ i` with `n * 2 ^ j` exactly. -/
def compareScaled (a : Nat) (i : Int) (n : Nat) (j : Int) : Ordering :=
  compare (a * Nat.pow 10 i.toNat * Nat.pow 2 (-j).toNat) (n * Nat.pow 2 j.toNat * Nat.pow 10 (-i).toNat)

/-- The decimal lies among the reals that round to `m * 2 ^ q`. The interval reaches half way to
both neighbours, the lower one being nearer when `narrow` holds, and contains its ends exactly when
`m` is even. -/
def readsBack (m : Nat) (q : Int) (narrow : Bool) (d : Decimal) : Bool :=
  let lower := compareScaled d.digits d.exp (if narrow then 4 * m - 1 else 4 * m - 2) (q - 2)
  let upper := compareScaled d.digits d.exp (4 * m + 2) (q - 2)
  let closed := m % 2 == 0
  (lower == .gt || (closed && lower == .eq)) && (upper == .lt || (closed && upper == .eq))

/-- The least `k` with `m * 2 ^ q < 10 ^ k`, found from an estimate by the binary logarithm. -/
def scale (m : Nat) (q : Int) : Int :=
  let estimate : Int := ((m.log2 : Int) + q) * 30103 / 100000 - 1
  let rec climb : Nat → Int → Int
    | 0, k => k
    | fuel + 1, k => if compareScaled 1 k m q == .gt then k else climb fuel (k + 1)
  climb 8 estimate

/-- The decimal with `n` digits next to `m * 2 ^ q` that reads back to it, if there is one. -/
def onGrid? (m : Nat) (q : Int) (narrow : Bool) (k : Int) (n : Nat) : Option Decimal :=
  let e := k - n
  let below := (m * Nat.pow 2 q.toNat * Nat.pow 10 (-e).toNat) / (Nat.pow 2 (-q).toNat * Nat.pow 10 e.toNat)
  let low : Decimal := ⟨below, e⟩
  let high : Decimal := ⟨below + 1, e⟩
  let lowHit := below != 0 && readsBack m q narrow low
  let highHit := readsBack m q narrow high
  if lowHit && highHit then
    -- the nearer of the two; an exact tie goes to the even digit
    match compareScaled (2 * below + 1) e (2 * m) q with
    | .gt => some low
    | .lt => some high
    | .eq => some (if below % 2 == 0 then low else high)
  else if lowHit then some low
  else if highHit then some high
  else none

def strip : Nat → Decimal → Decimal
  | 0, d => d
  | fuel + 1, d =>
    if d.digits != 0 && d.digits % 10 == 0 then strip fuel ⟨d.digits / 10, d.exp + 1⟩ else d

/-- The shortest decimal that reads back to the positive finite value `x`. Seventeen digits always
suffice; were they not to, the exact value is returned. -/
def select (x : Float) : Decimal :=
  let m := Binary64.significand x
  let q := Binary64.exponent x
  let narrow := Binary64.fractionField x == 0 && Binary64.exponentField x > 1
  let k := scale m q
  let found := (List.range 17).findSome? fun n => onGrid? m q narrow k (n + 1)
  let d := found.getD (if 0 ≤ q then ⟨m * Nat.pow 2 q.toNat, 0⟩ else ⟨m * Nat.pow 5 (-q).toNat, q⟩)
  strip 400 d

/-- Writes the digits of a decimal. Values from `10 ^ -4` up to below `10 ^ 16` are written
positionally and keep at least one place after the point; others get a signed exponent of at least
two digits. -/
def layout (d : Decimal) : String :=
  let digits := Nat.toDigits 10 d.digits
  let n := digits.length
  -- the exponent of the leading digit
  let lead : Int := d.exp + n - 1
  let chars : List Char :=
    if lead < -4 || 16 ≤ lead then
      let mantissa := match digits with
        | c :: [] => [c]
        | c :: rest => c :: '.' :: rest
        | [] => []
      let e := Nat.toDigits 10 lead.natAbs
      let e := if e.length < 2 then '0' :: e else e
      mantissa ++ ['e', if lead < 0 then '-' else '+'] ++ e
    else if lead < 0 then
      ['0', '.'] ++ List.replicate (-lead - 1).toNat '0' ++ digits
    else if 0 ≤ d.exp then
      digits ++ List.replicate d.exp.toNat '0' ++ ['.', '0']
    else
      digits.take (lead + 1).toNat ++ '.' :: digits.drop (lead + 1).toNat
  String.ofList chars

/-- The shortest text that reads back to the value, with `nan`, `inf` and a sign for the negative
zero. -/
def text (x : Float) : String :=
  if Binary64.isNaN x then "nan"
  else
    let sign := if Binary64.isNegative x then "-" else ""
    if Binary64.isInfinite x then sign ++ "inf"
    else if Binary64.significand x == 0 then sign ++ "0.0"
    else sign ++ layout (select x)

end GoalSearch.Shortest
