import GoalSearch.Number.Binary64
import GoalSearch.Text.Blank
import GoalSearch.Text.Digit

/-!
# Reading numbers

Numbers as people type them: blanks around, a sign, digits of any script, single underscores between
digits. `int?` reads integers, `float?` reads decimals with an optional exponent and the names of
infinity and NaN, rounded to the nearest binary64 value.
-/

namespace GoalSearch.Reader

def startsWithDigit (cs : List Char) : Bool := (cs.head?.bind Text.digit?).isSome

/-- Splits the digits off the front. A single underscore may stand between two digits; `after` is set
behind a digit. -/
def digits (after : Bool) : List Char → List Nat × List Char
  | [] => ([], [])
  | c :: rest =>
    match Text.digit? c with
    | some d =>
      let (ds, tail) := digits true rest
      (d :: ds, tail)
    | none => if after && c == '_' && startsWithDigit rest then digits false rest else ([], c :: rest)

/-- The number that decimal digits write, most significant first. -/
def ofDigits (ds : List Nat) : Nat := ds.foldl (fun n d => 10 * n + d) 0

/-- Splits a sign off the front; the flag is set for a minus. -/
def sign : List Char → Bool × List Char
  | '+' :: rest => (false, rest)
  | '-' :: rest => (true, rest)
  | rest => (false, rest)

/-- The most digits an integer may be written with. -/
def maxDigits : Nat := 4300

def int? (text : String) : Option Int :=
  let (negative, rest) := sign (Text.trim text.toList)
  let (ds, rest) := digits false rest
  if ds.isEmpty || !rest.isEmpty || maxDigits < ds.length then none
  else some (if negative then -(ofDigits ds : Int) else ofDigits ds)

/-- The value nearest to `n * 10 ^ e`, infinity beyond the largest finite one. Exponents that leave
the range anyhow are cut off, with `places` bounding the digits of `n`. -/
def scaled (n : Nat) (places : Nat) (e : Int) : Float :=
  if n == 0 || e + places < -400 then 0.0
  else if 400 < e then Binary64.infinity
  else (Binary64.ofRatio? (n * Nat.pow 10 e.toNat) (Nat.pow 10 (-e).toNat)).getD Binary64.infinity

def exponent? (cs : List Char) : Option Int :=
  let (negative, rest) := sign cs
  let (ds, rest) := digits false rest
  if ds.isEmpty || !rest.isEmpty then none
  else some (if negative then -(ofDigits ds : Int) else ofDigits ds)

/-- Reads a decimal without sign: digits, a point and digits, one of the two groups being allowed to
be empty, and an exponent. -/
def decimal? (cs : List Char) : Option Float :=
  let (whole, rest) := digits false cs
  let (places, rest) := match rest with
    | '.' :: rest => digits false rest
    | rest => ([], rest)
  if whole.isEmpty && places.isEmpty then none
  else
    let e? := match rest with
      | [] => some 0
      | c :: rest => if c == 'e' || c == 'E' then exponent? rest else none
    e?.map fun e =>
      scaled (ofDigits (whole ++ places)) (whole ++ places).length (e - places.length)

def float? (text : String) : Option Float :=
  let (negative, rest) := sign (Text.trim text.toList)
  let magnitude? :=
    match String.ofList (rest.map Char.toLower) with
    | "inf" | "infinity" => some Binary64.infinity
    | "nan" => some Binary64.nan
    | _ => decimal? rest
  magnitude?.map fun x => if negative then -x else x

end GoalSearch.Reader
