import GoalSearch.Number.Reader
import GoalSearch.Number.Shortest
import GoalSearch.Statement

/-!
# Statements in JSON

`Statement.toJson` writes a statement and `Statement.ofJson?` reads one. A number with a point or an
exponent is read as a binary64 value, any other as an integer of any size.
-/

namespace GoalSearch.Statement

/-! ## Writing -/

def writeChar (acc : String) (c : Char) : String :=
  if c = '"' then acc ++ "\\\""
  else if c = '\\' then acc ++ "\\\\"
  else if c.toNat < 32 then
    let digits := Nat.toDigits 16 c.toNat
    acc ++ "\\u" ++ String.ofList (List.replicate (4 - digits.length) '0' ++ digits)
  else acc.push c

def writeText (acc s : String) : String := s.foldl writeChar (acc.push '"') |>.push '"'

mutual

def write (acc : String) : Statement → String
  | null => acc ++ "null"
  | bool b => acc ++ (if b then "true" else "false")
  | int n => acc ++ toString n
  | real x => acc ++ Shortest.text x
  | text s => writeText acc s
  | list items => (writeItems (acc.push '[') false items).push ']'
  | record fields => (writeFields (acc.push '\x7b') false fields).push '\x7d'

/-- Appends statements, with commas in front of all but the first. -/
def writeItems (acc : String) (comma : Bool) : List Statement → String
  | [] => acc
  | x :: rest => writeItems (write (if comma then acc.push ',' else acc) x) true rest

def writeFields (acc : String) (comma : Bool) : List (String × Statement) → String
  | [] => acc
  | (key, x) :: rest =>
    let acc := writeText (if comma then acc.push ',' else acc) key
    writeFields (write (acc.push ':') x) true rest

end

def toJson (s : Statement) : String := write "" s

/-! ## Reading -/

def hexDigit (c : Char) : Nat :=
  if c.isDigit then c.toNat - 48 else if c.isUpper then c.toNat - 55 else c.toNat - 87

def readUnit : List Char → Option (Nat × List Char)
  | a :: b :: c :: d :: rest => some ([a, b, c, d].foldl (fun n c => 16 * n + hexDigit c) 0, rest)
  | _ => none

def readLow : List Char → Option (Nat × List Char)
  | '\\' :: 'u' :: rest =>
    (readUnit rest).filter fun (low, _) => decide (0xDC00 ≤ low ∧ low < 0xE000)
  | _ => none

def readEscape : List Char → Option (Char × List Char)
  | 'u' :: rest => do
    let (unit, rest) ← readUnit rest
    if 0xD800 ≤ unit ∧ unit < 0xDC00 then
      match readLow rest with
      | some (low, rest) =>
        return (Char.ofNat (0x10000 + (unit - 0xD800) * 0x400 + (low - 0xDC00)), rest)
      | none => return (Char.ofNat unit, rest)
    else return (Char.ofNat unit, rest)
  | 'n' :: rest => some ('\n', rest)
  | 't' :: rest => some ('\t', rest)
  | 'r' :: rest => some ('\r', rest)
  | 'b' :: rest => some ('\x08', rest)
  | 'f' :: rest => some ('\x0c', rest)
  | c :: rest => some (c, rest)
  | [] => none

def readText : Nat → String → List Char → Option (String × List Char)
  | _, acc, '"' :: rest => some (acc, rest)
  | fuel + 1, acc, '\\' :: rest => do
    let (c, rest) ← readEscape rest
    readText fuel (acc.push c) rest
  | fuel + 1, acc, c :: rest => readText fuel (acc.push c) rest
  | _, _, _ => none

def inNumber (c : Char) : Bool := c.isDigit || c ∈ ['+', '-', '.', 'e', 'E']

def readNumber (cs : List Char) : Option (Statement × List Char) := do
  let token := cs.takeWhile inNumber
  let s := String.ofList token
  let x ← if token.any (· ∈ ['.', 'e', 'E']) then (Reader.float? s).map real
    else (Reader.int? s).map int
  return (x, cs.dropWhile inNumber)

def skip (cs : List Char) : List Char := cs.dropWhile Char.isWhitespace

mutual

def read : Nat → List Char → Option (Statement × List Char)
  | 0, _ => none
  | fuel + 1, cs =>
    match skip cs with
    | '\x7b' :: rest => readFields fuel [] rest
    | '[' :: rest => readItems fuel [] rest
    | '"' :: rest => (readText fuel "" rest).map fun (s, rest) => (text s, rest)
    | 't' :: 'r' :: 'u' :: 'e' :: rest => some (bool true, rest)
    | 'f' :: 'a' :: 'l' :: 's' :: 'e' :: rest => some (bool false, rest)
    | 'n' :: 'u' :: 'l' :: 'l' :: rest => some (null, rest)
    | rest => readNumber rest

def readItems : Nat → List Statement → List Char → Option (Statement × List Char)
  | 0, _, _ => none
  | fuel + 1, acc, cs =>
    match skip cs with
    | ']' :: rest => some (list acc.reverse, rest)
    | ',' :: rest => readItems fuel acc rest
    | rest => do
      let (x, rest) ← read fuel rest
      readItems fuel (x :: acc) rest

def readFields : Nat → List (String × Statement) → List Char → Option (Statement × List Char)
  | 0, _, _ => none
  | fuel + 1, acc, cs =>
    match skip cs with
    | '\x7d' :: rest => some (record acc.reverse, rest)
    | ',' :: rest => readFields fuel acc rest
    | '"' :: rest => do
      let (key, rest) ← readText fuel "" rest
      let (x, rest) ← read fuel ((skip rest).drop 1)
      readFields fuel ((key, x) :: acc) rest
    | _ => none

end

/-- Reads a statement that fills a text. Every step takes a character, so the length bounds them. -/
def ofJson? (s : String) : Option Statement := do
  let (x, rest) ← read (2 * s.length + 2) s.toList
  if (skip rest).isEmpty then return x else none

end GoalSearch.Statement
