/-!
# The Mersenne twister

A generator of 32-bit words with 624 words of state, of period `2 ^ 19937 - 1`. `ofKey` spreads a key
of any length over the state, `next` hands out one tempered word and recomputes the state when all
words are used.
-/

namespace GoalSearch

/-- The state words and the number of words already handed out. -/
structure Twister where
  words : Array UInt32
  used : Nat

namespace Twister

def degree : Nat := 624

/-- A word depends on the word this many places further on. -/
def middle : Nat := 397

def word (a : Array UInt32) (i : Nat) : UInt32 := a.getD i 0

def fold (w : UInt32) : UInt32 := w ^^^ (w >>> 30)

def ofWord (seed : UInt32) : Array UInt32 :=
  (List.range (degree - 1)).foldl
    (fun a i => a.push (1812433253 * fold (word a i) + (i + 1).toUInt32)) #[seed]

/-- One step of spreading a key: changes the word at `i` by its left neighbour, and closes the ring
after the last word. Returns the next position. -/
def spread (mix : UInt32 → UInt32 → UInt32) (a : Array UInt32) (i : Nat) : Array UInt32 × Nat :=
  let a := a.setIfInBounds i (mix (word a i) (fold (word a (i - 1))))
  if i + 1 < degree then (a, i + 1) else (a.setIfInBounds 0 (word a (degree - 1)), 1)

/-- The generator for a key, given by its words from the least significant on. -/
def ofKey (key : Array UInt32) : Twister :=
  let (a, i) := (List.range (max degree key.size)).foldl
    (fun (a, i) k =>
      let j := k % key.size
      spread (fun w left => (w ^^^ (left * 1664525)) + word key j + j.toUInt32) a i)
    (ofWord 19650218, 1)
  let (a, _) := (List.range (degree - 1)).foldl
    (fun (a, i) _ => spread (fun w left => (w ^^^ (left * 1566083941)) - i.toUInt32) a i) (a, i)
  ⟨a.setIfInBounds 0 0x80000000, degree⟩

/-- The 32-bit words of a number, least significant first; a single zero word for zero. -/
def keyWords (n : Nat) : Array UInt32 :=
  ((List.range (n.log2 / 32 + 1)).map fun k => (n >>> (32 * k)).toUInt32).toArray

def ofSeed (seed : Int) : Twister := ofKey (keyWords seed.natAbs)

/-- Recomputes the word at `i` from its right neighbour and the word `middle` places further on. -/
def renew (a : Array UInt32) (i : Nat) : Array UInt32 :=
  let y := (word a i &&& 0x80000000) ||| (word a ((i + 1) % degree) &&& 0x7FFFFFFF)
  let twist : UInt32 := if y &&& 1 == 0 then 0 else 0x9908B0DF
  a.setIfInBounds i (word a ((i + middle) % degree) ^^^ (y >>> 1) ^^^ twist)

/-- Spreads the bits of a state word over the word that is handed out. -/
def temper (y : UInt32) : UInt32 :=
  let y := y ^^^ (y >>> 11)
  let y := y ^^^ ((y <<< 7) &&& 0x9D2C5680)
  let y := y ^^^ ((y <<< 15) &&& 0xEFC60000)
  y ^^^ (y >>> 18)

def next : Twister → UInt32 × Twister
  | ⟨words, used⟩ =>
    if used < degree then
      (temper (word words used), ⟨words, used + 1⟩)
    else
      let words := (List.range degree).foldl renew words
      (temper (word words 0), ⟨words, 1⟩)

end Twister

end GoalSearch
