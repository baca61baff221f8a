import DesignTokens.Json.Basic

/-!
# Number literals

The value of a JSON number as written.

* `Literal`: sign, whole digits, fraction digits and exponent;
* `absorb`: digits read into a word of 64 bits, as long as they fit;
* `scaleBy`: a double times a power of ten, by one multiplication or division while the power is a
  double;
* `Literal.value?`: the number. Without fraction and exponent a literal that fits 64 bits is whole.
  Every other one is a double: its digits as a word (those that do not fit only count for the power
  of ten), scaled. A literal beyond the doubles has no value, and one below them is zero.
-/

namespace DesignTokens.Json

/-- A number as written; digits are numbers below ten. -/
structure Literal where
  negative : Bool
  whole : List Nat
  fraction : List Nat
  /-- The signed exponent, when one is written. -/
  exponent : Option Int
  /-- Whether a point is written. -/
  pointed : Bool
  deriving DecidableEq, Repr

/-- Digits read after `word` while the result fits 64 bits: the new word, the number of digits read,
and the number of digits left. -/
def absorb (word : Nat) : List Nat → Nat × Nat × Nat
  | [] => (word, 0, 0)
  | d :: rest =>
    if word * 10 + d < Nat.pow 2 64 then
      let (word', read, left) := absorb (word * 10 + d) rest
      (word', read + 1, left)
    else (word, 0, rest.length + 1)

/-- A power of ten as a double. -/
def powerOfTen (n : Nat) : Float := Float.ofScientific 1 false n

/-- A double divided by a power of ten. -/
def divideBy (x : Float) (n : Nat) : Float :=
  if n ≤ 308 then x / powerOfTen n
  else if x == 0 then x
  else divideBy (x / powerOfTen 308) (n - 308)
termination_by n

/-- A double times a power of ten; none beyond the doubles. -/
def scaleBy (x : Float) (e : Int) : Option Float :=
  if e < 0 then some (divideBy x e.natAbs)
  else if e ≤ 308 then
    let y := x * powerOfTen e.natAbs
    if y.isInf then none else some y
  else if x == 0 then some x else none

/-- The number that a literal stands for, if there is one. -/
def Literal.value? (l : Literal) : Option Number :=
  let (whole, _, left) := absorb 0 l.whole
  if l.pointed || l.exponent.isSome || left != 0 then
    let (word, read, _) := absorb whole l.fraction
    let scaled := scaleBy (UInt64.ofNat word).toFloat (left - read + l.exponent.getD 0)
    scaled.map fun x => .double (if l.negative then -x else x)
  else if !l.negative then some (.integer whole)
  else if 0 < whole && whole ≤ Nat.pow 2 63 then some (.integer (-whole))
  else some (.double (-(UInt64.ofNat whole).toFloat))

end DesignTokens.Json
