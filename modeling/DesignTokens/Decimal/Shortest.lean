/-!
# Shortest decimals

The decimal with the fewest digits that reads back as a given binary number, and of those the
nearest.

* `Binary`: a positive number `mantissa · 2 ^ exponent` with 53 bits of mantissa;
* `Binary.span`: the numbers that round to it, as fractions over one denominator;
* `Tie`: which of two equally near decimals is taken;
* `Binary.shortest`: the decimal, `significand · 10 ^ exponent`. On the grid of 1, 2, … 17 digits the
  two neighbours of the number are tried; the first grid with a neighbour in the span wins.
-/

namespace DesignTokens.Decimal

/-- A positive number `mantissa · 2 ^ exponent`. -/
structure Binary where
  mantissa : Nat
  exponent : Int
  deriving DecidableEq, Repr

/-- A number `significand · 10 ^ exponent`. -/
structure Scaled where
  significand : Nat
  exponent : Int
  deriving DecidableEq, Repr

/-- Which of two equally near decimals is taken. -/
inductive Tie where
  | up
  | toEven
  deriving DecidableEq, Repr

/-- The finite number that 64 bits stand for, without its sign. -/
def Binary.ofBits (bits : UInt64) : Binary :=
  let fraction : Nat := bits.toNat % Nat.pow 2 52
  let biased : Nat := bits.toNat / Nat.pow 2 52 % Nat.pow 2 11
  if biased = 0 then ⟨fraction, -1074⟩ else ⟨fraction + Nat.pow 2 52, (biased : Int) - 1075⟩

/-- The numbers that round to one number: between `low` and `high`, each over `den`. -/
structure Span where
  low : Nat
  value : Nat
  high : Nat
  den : Nat
  closed : Bool
  deriving DecidableEq, Repr

/-- Half a unit to both sides, but a quarter below a power of two; the ends belong to the span of an
even mantissa. -/
def Binary.span (b : Binary) : Span :=
  let scale := Nat.pow 2 b.exponent.toNat
  let below := if b.mantissa = Nat.pow 2 52 ∧ b.exponent > -1074 then 1 else 2
  { low := (4 * b.mantissa - below) * scale
    value := 4 * b.mantissa * scale
    high := (4 * b.mantissa + 2) * scale
    den := 4 * Nat.pow 2 (-b.exponent).toNat
    closed := b.mantissa % 2 == 0 }

/-- The span measured in units of `10 ^ k`. -/
def Span.rescale (s : Span) (k : Int) : Span :=
  let down := Nat.pow 10 k.toNat
  let up := Nat.pow 10 (-k).toNat
  { s with low := s.low * up, value := s.value * up, high := s.high * up, den := s.den * down }

/-- Whether the whole number `n` lies in the span. -/
def Span.holds (s : Span) (n : Nat) : Bool :=
  let x := n * s.den
  if s.closed then s.low ≤ x && x ≤ s.high else s.low < x && x < s.high

/-- The whole number in the span that is nearest to the value, if there is one. -/
def Span.nearest? (s : Span) (tie : Tie) : Option Nat :=
  let floor := s.value / s.den
  let rest := s.value % s.den
  match s.holds floor, s.holds (floor + 1) with
  | true, true =>
    if 2 * rest < s.den then some floor
    else if 2 * rest > s.den then some (floor + 1)
    else match tie with
      | .up => some (floor + 1)
      | .toEven => some (if floor % 2 = 0 then floor else floor + 1)
  | true, false => some floor
  | false, true => some (floor + 1)
  | false, false => none

/-- The number of decimal digits. -/
def digitCount (n : Nat) : Nat := (Nat.toDigits 10 n).length

/-- The exponent `e` with `10 ^ e ≤ num / den < 10 ^ (e + 1)`. -/
def leadingExponent (num den : Nat) : Int :=
  if num ≥ den then (digitCount (num / den) : Int) - 1
  else -(digitCount ((den - 1) / num) : Int)

/-- The grids from `digits` digits on: the first with a neighbour in the span. -/
def Span.search (s : Span) (tie : Tie) (top : Int) (digits : Nat) : Nat → Scaled
  | 0 => ⟨0, 0⟩
  | more + 1 =>
    let k := top + 1 - digits
    match (s.rescale k).nearest? tie with
    | some n => ⟨n, k⟩
    | none => s.search tie top (digits + 1) more

/-- The shortest decimal that reads back as `b`, and of those the nearest. -/
def Binary.shortest (b : Binary) (tie : Tie) : Scaled :=
  if b.mantissa = 0 then ⟨0, 0⟩
  else b.span.search tie (leadingExponent b.span.value b.span.den) 1 17

end DesignTokens.Decimal
