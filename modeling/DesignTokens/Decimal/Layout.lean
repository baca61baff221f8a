import DesignTokens.Decimal.Shortest

/-!
# Laying out decimals

How the digits of a number become text.

* `Layout`: which exponents are written positionally and whether a whole number keeps a fraction;
* `Layout.text`: the text of a binary number of 64 bits;
* `positional`, `scientific`: the two forms.
-/

namespace DesignTokens.Decimal

/-- A way to write numbers. -/
structure Layout where
  /-- Of two equally near shortest decimals, the one that is written. -/
  tie : Tie
  /-- The least and the greatest exponent of the first digit that are written positionally; without
  them every number is. -/
  range : Option (Int × Int)
  /-- Whether a whole number is written with `.0`. -/
  wholeFraction : Bool

/-- The digits `n · 10 ^ e` with the point in its place. -/
def positional (wholeFraction : Bool) (n : Nat) (e : Int) : String :=
  let digits := Nat.toDigits 10 n
  if e ≥ 0 then
    String.ofList (digits ++ List.replicate e.toNat '0') ++ (if wholeFraction then ".0" else "")
  else
    let places := (-e).toNat
    let padded := List.replicate (places + 1 - digits.length) '0' ++ digits
    let whole := padded.length - places
    String.ofList (padded.take whole) ++ "." ++ String.ofList (padded.drop whole)

/-- One digit before the point, and the signed exponent of that digit. -/
def scientific (n : Nat) (top : Int) : String :=
  let sign := if top < 0 then "e-" else "e+"
  let mantissa := match Nat.toDigits 10 n with
    | [] => ""
    | [d] => String.ofList [d]
    | d :: rest => String.ofList (d :: '.' :: rest)
  mantissa ++ sign ++ toString top.natAbs

/-- `n` without the zeros at its end, and their number. -/
def dropZeros (n : Nat) : Nat × Nat :=
  let zeros := ((Nat.toDigits 10 n).reverse.takeWhile (· == '0')).length
  if n = 0 then (0, 0) else (n / Nat.pow 10 zeros, zeros)

/-- The text of a finite number without its sign. -/
def Layout.magnitude (l : Layout) (b : Binary) : String :=
  let s := b.shortest l.tie
  let (n, zeros) := dropZeros s.significand
  let e := s.exponent + zeros
  let top := e + digitCount n - 1
  match l.range with
  | none => positional l.wholeFraction n e
  | some (least, greatest) =>
    if least ≤ top ∧ top ≤ greatest then positional l.wholeFraction n e else scientific n top

/-- The text of a number; the sign of zero is written. -/
def Layout.text (l : Layout) (x : Float) : String :=
  if x.isNaN then "NaN"
  else
    let sign := if x.toBits.toNat / Nat.pow 2 63 = 1 then "-" else ""
    sign ++ (if x.isInf then "inf" else l.magnitude (Binary.ofBits x.toBits))

/-- Numbers without an exponent, whole numbers without a fraction. -/
def plain : Layout := ⟨.up, none, false⟩

end DesignTokens.Decimal
