/-!
# Powers

* `powerTimes`, `power`: powers by repeated squaring, over any multiplication;
* `powerTimes_nat`: over the natural numbers it is the power;
* `tenTo`: a power of ten as a double. Every product on the way is rounded, so a great power may miss
  the double next to it.
-/

namespace DesignTokens.Decimal

/-- `acc · base ^ n`: one squaring of the base for each binary digit of `n`. -/
def powerTimes {α : Type} [Mul α] (acc base : α) (n : Nat) : α :=
  if h : n = 0 then acc
  else powerTimes (if n % 2 = 1 then acc * base else acc) (base * base) (n / 2)
termination_by n
decreasing_by exact Nat.div_lt_self (Nat.pos_of_ne_zero h) (by decide)

/-- The power of a number. -/
def power {α : Type} [Mul α] [OfNat α 1] (base : α) (n : Nat) : α := powerTimes 1 base n

theorem powerTimes_nat (acc base n : Nat) : powerTimes acc base n = acc * base.pow n := by
  induction n using Nat.strongRecOn generalizing acc base with
  | _ n ih =>
    rw [powerTimes]
    split
    · next h => simp [h]
    · next h =>
      rw [ih _ (Nat.div_lt_self (Nat.pos_of_ne_zero h) (by decide)), Nat.pow_eq, Nat.pow_eq,
        ← Nat.pow_two, ← Nat.pow_mul]
      have hn := Nat.div_add_mod n 2
      split
      · next h1 =>
        rw [Nat.mul_assoc, Nat.mul_comm base, ← Nat.pow_succ]
        congr 2
        omega
      · next h1 =>
        congr 2
        omega

/-- A power of ten; for a negative exponent the reciprocal of the opposite power. -/
def tenTo (e : Int) : Float :=
  let p := power (10 : Float) e.natAbs
  if e < 0 then 1 / p else p

end DesignTokens.Decimal
