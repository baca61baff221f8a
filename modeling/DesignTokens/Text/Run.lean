/-!
# Runs of code points

A Unicode property is a list of runs: code points from a first to a last one, every one of them or
every second one.

* `Run`, `Run.covers`: one run;
* `inRuns`: a character in some run of a table.
-/

namespace DesignTokens.Text

/-- The code points `first`, `first + step`, …, up to `last`. -/
structure Run where
  first : Nat
  last : Nat
  step : Nat
  deriving DecidableEq, Repr

/-- Whether the run holds the code point `n`. -/
def Run.covers (r : Run) (n : Nat) : Bool :=
  r.first ≤ n && n ≤ r.last && (n - r.first) % r.step == 0

/-- Whether some run of the table holds the character. -/
def inRuns (runs : List Run) (c : Char) : Bool :=
  runs.any (·.covers c.toNat)

end DesignTokens.Text
