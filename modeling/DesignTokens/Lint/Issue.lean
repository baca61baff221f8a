import DesignTokens.Json.Basic
import DesignTokens.Lint.Diagnostic

/-!
# Issues

* `Issue`: a problem in a value, before it is known whose value it is;
* `Issue.under`, `issuesUnder`: the issues of a part, seen from the whole;
* `between`: the check of a range.
-/

namespace DesignTokens

/-- A problem in a value. -/
structure Issue where
  level : Level
  /-- The dotted path of the part that is wrong; none for the whole value. -/
  property : Option String
  message : String
  suggestion : Option String
  deriving DecidableEq, Repr

namespace Issue

/-- An error about the whole value. -/
def error (message : String) : Issue := ⟨.error, none, message, none⟩

/-- A warning about the whole value. -/
def warning (message : String) : Issue := ⟨.warning, none, message, none⟩

/-- The issue of the part under `property`. -/
def under (property : String) (i : Issue) : Issue :=
  { i with property := match i.property with
      | some part => some (property ++ "." ++ part)
      | none => some property }

/-- The issue with a proposal. -/
def suggest (suggestion : String) (i : Issue) : Issue := { i with suggestion := some suggestion }

end Issue

/-- The issues of the part under `property`. -/
def issuesUnder (property : String) (issues : List Issue) : List Issue :=
  issues.map (·.under property)

/-- Whether a number lies between two others, or is one of them. -/
def between (low high x : Float) : Bool := low ≤ x && x ≤ high

end DesignTokens
