import DesignTokens.Lint.Composite
import DesignTokens.Resolution

/-!
# Rules

* `Rule`, `Rule.all`: the rules in the order in which they are applied;
* `Rule.name`, `Rule.description`, `Rule.applies`, `Rule.check`;
* `lintToken`, `lint`: the findings about one token, and about all tokens with values.
-/

namespace DesignTokens

/-- A rule for the values of some types. -/
inductive Rule where
  | color
  | dimension
  | fluidDimension
  | duration
  | cubicBezier
  | fontWeight
  | composite
  deriving DecidableEq, Repr

namespace Rule

/-- All rules in order. -/
def all : List Rule :=
  [color, dimension, fluidDimension, duration, cubicBezier, fontWeight, composite]

/-- The name of a rule. -/
def name : Rule → String
  | color => "valid-color"
  | dimension => "valid-dimension"
  | fluidDimension => "valid-fluid-dimension"
  | duration => "valid-duration"
  | cubicBezier => "valid-cubic-bezier"
  | fontWeight => "valid-font-weight"
  | composite => "composite-fields"

/-- What a rule asks for. -/
def description : Rule → String
  | color => "Colors must be hex strings or color objects with in-range components"
  | dimension => "Dimensions must be \x7b value, unit \x7d objects with a px or rem unit"
  | fluidDimension => "Fluid dimensions need valid 'min' and 'max' dimensions"
  | duration => "Durations must be non-negative \x7b value, unit \x7d objects in ms or s"
  | cubicBezier => "Cubic beziers must be four numbers with x1 and x2 between 0 and 1"
  | fontWeight => "Font weights must be 1-1000 or a known weight keyword"
  | composite => "Composite tokens must carry their required fields with valid values"

/-- Whether a rule is for a type. -/
def applies : Rule → TokenType → Bool
  | color, .color => true
  | dimension, .dimension => true
  | fluidDimension, .fluidDimension => true
  | duration, .duration => true
  | cubicBezier, .cubicBezier => true
  | fontWeight, .fontWeight => true
  | composite, .border => true
  | composite, .shadow => true
  | composite, .transition => true
  | composite, .typography => true
  | composite, .gradient => true
  | _, _ => false

/-- The issues of a value of a type that the rule is for. -/
def check (r : Rule) (type : TokenType) (value : Json) : List Issue :=
  match r with
  | color => checkColor value
  | dimension => checkDimension value
  | fluidDimension => checkFluid value
  | duration => checkDuration value
  | cubicBezier => checkCubicBezier value
  | fontWeight => checkFontWeight value
  | composite =>
    match type with
    | .border => checkBorder value
    | .shadow => checkShadow value
    | .transition => checkTransition value
    | .typography => checkTypography value
    | .gradient => checkGradient value
    | _ => []

end Rule

/-- An issue as a finding about a token. -/
def Issue.diagnostic (i : Issue) (rule : String) (t : ResolvedToken) : Diagnostic :=
  let d : Diagnostic := ⟨i.level, rule, i.message, t.path, t.token.origin, i.suggestion⟩
  match i.property with
  | some property => d.under property
  | none => d

/-- The issues of a value under each rule for its type. -/
def valueIssues (rules : List Rule) (type : TokenType) (value : Json) : List (Rule × Issue) :=
  (rules.filter (·.applies type)).flatMap fun r => (r.check type value).map (r, ·)

/-- The findings about a token; a token without a type is not looked at. -/
def lintToken (rules : List Rule) (t : ResolvedToken) : List Diagnostic :=
  match t.type with
  | none => []
  | some type => (valueIssues rules type t.value).map fun (r, i) => i.diagnostic r.name t

/-- The findings about all tokens with values. -/
def lint (rules : List Rule) (r : Resolution) : List Diagnostic :=
  r.contexts.values.flatMap fun tokens => tokens.values.flatMap (lintToken rules)

end DesignTokens
