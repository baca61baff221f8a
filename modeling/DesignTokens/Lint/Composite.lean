import DesignTokens.Lint.Scalar
import DesignTokens.Text.Blank

/-!
# Checks of composite values

* `Field`, `checkFields`: an object with required and optional properties;
* `checkBorder`, `checkShadow`, `checkTransition`, `checkTypography`, `checkGradient`. Issues of a
  property are found under its name, those of a layer or a stop under its number.
-/

namespace DesignTokens

/-! ## Parts -/

/-- The keywords of stroke styles. -/
def strokeKeywords : List String :=
  ["solid", "dashed", "dotted", "double", "groove", "ridge", "outset", "inset"]

/-- The issues of a stroke style: a keyword, or an object with dashes. -/
def checkStroke : Json → List Issue
  | .str keyword =>
    if keyword ∈ strokeKeywords then [] else [.error s!"Unknown stroke style '{keyword}'"]
  | .obj members =>
    if (Json.obj members).hasMember "dashArray" then []
    else [.error "Stroke style must be a keyword or an object with 'dashArray'"]
  | _ => [.error "Stroke style must be a keyword or an object with 'dashArray'"]

/-- The issues of a font family: a name, or a list of names. -/
def checkFontFamily (family : Json) : List Issue :=
  let valid := match family with
    | .str name => !(Text.trim name).isEmpty
    | .arr names => !names.isEmpty && names.all fun n => n.string?.isSome
    | _ => false
  if valid then [] else [.error "Font family must be a name or a list of names"]

/-- The issues of a line height: a number, or a dimension. -/
def checkLineHeight (height : Json) : List Issue :=
  if height.float?.isSome then [] else checkDimension height

/-- The issues of the position of a stop: a number from 0 to 1. -/
def checkPosition (position : Json) : List Issue :=
  if (position.float?.map (between 0 1)).getD false then []
  else [.error "Gradient stop position must be a number between 0 and 1"]

/-- The issues of a truth value. -/
def checkFlag (flag : Json) : List Issue :=
  if flag.bool?.isSome then [] else [.error "Expected true or false"]

/-! ## Objects -/

/-- A property of an object. -/
structure Field where
  name : String
  required : Bool
  check : Json → List Issue

/-- The issues of one property. -/
def Field.issues (kind : String) (value : Json) (f : Field) : List Issue :=
  match value.member? f.name with
  | some part => issuesUnder f.name (f.check part)
  | none =>
    if f.required then [(Issue.error s!"{kind} is missing '{f.name}'").under f.name] else []

/-- The issues of an object with the properties. -/
def checkFields (kind : String) (fields : List Field) (value : Json) : List Issue :=
  match value with
  | .obj _ => fields.flatMap (·.issues kind value)
  | _ => [.error s!"{kind} value must be an object"]

/-- The issues of numbered parts. -/
def checkNumbered (check : Json → List Issue) (parts : List Json) : List Issue :=
  parts.zipIdx.flatMap fun (part, index) => issuesUnder (toString index) (check part)

/-- The issues of a border. -/
def checkBorder : Json → List Issue :=
  checkFields "Border" [
    ⟨"color", true, checkColor⟩,
    ⟨"width", true, checkDimension⟩,
    ⟨"style", true, checkStroke⟩]

/-- The issues of one layer of a shadow. -/
def checkLayer : Json → List Issue :=
  checkFields "Shadow" [
    ⟨"color", true, checkColor⟩,
    ⟨"offsetX", true, checkDimension⟩,
    ⟨"offsetY", true, checkDimension⟩,
    ⟨"blur", true, checkDimension⟩,
    ⟨"spread", false, checkDimension⟩,
    ⟨"inset", false, checkFlag⟩]

/-- The issues of a shadow: one layer, or a list of them. -/
def checkShadow : Json → List Issue
  | .arr [] => [.error "Shadow list must not be empty"]
  | .arr layers => checkNumbered checkLayer layers
  | layer => checkLayer layer

/-- The issues of a transition. -/
def checkTransition : Json → List Issue :=
  checkFields "Transition" [
    ⟨"duration", true, checkDuration⟩,
    ⟨"delay", false, checkDuration⟩,
    ⟨"timingFunction", true, checkCubicBezier⟩]

/-- The issues of a text style. -/
def checkTypography : Json → List Issue :=
  checkFields "Typography" [
    ⟨"fontFamily", true, checkFontFamily⟩,
    ⟨"fontSize", true, checkSize⟩,
    ⟨"fontWeight", false, checkFontWeight⟩,
    ⟨"letterSpacing", false, checkDimension⟩,
    ⟨"lineHeight", false, checkLineHeight⟩]

/-- The issues of the stops of a gradient: at least two. -/
def checkStops (stops : List Json) : List Issue :=
  if stops.length < 2 then [.error "Gradient needs at least two stops"]
  else checkNumbered (checkFields "Gradient stop" [
    ⟨"color", true, checkColor⟩,
    ⟨"position", true, checkPosition⟩]) stops

/-- The issues of a gradient: a list of stops, or an object with one. -/
def checkGradient : Json → List Issue
  | .arr stops => checkStops stops
  | .obj members =>
    match ((Json.obj members).member? "stops").bind Json.items? with
    | some stops => issuesUnder "stops" (checkStops stops)
    | none => [(Issue.error "Gradient is missing 'stops'").under "stops"]
  | _ => [.error "Gradient must be a list of stops or an object with 'stops'"]

end DesignTokens
