import DesignTokens.Css.Color
import DesignTokens.Css.Fluid
import DesignTokens.Css.Scalar
import DesignTokens.Reference

/-!
# Composite values

* `convertBorder`, `convertShadow`, `convertTransition`, `convertGradient`: one text each; absent
  properties are left out;
* `convertTypography`: one entry for each sub-property; `typographyAlias`: for a token that refers to
  another text style, the entries refer to those of the other one.
-/

namespace DesignTokens

variable (transforms : Transforms) (path : String)

/-- The text of a property, if it is there. -/
def Operand.part (o : Operand) (key : String) (text : Json → String) : List String :=
  ((o.member? key).map fun p => text p.raw).toList

/-- The color property, if it is there. -/
def Operand.colorPart (o : Operand) : Except ConvertError (List String) :=
  match o.member? "color" with
  | some c => do return [← innerColor transforms path c]
  | none => .ok []

/-! ## Borders, shadows and transitions -/

/-- Width, style and color of a border. -/
def convertBorder (o : Operand) : Except ConvertError String := do
  let color ← o.colorPart transforms path
  return Text.join " " (o.part "width" dimensionText ++ o.part "style" strokeText ++ color)

/-- One layer of a shadow: the offsets and the blur are always there. -/
def convertLayer (o : Operand) : Except ConvertError String :=
  match o.raw with
  | .str reference => .ok reference
  | _ => do
    let inset := if (o.resolved.member? "inset").bind Json.bool? = some true then ["inset"] else []
    let lengths := ["offsetX", "offsetY", "blur"].map fun key =>
      ((o.member? key).map fun p => dimensionText p.raw).getD "0"
    let color ← o.colorPart transforms path
    return Text.join " " (inset ++ lengths ++ o.part "spread" dimensionText ++ color)

/-- The items of an array as written, as operands. -/
def Operand.items (o : Operand) : List Operand :=
  (List.range ((o.raw.items?.getD []).length)).filterMap o.item?

/-- A shadow: one layer, or several. -/
def convertShadow (o : Operand) : Except ConvertError String :=
  match o.raw with
  | .arr _ => do
    let layers ← o.items.mapM (convertLayer transforms path)
    return Text.join ", " layers
  | _ => convertLayer transforms path o

/-- Duration, timing function and delay of a transition. -/
def convertTransition (o : Operand) : String :=
  Text.join " " (o.part "duration" dimensionText ++ o.part "timingFunction" bezierText ++
    o.part "delay" dimensionText)

/-! ## Gradients -/

/-- The position of a stop, a fraction of the gradient line, in percent. -/
def positionText : Json → String
  | .num n => formatNumber (n.toFloat * 100) ++ "%"
  | .str reference => "calc(" ++ reference ++ " * 100%)"
  | j => scalarText j

/-- A stop: its color and its position. -/
def convertStop (o : Operand) : Except ConvertError String := do
  let color ← match o.member? "color" with
    | some c => innerColor transforms path c
    | none => .ok "transparent"
  return Text.join " " (color :: o.part "position" positionText)

/-- The stops of a gradient behind its angle. -/
def convertStops (angle : List String) (stops : Operand) : Except ConvertError String := do
  let texts ← stops.items.mapM (convertStop transforms path)
  return Text.join ", " (angle ++ texts)

/-- A gradient: a list of stops is a linear one; an object has a kind, an angle and stops. -/
def convertGradient (o : Operand) : Except ConvertError String :=
  match o.raw with
  | .arr _ => do return "linear-gradient(" ++ (← convertStops transforms path [] o) ++ ")"
  | _ => do
    let kind := ((o.resolved.member? "type").bind Json.string?).getD "linear"
    match o.member? "stops" with
    | none => return kind ++ "-gradient()"
    | some stops =>
      let angle := (o.part "angle" angleText).map fun a => if kind = "conic" then "from " ++ a else a
      return kind ++ "-gradient(" ++ (← convertStops transforms path angle stops) ++ ")"

/-! ## Text styles -/

/-- The properties of a text style, and the sub-properties that they become. -/
def typographyProperties : List (String × String) :=
  [("fontFamily", "font-family"), ("fontSize", "font-size"), ("fontWeight", "font-weight"),
    ("letterSpacing", "letter-spacing"), ("lineHeight", "line-height")]

/-- Whether a size has both bounds, other than through a reference to the whole size. -/
def Operand.isFluid (o : Operand) : Bool :=
  o.raw.string?.isNone && o.resolved.hasMember "min" && o.resolved.hasMember "max"

/-- The text of one property of a text style. -/
def convertStyle (key : String) (o : Operand) : Except ConvertError String :=
  if key = "fontFamily" then .ok (familyText o.raw)
  else if key = "fontWeight" then .ok (weightText o.raw)
  else if key = "fontSize" && o.isFluid then convertFluid transforms path o
  else .ok (dimensionText o.raw)

/-- One entry for each property that is there. -/
def convertTypography (o : Operand) : Except ConvertError CssValue := do
  let parts ← typographyProperties.filterMapM fun (key, property) =>
    match o.member? key with
    | none => .ok none
    | some part => do return some (property, ← convertStyle transforms path key part)
  return ⟨.entries parts, []⟩

/-- One entry for each property that the text style referred to has. -/
def typographyAlias (r : Reference) (resolved : Json) : CssValue :=
  let present := typographyProperties.filter fun (key, _) => resolved.hasMember key
  ⟨.entries (present.map fun (_, property) => (property, Reference.text ⟨r.path ++ "." ++ property⟩)),
    []⟩

end DesignTokens
