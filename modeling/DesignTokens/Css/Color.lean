import DesignTokens.Css.Value

/-!
# Colors

* `colorSpace`, `colorText`: a color object in the notation of its color space;
* `featureQuery?`: the query for color spaces that not every browser knows;
* `convertColor`, `innerColor`: a color token, and a color inside a composite value.
-/

namespace DesignTokens

/-- The query for a color space that not every browser knows. -/
def featureQuery? (space : String) : Option String :=
  if space = "oklch" then some "@supports (color: oklch(0 0 0))"
  else if space = "display-p3" then some "@supports (color: color(display-p3 0 0 0))"
  else none

/-- The name of the color space of a color object. -/
def colorSpace (path : String) (color : Json) : Except ConvertError String :=
  match (color.member? "colorSpace").bind Json.string? with
  | some space => .ok space
  | none => .error (.invalidValue path "color" "missing 'colorSpace'")

/-- The numbers among the components of a color object. -/
def components (color : Json) : List Float :=
  (((color.member? "components").bind Json.items?).getD []).filterMap Json.float?

/-- The opacity behind a slash, unless it is 1. -/
def alphaText (color : Json) : String :=
  match (color.member? "alpha").bind Json.float? with
  | some alpha => if alpha != 1 then " / " ++ formatNumber alpha else ""
  | none => ""

/-- A component from 0 to 1 as a whole number from 0 to 255. -/
def channel (x : Float) : String := toString (x * 255).round.toInt64.toInt

/-- A color object in the notation of its color space. -/
def colorText (path : String) (color : Json) : Except ConvertError String := do
  let space ← colorSpace path color
  match components color with
  | [a, b, c] =>
    let alpha := alphaText color
    let x := formatNumber a
    let y := formatNumber b
    let z := formatNumber c
    if space = "srgb" then
      return "rgb(" ++ channel a ++ " " ++ channel b ++ " " ++ channel c ++ alpha ++ ")"
    else if space = "display-p3" then
      return s!"color(display-p3 {x} {y} {z}{alpha})"
    else if space = "oklch" then
      return s!"oklch({x} {y} {z}{alpha})"
    else if space = "hsl" then
      return s!"hsl({x} {y}% {z}%{alpha})"
    else throw (.unsupportedColorSpace path space)
  | _ => throw (.invalidValue path "color" "expected three numeric components")

/-- The hexadecimal stand-in of a color object. -/
def hexFallback (path space : String) (color : Json) : Except ConvertError String :=
  match (color.member? "hex").bind Json.string? with
  | some hex => .ok hex
  | none => .error (.missingHexFallback path space)

/-- A color token: text as it is, an object in the notation of its space, or its stand-in with the
notation behind a query. -/
def convertColor (transforms : Transforms) (path : String) (o : Operand) :
    Except ConvertError CssValue :=
  match o.raw with
  | .str text => .ok (.single text)
  | _ => do
    let space ← colorSpace path o.resolved
    let native ← colorText path o.resolved
    match transforms.colorFallback, featureQuery? space with
    | .polyfill, some query =>
      let hex ← hexFallback path space o.resolved
      return ⟨.single hex, [⟨query, native⟩]⟩
    | _, _ => return .single native

/-- A color inside a composite value, where no query is possible. -/
def innerColor (transforms : Transforms) (path : String) (o : Operand) :
    Except ConvertError String :=
  match o.raw with
  | .str text => .ok text
  | _ => do
    let space ← colorSpace path o.resolved
    let native ← colorText path o.resolved
    match transforms.colorFallback, featureQuery? space with
    | .polyfill, some _ => hexFallback path space o.resolved
    | _, _ => return native

end DesignTokens
