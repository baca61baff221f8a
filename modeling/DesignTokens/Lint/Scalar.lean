import DesignTokens.Lint.Issue
import DesignTokens.TokenType

/-!
# Checks of simple values

* `isHexColor`, `checkColor`: colors as hexadecimal text or as objects;
* `checkDimension`, `checkDuration`, `checkFluid`, `checkSize`: amounts with units;
* `checkCubicBezier`, `checkFontWeight`.
-/

namespace DesignTokens

/-! ## Colors -/

/-- A hexadecimal digit of either case. -/
def isHexDigit (c : Char) : Bool :=
  c.isDigit || ('a' ≤ c && c ≤ 'f') || ('A' ≤ c && c ≤ 'F')

/-- A hash and 3, 4, 6 or 8 hexadecimal digits. -/
def isHexColor (text : String) : Bool :=
  match text.toList with
  | '#' :: digits => digits.all isHexDigit && digits.length ∈ [3, 4, 6, 8]
  | _ => false

/-- What is wrong with three components in a color space; unknown spaces are not looked at. -/
def componentFault? (space : String) (a b c : Float) : Option String :=
  let unit := between 0 1
  let hue (x : Float) := 0 ≤ x && x < 360
  let percent := between 0 100
  if space = "srgb" || space = "display-p3" then
    if unit a && unit b && unit c then none
    else some s!"{space} components must be between 0 and 1"
  else if space = "oklch" then
    if !unit a then some "oklch lightness must be between 0 and 1"
    else if b < 0 then some "oklch chroma must not be negative"
    else if !hue c then some "oklch hue must be in [0, 360)"
    else none
  else if space = "hsl" then
    if !hue a then some "hsl hue must be in [0, 360)"
    else if !percent b || !percent c then
      some "hsl saturation and lightness must be between 0 and 100"
    else none
  else none

/-- The issues of the components of a color object. -/
def checkComponents (space : String) (color : Json) : List Issue :=
  match (color.member? "components").bind Json.items? with
  | some [x, y, z] =>
    match x.float?, y.float?, z.float? with
    | some a, some b, some c =>
      match componentFault? space a b c with
      | some fault => [(Issue.error fault).under "components"]
      | none => []
    | _, _, _ => [(Issue.error "Color components must be numbers").under "components"]
  | _ => [(Issue.error "Color needs exactly three 'components'").under "components"]

/-- The issues of the opacity of a color object. -/
def checkAlpha (color : Json) : List Issue :=
  match color.member? "alpha" with
  | none => []
  | some alpha =>
    if (alpha.float?.map (between 0 1)).getD false then []
    else [(Issue.error "Alpha must be a number between 0 and 1").under "alpha"]

/-- The issues of the hexadecimal stand-in of a color object. -/
def checkHex (color : Json) : List Issue :=
  match color.member? "hex" with
  | none => []
  | some hex =>
    if (hex.string?.map isHexColor).getD false then []
    else [(Issue.error "Fallback 'hex' must be a hex color string").under "hex"]

/-- The issues of a color. -/
def checkColor : Json → List Issue
  | .str text =>
    if Text.startsWith "#" text then
      if isHexColor text then []
      else [(Issue.error s!"'{text}' is not a valid hex color").suggest
        "Use #rgb, #rgba, #rrggbb or #rrggbbaa"]
    else [.warning s!"'{text}' is not a hex color or color object and is passed through as-is"]
  | .obj members =>
    let color := Json.obj members
    match (color.member? "colorSpace").bind Json.string? with
    | none => [(Issue.error "Color object needs a 'colorSpace' string").under "colorSpace"]
    | some space => checkComponents space color ++ checkAlpha color ++ checkHex color
  | _ => [.error "Color must be a hex string or a color object"]

/-! ## Amounts with units -/

/-- The issues of a dimension: a number of `px` or `rem`. -/
def checkDimension : Json → List Issue
  | .obj members =>
    let dimension := Json.obj members
    let amount :=
      if ((dimension.member? "value").bind Json.float?).isSome then []
      else [(Issue.error "Dimension 'value' must be a number").under "value"]
    let unit := match (dimension.member? "unit").bind Json.string? with
      | some unit =>
        if unit ∈ ["px", "rem"] then []
        else [((Issue.error s!"Unsupported dimension unit '{unit}'").under "unit").suggest
          "Use px or rem"]
      | none => [(Issue.error "Dimension 'unit' must be a string").under "unit"]
    amount ++ unit
  | _ => [(Issue.error "Dimension must be an object with 'value' and 'unit'").suggest
      "Write \x7b \"value\": 16, \"unit\": \"px\" \x7d"]

/-- The issues of a duration: a number of `ms` or `s`, not negative. -/
def checkDuration : Json → List Issue
  | .obj members =>
    let duration := Json.obj members
    let amount := match (duration.member? "value").bind Json.float? with
      | some v => if v ≥ 0 then [] else [(Issue.error "Duration must not be negative").under "value"]
      | none => [(Issue.error "Duration 'value' must be a number").under "value"]
    let unit := match (duration.member? "unit").bind Json.string? with
      | some unit =>
        if unit ∈ ["ms", "s"] then []
        else [(Issue.error "Duration 'unit' must be 'ms' or 's'").under "unit"]
      | none => [(Issue.error "Duration 'unit' must be 'ms' or 's'").under "unit"]
    amount ++ unit
  | _ => [(Issue.error "Duration must be an object with 'value' and 'unit'").suggest
      "Write \x7b \"value\": 200, \"unit\": \"ms\" \x7d"]

/-- The issues of one bound of a fluid dimension. -/
def checkBound (bound : String) (fluid : Json) : List Issue :=
  match fluid.member? bound with
  | some dimension => issuesUnder bound (checkDimension dimension)
  | none => [(Issue.error s!"Fluid dimension is missing '{bound}'").under bound]

/-- The issues of a fluid dimension: two dimensions. -/
def checkFluid : Json → List Issue
  | .obj members => checkBound "min" (.obj members) ++ checkBound "max" (.obj members)
  | _ => [.error "Fluid dimension must be an object with 'min' and 'max'"]

/-- The issues of a size: a fluid dimension if a bound is there, else a dimension. -/
def checkSize (size : Json) : List Issue :=
  if size.hasMember "min" || size.hasMember "max" then checkFluid size else checkDimension size

/-! ## Other simple values -/

/-- The names of timing functions. -/
def timingKeywords : List String := ["ease", "linear", "ease-in", "ease-out", "ease-in-out"]

/-- The issues of a timing function: a keyword, or four numbers of which the first and the third are
between 0 and 1. -/
def checkCubicBezier : Json → List Issue
  | .str keyword =>
    if keyword ∈ timingKeywords then [] else [.error s!"Unknown timing function '{keyword}'"]
  | .arr [a, b, c, d] =>
    match a.float?, b.float?, c.float?, d.float? with
    | some x₁, some _, some x₂, some _ =>
      if between 0 1 x₁ && between 0 1 x₂ then []
      else [.error "Cubic bezier x1 and x2 must be between 0 and 1"]
    | _, _, _, _ => [.error "Cubic bezier must be an array of four numbers"]
  | _ => [.error "Cubic bezier must be an array of four numbers"]

/-- The issues of a font weight: a keyword, or a number from 1 to 1000. -/
def checkFontWeight : Json → List Issue
  | .str keyword =>
    if (fontWeight? keyword).isSome then []
    else [(Issue.warning
      s!"Unknown font weight keyword '{keyword}' is passed through as-is").suggest
        "Use a numeric weight or a keyword such as 'bold'"]
  | .num n =>
    if between 1 1000 n.toFloat then [] else [.error "Font weight must be between 1 and 1000"]
  | _ => [.error "Font weight must be a number or a keyword"]

end DesignTokens
