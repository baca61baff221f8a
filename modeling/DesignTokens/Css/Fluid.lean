import DesignTokens.Css.Value

/-!
# Fluid dimensions

A size that changes with the width of the viewport between two widths. It is computed over any numbers,
and the program computes it over doubles.

* `inRem?`, `toRem?`: a dimension in rem;
* `Line`, `Line.through`: the straight line through two sizes at two widths;
* `FluidSize`, `FluidSize.between`: the size between two bounds;
* `FluidSize.text`, `convertFluid`: the size as a static value or as a `clamp`.
-/

namespace DesignTokens

section Numbers

variable {α : Type}

/-- The font size of the root, in px. -/
def rootFontSize [OfNat α 16] : α := 16

/-- A length in rem, for units with a fixed relation to it. -/
def inRem? [OfNat α 16] [Div α] (unit : String) (value : α) : Option α :=
  if unit = "px" then some (value / rootFontSize)
  else if unit = "rem" || unit = "em" then some value
  else none

/-- A size `intercept + slope · width`. -/
structure Line (α : Type) where
  slope : α
  intercept : α

/-- The line on which the size is `min` at the width `narrow` and `max` at the width `wide`. -/
def Line.through [Sub α] [Mul α] [Div α] (min max narrow wide : α) : Line α :=
  let slope := (max - min) / (wide - narrow)
  ⟨slope, min - slope * narrow⟩

/-- A size for every width of the viewport: the same in rem, or `intercept` rem and `slope` hundredths
of the width, but not less than `lower` rem and not more than `upper` rem. -/
inductive FluidSize (α : Type) where
  | static (size : α)
  | clamp (lower intercept slope upper : α)

/-- The size that goes from `min` rem to `max` rem while the width goes from `narrow` px to `wide` px.
Bounds whose difference has a smaller magnitude than `epsilon` are equal. -/
def FluidSize.between [OfNat α 16] [OfNat α 100] [Sub α] [Mul α] [Div α] [LT α] [DecidableLT α] [LE α]
    [DecidableLE α] (magnitude : α → α) (epsilon narrow wide min max : α) : FluidSize α :=
  if magnitude (max - min) < epsilon then .static min
  else
    let line := Line.through min max (narrow / rootFontSize) (wide / rootFontSize)
    let (lower, upper) := if min ≤ max then (min, max) else (max, min)
    .clamp lower line.intercept (line.slope * 100) upper

end Numbers

/-- A dimension in rem. -/
def toRem? (j : Json) : Option Float := do
  let value ← (← j.member? "value").float?
  let unit ← (← j.member? "unit").string?
  inRem? unit value

/-- Sizes closer than this are equal: the distance from 1 to the next double. -/
def fluidEpsilon : Float := Float.ofBits 0x3CB0000000000000

/-- One bound of a fluid dimension in rem. -/
def fluidBound (path key : String) (fluid : Json) : Except ConvertError Float :=
  match (fluid.member? key).bind toRem? with
  | some x => .ok x
  | none => .error (.invalidValue path "fluidDimension" s!"'{key}' must be a px, rem or em dimension")

/-- The text of a size. -/
def FluidSize.text : FluidSize Float → String
  | .static size => formatRounded size 4 ++ "rem"
  | .clamp lower intercept slope upper =>
    "clamp(" ++ formatRounded lower 4 ++ "rem, " ++ formatRounded intercept 2 ++ "rem + " ++
      formatRounded slope 2 ++ "vw, " ++ formatRounded upper 4 ++ "rem)"

/-- The size between two bounds in rem. -/
def fluidText (viewports : Viewports) (min max : Float) : String :=
  (FluidSize.between Float.abs fluidEpsilon viewports.min viewports.max min max).text

/-- The text of a fluid dimension. -/
def convertFluid (transforms : Transforms) (path : String) (o : Operand) :
    Except ConvertError String := do
  let min ← fluidBound path "min" o.resolved
  let max ← fluidBound path "max" o.resolved
  return fluidText transforms.fluid min max

end DesignTokens
