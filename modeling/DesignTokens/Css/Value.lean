import DesignTokens.Decimal.Layout
import DesignTokens.Decimal.Power
import DesignTokens.Json.Compact
import DesignTokens.Settings

/-!
# Values of custom properties

* `CssBody`, `FeatureValue`, `CssValue`: what a token becomes;
* `ConvertError`: why a token cannot be converted;
* `Operand`: a part of a token's value, as written and with references replaced;
* `formatNumber`, `formatRounded`, `scalarText`: numbers and other simple values as text.
-/

namespace DesignTokens

/-- One value, or one for each sub-property. -/
inductive CssBody where
  | single (text : String)
  | entries (parts : List (String × String))
  deriving DecidableEq, Repr

/-- Another value for browsers that pass a feature query. -/
structure FeatureValue where
  query : String
  text : String
  deriving DecidableEq, Repr

/-- What a token becomes. -/
structure CssValue where
  body : CssBody
  features : List FeatureValue
  deriving DecidableEq, Repr

/-- One value for all browsers. -/
def CssValue.single (text : String) : CssValue := ⟨.single text, []⟩

/-- Why a token cannot be converted. -/
inductive ConvertError where
  | unsupportedColorSpace (path space : String)
  | missingHexFallback (path space : String)
  | invalidValue (path type message : String)
  deriving DecidableEq, Repr

/-- The text of the error. -/
def ConvertError.message : ConvertError → String
  | unsupportedColorSpace path space => s!"Unsupported color space '{space}' at '{path}'"
  | missingHexFallback path space =>
    s!"Color '{path}' uses {space}, which needs a 'hex' fallback with the polyfill strategy"
  | invalidValue path type message => s!"Cannot convert {type} '{path}': {message}"

/-! ## Operands -/

/-- A part of the value of a token. -/
structure Operand where
  /-- As written, or resolved where a reference in it has no custom property. -/
  raw : Json
  /-- With all references replaced. -/
  resolved : Json

/-- The property of an object as written. -/
def Operand.member? (o : Operand) (key : String) : Option Operand :=
  (o.raw.member? key).map fun raw => ⟨raw, (o.resolved.member? key).getD raw⟩

/-- The item of an array as written. -/
def Operand.item? (o : Operand) (index : Nat) : Option Operand :=
  (o.raw.item? index).map fun raw => ⟨raw, (o.resolved.item? index).getD raw⟩

/-! ## Texts -/

/-- A number with the fewest digits; zero has no sign. -/
def formatNumber (x : Float) : String := if x == 0 then "0" else Decimal.plain.text x

/-- A number rounded to decimal places, halves away from zero; negative places count in front of the
point. -/
def formatRounded (x : Float) (places : Int) : String :=
  let factor := Decimal.tenTo places
  formatNumber ((x * factor).round / factor)

/-- A simple value as text; strings stand for themselves. -/
def scalarText : Json → String
  | .str s => s
  | .num n => formatNumber n.toFloat
  | .bool b => if b then "true" else "false"
  | j => j.compact

end DesignTokens
