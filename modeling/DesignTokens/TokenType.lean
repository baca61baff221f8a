import DesignTokens.Text.Lower

/-!
# Token types

* `TokenType`: the value of `$type`; unknown names are kept;
* `TokenType.ofName`, `TokenType.name`: from and to the name;
* `TokenType.fits`: where a value of one type may stand;
* `TokenType.property?`: the types of the parts of composite values;
* `fontWeight?`: the number of a weight keyword;
* `name_ofName`: a name is read and written back unchanged.
-/

namespace DesignTokens

/-- The type of a token. -/
inductive TokenType where
  | color
  | dimension
  | fluidDimension
  | duration
  | cubicBezier
  | number
  | fontFamily
  | fontWeight
  | typography
  | shadow
  | border
  | transition
  | gradient
  | strokeStyle
  | unknown (name : String)
  deriving DecidableEq, Repr

namespace TokenType

/-- The name of a type. -/
def name : TokenType → String
  | color => "color"
  | dimension => "dimension"
  | fluidDimension => "fluidDimension"
  | duration => "duration"
  | cubicBezier => "cubicBezier"
  | number => "number"
  | fontFamily => "fontFamily"
  | fontWeight => "fontWeight"
  | typography => "typography"
  | shadow => "shadow"
  | border => "border"
  | transition => "transition"
  | gradient => "gradient"
  | strokeStyle => "strokeStyle"
  | unknown name => name

instance : ToString TokenType := ⟨name⟩

/-- The types with a form in stylesheets. -/
def known : List TokenType :=
  [color, dimension, fluidDimension, duration, cubicBezier, number, fontFamily, fontWeight,
    typography, shadow, border, transition, gradient, strokeStyle]

/-- The type of a name. -/
def ofName (name : String) : TokenType :=
  (known.find? fun t => t.name = name).getD (unknown name)

/-- A type with a form in stylesheets. -/
def isKnown : TokenType → Bool
  | unknown _ => false
  | _ => true

/-- Whether a value of type `found` may stand where `expected` is asked for: the types are equal, or
one is a dimension and the other a fluid one. -/
def fits (found expected : TokenType) : Bool :=
  found = expected || (found = dimension && expected = fluidDimension) ||
    (found = fluidDimension && expected = dimension)

/-- The type of a part of a composite value, where it is fixed. -/
def property? (type : TokenType) (property : String) : Option TokenType :=
  match type with
  | border =>
    if property = "color" then some color
    else if property = "width" then some dimension
    else if property = "style" then some strokeStyle
    else none
  | shadow =>
    if property = "color" then some color
    else if property ∈ ["offsetX", "offsetY", "blur", "spread"] then some dimension
    else none
  | transition =>
    if property ∈ ["duration", "delay"] then some duration
    else if property = "timingFunction" then some cubicBezier
    else none
  | typography =>
    if property = "fontFamily" then some fontFamily
    else if property ∈ ["fontSize", "letterSpacing"] then some dimension
    else if property = "fontWeight" then some fontWeight
    else if property = "lineHeight" then some number
    else none
  | gradient =>
    if property = "color" then some color
    else if property = "position" then some number
    else none
  | strokeStyle => if property = "dashArray" then some dimension else none
  | fluidDimension => if property ∈ ["min", "max"] then some dimension else none
  | _ => none

theorem name_ofName (name : String) : (ofName name).name = name := by
  unfold ofName
  cases h : known.find? fun t => t.name = name with
  | none => rfl
  | some t => simpa using List.find?_some h

end TokenType

/-- The weight that a keyword stands for; basic letters of both cases are alike. -/
def fontWeight? (keyword : String) : Option Nat :=
  let k := Text.lowerAscii keyword
  if k ∈ ["thin", "hairline"] then some 100
  else if k ∈ ["extra-light", "ultra-light"] then some 200
  else if k = "light" then some 300
  else if k ∈ ["normal", "regular", "book"] then some 400
  else if k = "medium" then some 500
  else if k ∈ ["semi-bold", "demi-bold"] then some 600
  else if k = "bold" then some 700
  else if k ∈ ["extra-bold", "ultra-bold"] then some 800
  else if k ∈ ["black", "heavy"] then some 900
  else if k ∈ ["extra-black", "ultra-black"] then some 950
  else none

end DesignTokens
