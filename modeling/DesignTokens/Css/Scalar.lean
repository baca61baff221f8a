import DesignTokens.Css.Value
import DesignTokens.Text.Blank
import DesignTokens.Text.Letter
import DesignTokens.Text.Lower
import DesignTokens.TokenType

/-!
# Simple values

* `formatDimension?`, `dimensionText`: amounts with units;
* `bezierText`, `strokeText`, `angleText`;
* `quoteFamily`, `familyText`, `weightText`: fonts.

Strings pass as they are, references among them.
-/

namespace DesignTokens

/-- A number and its unit. -/
def formatDimension? (j : Json) : Option String := do
  let amount ← (← j.member? "value").float?
  let unit ← (← j.member? "unit").string?
  return formatNumber amount ++ unit

/-- A dimension or a duration. -/
def dimensionText (j : Json) : String := (formatDimension? j).getD (scalarText j)

/-- A timing function: four numbers, or a keyword. -/
def bezierText : Json → String
  | .arr points => "cubic-bezier(" ++ Text.join ", " (points.map scalarText) ++ ")"
  | j => scalarText j

/-- A stroke style; dashes of any kind are `dashed`. -/
def strokeText : Json → String
  | .obj _ => "dashed"
  | j => scalarText j

/-- An angle; a bare number is in degrees. -/
def angleText : Json → String
  | .num n => scalarText (.num n) ++ "deg"
  | j => scalarText j

/-! ## Fonts -/

/-- The families that are keywords. -/
def genericFamilies : List String :=
  ["serif", "sans-serif", "monospace", "cursive", "fantasy", "system-ui", "ui-serif",
    "ui-sans-serif", "ui-monospace", "ui-rounded", "emoji", "math", "fangsong", "inherit", "initial",
    "unset"]

/-- A character of a family that needs no quotes. -/
def isFamilyChar (c : Char) : Bool := Text.isAlphanumeric c || c = '-' || c = '_'

/-- The characters with a backslash before every double quote. -/
def escapeQuotes (cs : List Char) : List Char :=
  cs.flatMap fun c => if c = '"' then ['\\', '"'] else [c]

/-- A family name, in quotes unless it is quoted, a keyword, or an identifier. -/
def quoteFamily (name : String) : String :=
  let name := Text.trim name
  let first := name.toList.head?
  if first = some '"' || first = some '\'' then name
  else if Text.lowerAscii name ∈ genericFamilies then name
  else if name.toList.any (!isFamilyChar ·) || (first.map Char.isDigit).getD false then
    String.ofList ('"' :: escapeQuotes name.toList ++ ['"'])
  else name

/-- A family, or a list of them. -/
def familyText : Json → String
  | .arr names => Text.join ", " (names.map fun
      | .str name => quoteFamily name
      | j => scalarText j)
  | .str name => if Text.startsWith "\x7b" name then name else quoteFamily name
  | j => scalarText j

/-- A font weight; keywords become numbers. -/
def weightText : Json → String
  | .str keyword => match fontWeight? keyword with
    | some weight => toString weight
    | none => keyword
  | j => scalarText j

end DesignTokens
