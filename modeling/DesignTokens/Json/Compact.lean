import DesignTokens.Json.Basic
import DesignTokens.Decimal.Layout

/-!
# Compact JSON text

* `Number.layout`, `Number.text`: doubles and numbers as text;
* `Json.quote`: a string between quotes, with the escapes that JSON needs and no others;
* `Json.compact`: a value without any blanks, members in order.
-/

namespace DesignTokens

/-- Doubles have a fraction or an exponent; positional from `10 ^ -5` to below `10 ^ 16`. -/
def Number.layout : Decimal.Layout := ⟨.toEven, some (-5, 15), true⟩

/-- The text of a number. -/
def Number.text : Number → String
  | .integer n => toString n
  | .double x => Number.layout.text x

namespace Json

/-- A digit of an escape. -/
def hexDigit (n : Nat) : Char := (Nat.toDigits 16 n).headD '0'

/-- A character inside a string: quotes, backslashes and control characters are escaped. -/
def escape (c : Char) : List Char :=
  if c = '"' then ['\\', '"']
  else if c = '\\' then ['\\', '\\']
  else if c = '\x08' then ['\\', 'b']
  else if c = '\x0c' then ['\\', 'f']
  else if c = '\n' then ['\\', 'n']
  else if c = '\r' then ['\\', 'r']
  else if c = '\t' then ['\\', 't']
  else if c.toNat < 0x20 then
    ['\\', 'u', '0', '0', hexDigit (c.toNat / 16), hexDigit (c.toNat % 16)]
  else [c]

/-- A string as it stands in a text. -/
def quote (s : String) : String :=
  String.ofList ('"' :: s.toList.flatMap escape ++ ['"'])

theorem toList_quote (s : String) : (quote s).toList = '"' :: s.toList.flatMap escape ++ ['"'] :=
  String.toList_ofList

mutual

/-- The text of a value, without blanks. -/
def compact : Json → String
  | .null => "null"
  | .bool b => if b then "true" else "false"
  | .num n => n.text
  | .str s => quote s
  | .arr items => "[" ++ ",".intercalate (compactItems items) ++ "]"
  | .obj members => "\x7b" ++ ",".intercalate (compactMembers members) ++ "\x7d"

/-- The texts of the items of an array. -/
def compactItems : List Json → List String
  | [] => []
  | j :: rest => compact j :: compactItems rest

/-- The texts of the members of an object. -/
def compactMembers : List (String × Json) → List String
  | [] => []
  | (key, j) :: rest => (quote key ++ ":" ++ compact j) :: compactMembers rest

end

end Json

end DesignTokens
