import DesignTokens.Json.Basic
import DesignTokens.Text.Blank
import DesignTokens.Text.Split

/-!
# References

A string that is nothing but a path in braces refers to the token at that path.

* `Reference`, `Reference.text`;
* `Reference.isPath`: segments between dots, none empty, without braces and blanks;
* `Reference.parse?`, `Reference.ofJson?`: the reference that a text or a value is;
* `Json.references`: all references inside a value, in order.
-/

namespace DesignTokens

/-- A reference to the token at a path. -/
structure Reference where
  path : String
  deriving DecidableEq, Repr

namespace Reference

/-- The path between braces. -/
def text (r : Reference) : String := "\x7b" ++ r.path ++ "\x7d"

/-- A character that a path may hold. -/
def isPathChar (c : Char) : Bool := c ≠ '{' && c ≠ '}' && !Text.isBlank c

/-- Whether the characters are a path. -/
def isPath (cs : List Char) : Bool :=
  cs.all isPathChar && (Text.splitChars '.' cs).all fun segment => !segment.isEmpty

/-- What stands between a brace in front and a brace at the end. -/
def inner? (cs : List Char) : Option (List Char) :=
  match cs with
  | '{' :: rest =>
    match rest.reverse with
    | '}' :: inner => some inner.reverse
    | _ => none
  | _ => none

/-- The reference that a text is, if it is one. -/
def parse? (text : String) : Option Reference :=
  match inner? text.toList with
  | some path => if isPath path then some ⟨String.ofList path⟩ else none
  | none => none

/-- The reference that a value is, if it is one. -/
def ofJson? : Json → Option Reference
  | .str s => parse? s
  | _ => none

end Reference

namespace Json

/-- Whether the whole value is a reference. -/
def isReference (j : Json) : Bool := (Reference.ofJson? j).isSome

mutual

/-- The references inside a value, in order. -/
def references : Json → List Reference
  | .str s => (Reference.parse? s).toList
  | .arr items => itemReferences items
  | .obj members => memberReferences members
  | _ => []

/-- The references inside items. -/
def itemReferences : List Json → List Reference
  | [] => []
  | j :: rest => references j ++ itemReferences rest

/-- The references inside members. -/
def memberReferences : List (String × Json) → List Reference
  | [] => []
  | (_, j) :: rest => references j ++ memberReferences rest

end

end Json

end DesignTokens
