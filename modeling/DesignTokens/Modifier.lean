import DesignTokens.Context
import DesignTokens.Name

/-!
# Modifiers

* `Modifier`: what stylesheets need to know of a modifier;
* `Modifier.attributeOf`: the attribute of a modifier;
* `selector`: the elements to which the tokens of a context apply.
-/

namespace DesignTokens

/-- A modifier of a loaded document. -/
structure Modifier where
  name : String
  /-- The attribute whose value chooses the context. -/
  dataAttribute : String
  default : Option String
  /-- The context that is part of the base. -/
  selected : String
  /-- The other contexts that have tokens. -/
  contexts : List String
  deriving DecidableEq, Repr

/-- The attribute of a modifier. -/
def Modifier.attributeOf (name : String) : String := "data-" ++ Name.kebab name

/-- Elements with a value of an attribute. -/
def attributeSelector (name value : String) : String :=
  "[" ++ name ++ "=\"" ++ value ++ "\"]"

/-- The root element for the base, else the elements with the attribute of the context. -/
def selector (modifiers : List Modifier) (themeAttribute : String) : Context → String
  | .base => ":root"
  | .variant (some modifier) name =>
    let key := match modifiers.find? (·.name = modifier) with
      | some m => m.dataAttribute
      | none => Modifier.attributeOf modifier
    attributeSelector key name
  | .variant none name => attributeSelector themeAttribute name

end DesignTokens
