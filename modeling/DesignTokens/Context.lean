import DesignTokens.Path

/-!
# Contexts

Tokens are declared in the base context or in an overlay of it.

* `Context`, `Context.ofLabel`, `Context.text`;
* `Origin`: the file and the context in which a token is declared.
-/

namespace DesignTokens

/-- The base context, or an overlay with a name; the overlay may belong to a modifier. -/
inductive Context where
  | base
  | variant (modifier : Option String) (name : String)
  deriving DecidableEq, Repr, Inhabited

namespace Context

/-- The context of a label; no label and `default` are the base. -/
def ofLabel : Option String → Context
  | none => base
  | some name => if name = "default" then base else variant none name

/-- Whether the context is the base. -/
def isBase : Context → Bool
  | base => true
  | variant _ _ => false

/-- The modifier, if there is one, and the name. -/
def text : Context → String
  | base => "base"
  | variant (some modifier) name => modifier ++ ":" ++ name
  | variant none name => name

instance : ToString Context := ⟨text⟩

end Context

/-- Where a token is declared. -/
structure Origin where
  file : Path
  context : Context
  deriving DecidableEq, Repr

/-- The file, and the context in parentheses. -/
def Origin.text (o : Origin) : String := o.file.text ++ " (" ++ o.context.text ++ ")"

end DesignTokens
