import DesignTokens.Css.Convert
import DesignTokens.Lint.Diagnostic
import DesignTokens.Resolution

/-!
# Tokens that are declared

Which tokens of a context become custom properties, and with which values.

* `CssToken`: a converted token;
* `errorsIn`, `isDeclared`, `declaredPaths`: a token is declared unless an error is about it, or its
  type is absent or unknown;
* `available`: the paths whose custom properties a context may use;
* `operand`: the value as written, or the resolved one if some reference in it is not available;
* `convertAll`: the tokens of all contexts.
-/

namespace DesignTokens

/-- A converted token. -/
structure CssToken where
  path : String
  type : TokenType
  origin : Origin
  value : CssValue

/-- The errors about tokens of a context. -/
def errorsIn (diagnostics : List Diagnostic) (c : Context) : List Diagnostic :=
  diagnostics.filter fun d => d.isError && d.origin.context = c

/-- Whether some error is about the token at a path. -/
def isFaulty (errors : List Diagnostic) (path : String) : Bool := errors.any (·.covers path)

/-- Whether a token becomes a custom property. -/
def isDeclared (errors : List Diagnostic) (t : ResolvedToken) : Bool :=
  !isFaulty errors t.path && (t.type.map TokenType.isKnown).getD false

/-- The paths of the tokens that become custom properties. -/
def declaredPaths (errors : List Diagnostic) (tokens : Table String ResolvedToken) : List String :=
  (tokens.values.filter (isDeclared errors)).map (·.path)

/-- The paths whose custom properties a context may use: its own, and those of the base at paths where
it has no token with a value. -/
def available (base : List String) (errors : List Diagnostic) (c : Context)
    (tokens : Table String ResolvedToken) : List String :=
  let own := declaredPaths errors tokens
  if c.isBase then own else own ++ base.filter fun path => !tokens.contains path

/-- What is converted of a token. -/
def operand (paths : List String) (t : ResolvedToken) : Operand :=
  if t.raw.references.all fun r => r.path ∈ paths then ⟨t.raw, t.value⟩ else ⟨t.value, t.value⟩

/-- A token of a context converted, unless it is left out. -/
def convertToken? (transforms : Transforms) (errors : List Diagnostic) (paths : List String)
    (t : ResolvedToken) : Except ConvertError (Option CssToken) :=
  if isFaulty errors t.path then .ok none
  else match t.type with
    | none => .ok none
    | some type => do
      let value ← convert? transforms t.path type (operand paths t)
      return value.map fun v => ⟨t.path, type, t.token.origin, v⟩

/-- The tokens of a context converted in order. -/
def convertContext (transforms : Transforms) (errors : List Diagnostic) (paths : List String)
    (tokens : Table String ResolvedToken) : Except ConvertError (List CssToken) :=
  tokens.values.filterMapM (convertToken? transforms errors paths)

/-- The tokens of all contexts converted. -/
def convertAll (transforms : Transforms) (diagnostics : List Diagnostic) (r : Resolution) :
    Except ConvertError (Contexts (List CssToken)) := do
  let base := match r.contexts.get? .base with
    | some tokens => declaredPaths (errorsIn diagnostics .base) tokens
    | none => []
  let entries ← r.contexts.entries.mapM fun (c, tokens) => do
    let errors := errorsIn diagnostics c
    let converted ← convertContext transforms errors (available base errors c tokens) tokens
    return (c, converted)
  return ⟨entries⟩

end DesignTokens
