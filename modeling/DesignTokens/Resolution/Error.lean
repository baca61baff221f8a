import DesignTokens.Flat

/-!
# Tokens without a value

* `ResolutionError`: why a token has no value; `path` and `origin` are always those of the failing
  token, also where something it refers to is at fault;
* `ResolutionError.message`, `ResolutionError.forToken`.
-/

namespace DesignTokens

/-- Why a token has no value. -/
inductive ResolutionError where
  /-- The references of `chain` lead from a path back to it. -/
  | circular (path : String) (chain : List String) (origin : Origin)
  /-- There is no token at `reference`; `property` is the object key around it. -/
  | missing (path reference : String) (property : Option String) (origin : Origin)
  /-- The token at `reference` has a type that does not fit. -/
  | typeMismatch (path reference : String) (property : Option String) (expected found : TokenType)
      (origin : Origin)
  deriving DecidableEq, Repr

namespace ResolutionError

/-- The kind of the error. -/
def kind : ResolutionError → String
  | circular .. => "circular"
  | missing .. => "missing"
  | typeMismatch .. => "type-mismatch"

/-- The token that fails. -/
def path : ResolutionError → String
  | circular path _ _ => path
  | missing path _ _ _ => path
  | typeMismatch path _ _ _ _ _ => path

/-- Where the token that fails is declared. -/
def origin : ResolutionError → Origin
  | circular _ _ origin => origin
  | missing _ _ _ origin => origin
  | typeMismatch _ _ _ _ _ origin => origin

/-- The text of the error. -/
def message : ResolutionError → String
  | circular path chain origin =>
    s!"Circular reference at '{path}' ({origin.text}): " ++ Text.join " → " chain
  | missing path reference _ origin =>
    s!"'{path}' references missing token '{reference}' ({origin.text})"
  | typeMismatch path reference property expected found origin =>
    let place := match property with
      | some p => s!" for '{p}'"
      | none => ""
    s!"'{path}' expects {expected}{place} but '{reference}' is {found} ({origin.text})"

/-- The error of a token that refers to the failing one. -/
def forToken (t : FlatToken) : ResolutionError → ResolutionError
  | circular _ chain _ => circular t.path chain t.origin
  | missing _ reference property _ => missing t.path reference property t.origin
  | typeMismatch _ reference property expected found _ =>
    typeMismatch t.path reference property expected found t.origin

end ResolutionError

end DesignTokens
