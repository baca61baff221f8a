import DesignTokens.Context
import DesignTokens.Text.Split

/-!
# Diagnostics

* `Level`, `Diagnostic`: a finding about a token, or about a part of its value;
* `Diagnostic.under`: narrowed to a property; `Diagnostic.covers`: whether it is about a token;
* `Diagnostic.text`.
-/

namespace DesignTokens

/-- How grave a finding is. -/
inductive Level where
  | error
  | warning
  | info
  deriving DecidableEq, Repr

/-- The name of a level. -/
def Level.text : Level → String
  | error => "error"
  | warning => "warning"
  | info => "info"

/-- A finding about a token, or about a property of it. -/
structure Diagnostic where
  level : Level
  rule : String
  message : String
  /-- The path of the token, and behind it the property. -/
  path : String
  origin : Origin
  suggestion : Option String
  deriving DecidableEq, Repr

namespace Diagnostic

/-- The same finding about a property. -/
def under (property : String) (d : Diagnostic) : Diagnostic :=
  { d with path := d.path ++ "." ++ property }

/-- Whether the finding is an error. -/
def isError (d : Diagnostic) : Bool := d.level = .error

/-- Whether the finding is about the token at a path or a property of it. -/
def covers (d : Diagnostic) (path : String) : Bool :=
  match Text.strip? path d.path with
  | some rest => rest.isEmpty || Text.startsWith "." rest
  | none => false

/-- The finding in one line. -/
def text (d : Diagnostic) : String :=
  let tail := match d.suggestion with
    | some s => " - " ++ s
    | none => ""
  s!"{d.level.text} [{d.rule}] {d.path}: {d.message} ({d.origin.file}, {d.origin.context})" ++ tail

end Diagnostic

end DesignTokens
