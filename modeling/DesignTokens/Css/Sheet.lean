/-!
# Stylesheets

* `CssRule`: declarations under a selector, perhaps behind a feature query;
* `Sheet`, `Sheet.text`: rules in order, and their text.
-/

namespace DesignTokens

/-- Declarations under a selector. -/
structure CssRule where
  selector : String
  /-- Names of properties and their values. -/
  properties : List (String × String)
  /-- The prelude of the rule around this one. -/
  query : Option String
  deriving DecidableEq, Repr

/-- Rules in order. -/
structure Sheet where
  rules : List CssRule
  deriving DecidableEq, Repr

/-- No rule. -/
def Sheet.empty : Sheet := ⟨[]⟩

/-- One more rule at the end. -/
def Sheet.add (s : Sheet) (r : CssRule) : Sheet := ⟨s.rules ++ [r]⟩

/-- A declaration on a line of its own. -/
def declarationText (indent : String) (d : String × String) : String :=
  indent ++ d.1 ++ ": " ++ d.2 ++ ";\n"

/-- A rule and the empty line behind it. -/
def CssRule.text (r : CssRule) : String :=
  let body indent := r.selector ++ " \x7b\n" ++ String.join (r.properties.map (declarationText indent))
  match r.query with
  | some query => query ++ " \x7b\n  " ++ body "    " ++ "  \x7d\n\x7d\n\n"
  | none => body "  " ++ "\x7d\n\n"

/-- The text of a stylesheet. -/
def Sheet.text (s : Sheet) : String := String.join (s.rules.map CssRule.text)

end DesignTokens
