import DesignTokens.Css.Declared
import DesignTokens.Css.Sheet
import DesignTokens.Modifier

/-!
# Generated files

* `plainDeclarations`, `featureDeclarations`: the declarations of a token;
* `contextRules`: a rule with the plain declarations of some tokens of a context, then one for each
  feature query;
* `targetFile`: the file of a token; `generate`: the stylesheets of all contexts;
* `CssFile`.
-/

namespace DesignTokens

/-- A generated stylesheet. -/
structure CssFile where
  path : Path
  text : String
  deriving DecidableEq, Repr

/-- The declarations of a token outside feature queries. -/
def plainDeclarations (t : CssToken) : List (String × String) :=
  let name := Name.customProperty t.path
  match t.value.body with
  | .single text => [(name, Name.renderReferences text)]
  | .entries parts => parts.map fun (key, text) =>
      (name ++ "-" ++ Name.kebab key, Name.renderReferences text)

/-- The declarations of a token behind feature queries. -/
def featureDeclarations (t : CssToken) : List (String × String × String) :=
  t.value.features.map fun f =>
    (f.query, Name.customProperty t.path, Name.renderReferences f.text)

/-- Things put together by a key, in the order in which the keys first come. -/
def groupByKey {κ : Type} {α : Type} [DecidableEq κ] (entries : List (κ × α)) : Table κ (List α) :=
  entries.foldl (fun t e => t.alter e.1 fun former => former.getD [] ++ [e.2]) .empty

/-- The rules of some tokens of a context. -/
def contextRules (selector : String) (tokens : List CssToken) : List CssRule :=
  let features := groupByKey (tokens.flatMap featureDeclarations)
  ⟨selector, tokens.flatMap plainDeclarations, none⟩ ::
    features.entries.map fun (query, properties) => ⟨selector, properties, some query⟩

/-- The file for the tokens of a source file. -/
def separateFile (output : OutputSettings) (source : Path) : Path :=
  let stem := source.stem?.getD "tokens"
  let stem := (Text.stripEnd? ".tokens" stem).getD stem
  Path.join ⟨output.directory⟩ ⟨Name.kebab stem ++ ".variables.css"⟩

/-- The file of a token. -/
def targetFile (output : OutputSettings) (t : CssToken) : Path :=
  if output.separate then separateFile output t.origin.file else output.variablesFile

/-- The rules of a context, with the file of each; none without tokens. -/
def fileRules (modifiers : List Modifier) (output : OutputSettings) (c : Context)
    (tokens : List CssToken) : List (Path × CssRule) :=
  let groups := groupByKey (tokens.map fun t => (targetFile output t, t))
  groups.entries.flatMap fun (file, group) =>
    (contextRules (selector modifiers output.themeAttribute c) group).map (file, ·)

/-- The stylesheets of all contexts, by their files. -/
def sheets (modifiers : List Modifier) (output : OutputSettings)
    (converted : Contexts (List CssToken)) : Table Path (List CssRule) :=
  groupByKey (converted.entries.flatMap fun (c, tokens) => fileRules modifiers output c tokens)

/-- The files of all contexts. -/
def generate (modifiers : List Modifier) (output : OutputSettings)
    (converted : Contexts (List CssToken)) : List CssFile :=
  (sheets modifiers output converted).entries.map fun (path, rules) => ⟨path, Sheet.text ⟨rules⟩⟩

end DesignTokens
