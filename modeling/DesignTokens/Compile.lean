import DesignTokens.Css.File
import DesignTokens.Lint.Rule
import DesignTokens.Load

/-!
# Compiling

Token trees to stylesheets: merging, resolving, checking, converting and writing.

* `CompileError`, `Compiled`;
* `mergeDiagnostics`, `resolutionDiagnostic`: errors of the first stages as findings;
* `compile`: trees; `compileResolver`, `compilePreloaded`, `compileMemory`: loaded trees.
-/

namespace DesignTokens

/-- Why there are no stylesheets. -/
inductive CompileError where
  | settings (cause : SettingsError)
  | convert (cause : ConvertError)
  | load (file : Path) (causes : List LoadError)

/-- The text of the error. -/
def CompileError.message : CompileError → String
  | settings cause => s!"Invalid configuration: {cause.message}"
  | convert cause => cause.message
  | load file causes => s!"Failed to load {file}: " ++ Text.join "; " (causes.map LoadError.message)

/-- Stylesheets, and what was found on the way. -/
structure Compiled where
  files : List CssFile
  diagnostics : List Diagnostic
  modifiers : List Modifier
  tokens : Contexts (List CssToken)

namespace Compiled

/-- The findings that are errors. -/
def errors (c : Compiled) : List Diagnostic := c.diagnostics.filter (·.isError)

/-- Whether some finding is an error. -/
def hasErrors (c : Compiled) : Bool := c.diagnostics.any (·.isError)

end Compiled

/-! ## Findings of the first stages -/

/-- A contradiction between trees as a finding. -/
def mergeDiagnostic (c : Context) (e : MergeError) : Diagnostic :=
  match e with
  | .tokenAndGroup path tokenFile _ =>
    ⟨.error, "token-group-conflict", e.message, path, ⟨tokenFile, c⟩, none⟩
  | .types path _ _ _ latterFile =>
    ⟨.error, "type-conflict", e.message, path, ⟨latterFile, c⟩, none⟩

/-- All contradictions as findings. -/
def mergeDiagnostics (all : Contexts Flat) : List Diagnostic :=
  all.entries.flatMap fun (c, f) => f.errors.map (mergeDiagnostic c)

/-- A token without a value as a finding. -/
def resolutionDiagnostic (e : ResolutionError) : Diagnostic :=
  ⟨.error, e.kind ++ "-reference", e.message, e.path, e.origin, none⟩

/-- All findings about trees that are merged and resolved. -/
def diagnose (all : Contexts Flat) (r : Resolution) : List Diagnostic :=
  mergeDiagnostics all ++ r.errors.map resolutionDiagnostic ++ lint Rule.all r

/-! ## From trees to stylesheets -/

/-- The stylesheets of trees. -/
def compile (trees : List Tree) (modifiers : List Modifier) (settings : Settings) :
    Except CompileError Compiled := do
  if let some fault := settings.fault? then throw (.settings fault)
  let all := flatten trees
  let resolution := resolveAll all
  let diagnostics := diagnose all resolution
  let tokens ← (convertAll settings.transforms diagnostics resolution).mapError .convert
  return ⟨generate modifiers settings.output tokens, diagnostics, modifiers, tokens⟩

/-- The stylesheets of loaded trees. -/
def compileLoaded (file : Path) (loaded : LoadResult) (settings : Settings) :
    Except CompileError Compiled :=
  if loaded.isOk then compile loaded.trees loaded.modifiers settings
  else .error (.load file loaded.errors)

/-- The chosen contexts: those of the settings, and over them those of the caller. -/
def mergedSelections (settings : Settings) (selections : Table String String) :
    Table String String :=
  settings.modifiers.append selections

/-- The stylesheets of a resolver document. -/
def compileResolver (fs : FileSystem) (file : Path) (selections : Table String String)
    (settings : Settings) : Except CompileError Compiled :=
  compileLoaded file (loadResolver fs file (mergedSelections settings selections)) settings

/-- The stylesheets of a resolver document, its files read beforehand. -/
def compilePreloaded (fs : FileSystem) (file : Path) (selections : Table String String)
    (settings : Settings) : Except CompileError Compiled :=
  compileLoaded file (loadPreloaded fs file (mergedSelections settings selections)) settings

/-- The stylesheets of documents in memory. -/
def compileMemory (entries : Table String MemoryEntry) (settings : Settings) :
    Except CompileError Compiled :=
  compileLoaded ⟨"in-memory tokens"⟩ (loadMemory entries) settings

end DesignTokens
