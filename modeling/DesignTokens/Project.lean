import DesignTokens.Compile

/-!
# Projects

A directory with a settings file and the resolver document that it names.

* `settingsFile`, `ProjectError`, `loadSettings`: without a settings file the defaults hold;
* `compileProject`.
-/

namespace DesignTokens

/-- The path of the settings of the project in a directory. -/
def settingsFile (directory : Path) : Path := directory.join ⟨"tokens.config.json"⟩

/-- Why a project cannot be compiled. -/
inductive ProjectError where
  | settings (cause : SettingsError)
  | unreadable (file : Path)
  | malformed (file : Path)
  | compile (file : Path) (cause : CompileError)

/-- The text of the error. -/
def ProjectError.message : ProjectError → String
  | settings cause => (CompileError.settings cause).message
  | unreadable file => s!"Failed to read {file}"
  | malformed file => s!"Failed to parse {file}"
  | compile file _ => s!"Failed to compile {file}"

/-- The settings of the project in a directory. -/
def loadSettings (f : Folder) (directory : Path) : Except ProjectError Settings := do
  let file := settingsFile directory
  if !f.has file then return .standard
  let text ← (f.read file).mapError fun _ => .unreadable file
  match Settings.decoder.parse? text with
  | none => throw (.malformed file)
  | some settings =>
    if let some fault := settings.fault? then throw (.settings fault)
    return settings

/-- The stylesheets of the project in a directory. -/
def compileProject (f : Folder) (directory : Path) : Except ProjectError Compiled := do
  let settings ← loadSettings f directory
  let file := settings.resolverFile directory
  (compileResolver f.read file .empty settings).mapError (.compile file)

end DesignTokens
