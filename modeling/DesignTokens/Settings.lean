import DesignTokens.Decimal.Layout
import DesignTokens.Json.Decoder
import DesignTokens.Path

/-!
# Settings

What a project sets for the compiler.

* `Settings`, with `OutputSettings`, `Transforms`, `Viewports` and `ColorFallback`;
* `Settings.decoder`: the shape of a settings file; whatever is absent has a default;
* `SettingsError`, `Settings.fault?`: viewports must be positive and in order;
* `OutputSettings.variablesFile`, `Settings.resolverFile`: the paths that follow.
-/

namespace DesignTokens

/-- Where stylesheets go. -/
structure OutputSettings where
  /-- The directory of the stylesheets. -/
  directory : String
  /-- The name of the only stylesheet. -/
  fileName : String
  /-- Whether every source file has a stylesheet of its own. -/
  separate : Bool
  /-- The attribute of contexts without a modifier. -/
  themeAttribute : String

/-- The widths in px between which fluid dimensions grow. -/
structure Viewports where
  min : Float
  max : Float

/-- What is written for colors that not every browser knows. -/
inductive ColorFallback where
  /-- The color itself. -/
  | native
  /-- Its hexadecimal stand-in, and the color itself behind a feature query. -/
  | polyfill
  deriving DecidableEq, Repr

/-- How values are converted. -/
structure Transforms where
  fluid : Viewports
  colorFallback : ColorFallback

/-- The settings of a project. -/
structure Settings where
  /-- The resolver document, as seen from the directory of the project. -/
  resolver : String
  output : OutputSettings
  transforms : Transforms
  /-- The contexts chosen for modifiers. -/
  modifiers : Table String String

/-! ## Defaults -/

/-- The default output. -/
def OutputSettings.standard : OutputSettings :=
  ⟨"src/styles/tokens", "tokens.variables.css", false, "data-theme"⟩

/-- The default viewports. -/
def Viewports.standard : Viewports := ⟨320, 1200⟩

/-- The default conversion. -/
def Transforms.standard : Transforms := ⟨.standard, .native⟩

/-- The default settings. -/
def Settings.standard : Settings := ⟨"tokens.resolver.json", .standard, .standard, .empty⟩

/-! ## Shapes -/

open Json in
/-- The shape of the output settings. -/
def OutputSettings.decoder : Decoder OutputSettings :=
  Decoder.record ["css", "variablesFile", "separate", "themeAttribute"] fun f => do
    let std := OutputSettings.standard
    return {
      directory := ← f.default "css" std.directory Decoder.string
      fileName := ← f.default "variablesFile" std.fileName Decoder.string
      separate := ← f.default "separate" std.separate Decoder.boolean
      themeAttribute := ← f.default "themeAttribute" std.themeAttribute Decoder.string }

open Json in
/-- The shape of viewports. -/
def Viewports.decoder : Decoder Viewports :=
  Decoder.record ["min", "max"] fun f => do
    return {
      min := ← f.default "min" Viewports.standard.min Decoder.double
      max := ← f.default "max" Viewports.standard.max Decoder.double }

open Json in
/-- The shape of the conversion settings. -/
def Transforms.decoder : Decoder Transforms :=
  Decoder.record ["fluid", "colorFallbackStrategy"] fun f => do
    return {
      fluid := ← f.default "fluid" Viewports.standard Viewports.decoder
      colorFallback := ← f.default "colorFallbackStrategy" .native
        (Decoder.choice [("native", .native), ("polyfill", .polyfill)]) }

open Json in
/-- The shape of a settings file. -/
def Settings.decoder : Decoder Settings :=
  Decoder.record ["resolver", "output", "transforms", "modifiers"] fun f => do
    let std := Settings.standard
    return {
      resolver := ← f.default "resolver" std.resolver Decoder.string
      output := ← f.default "output" std.output OutputSettings.decoder
      transforms := ← f.default "transforms" std.transforms Transforms.decoder
      modifiers := ← f.default "modifiers" std.modifiers (Decoder.table Decoder.string) }

/-! ## Faults -/

/-- Why settings are refused. -/
inductive SettingsError where
  | notPositive (min max : Float)
  | notIncreasing (min max : Float)

/-- The text of the error. -/
def SettingsError.message : SettingsError → String
  | notPositive min max =>
    let low := Decimal.plain.text min
    let high := Decimal.plain.text max
    s!"fluid viewport bounds must be positive (min {low}, max {high})"
  | notIncreasing min max =>
    let low := Decimal.plain.text min
    let high := Decimal.plain.text max
    s!"fluid.min ({low}) must be less than fluid.max ({high})"

/-- The fault of settings. -/
def Settings.fault? (s : Settings) : Option SettingsError :=
  let ⟨min, max⟩ := s.transforms.fluid
  if !(min > 0 && max > 0) then some (.notPositive min max)
  else if min ≥ max then some (.notIncreasing min max)
  else none

/-! ## Paths -/

/-- The path of the only stylesheet. -/
def OutputSettings.variablesFile (o : OutputSettings) : Path := Path.join ⟨o.directory⟩ ⟨o.fileName⟩

/-- The path of the resolver document of the project in a directory. -/
def Settings.resolverFile (s : Settings) (directory : Path) : Path := directory.join ⟨s.resolver⟩

end DesignTokens
