import DesignTokens.Document.Basic
import DesignTokens.Document.Target

/-!
# Checks of resolver documents

* `Document.check`: the faults of version, names and contexts, in order;
* `Document.externalFiles`: the files that references in a document lead to, each once.
-/

namespace DesignTokens

/-- The fault of a name. -/
def checkName (kind : NameKind) (name : String) : List LoadError :=
  ((nameFault? name).map fun fault => LoadError.invalidName kind name fault).toList

/-- The faults of a modifier. -/
def ModifierDefinition.check (name : String) (m : ModifierDefinition) : List LoadError :=
  let empty := if m.contexts.isEmpty then [LoadError.emptyModifier name] else []
  let unknown := match m.default with
    | some context => if m.contexts.contains context then [] else [.unknownContext name context]
    | none => []
  checkName .modifier name ++ empty ++ m.contexts.keys.flatMap (checkName .context) ++ unknown

/-- The faults of an entry of the resolution order. -/
def Item.check : Item → List LoadError
  | reference _ => []
  | set name _ => checkName .set name
  | modifier name m => m.check name

/-- The faults of a document. -/
def Document.check (d : Document) (file : Path) : List LoadError :=
  let version :=
    if d.version = documentVersion then [] else [LoadError.unsupportedVersion file d.version]
  version ++ d.sets.keys.flatMap (checkName .set) ++
    d.modifiers.entries.flatMap (fun (name, m) => m.check name) ++ d.order.flatMap Item.check

/-! ## External files -/

/-- The references of sources. -/
def sourceReferences (sources : List Source) : List String :=
  sources.filterMap fun
    | .reference target => some target
    | .inline _ => none

/-- The references in the contexts of a modifier. -/
def ModifierDefinition.references (m : ModifierDefinition) : List String :=
  m.contexts.values.flatMap sourceReferences

/-- The references of an entry of the resolution order. -/
def Item.references : Item → List String
  | reference target => [target]
  | set _ s => sourceReferences s.sources
  | modifier _ m => m.references

/-- All references of a document. -/
def Document.references (d : Document) : List String :=
  d.sets.values.flatMap (fun s => sourceReferences s.sources) ++
    d.modifiers.values.flatMap ModifierDefinition.references ++ d.order.flatMap Item.references

/-- The first of the paths with the same components. -/
def distinctPaths (paths : List Path) : List Path :=
  paths.foldl (fun kept p =>
    if kept.any (·.components = p.components) then kept else kept ++ [p]) []

/-- The files that references of a document at `file` lead to. -/
def Document.externalFiles (d : Document) (file : Path) : List Path :=
  distinctPaths (d.references.filterMap fun r =>
    match Target.parse r file.directory with
    | .ok (.file path _) => some path
    | _ => none)

end DesignTokens
