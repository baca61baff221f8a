import DesignTokens.Json.Basic

/-!
# Resolver documents

A resolver document says which sources make up the base and the overlays.

* `Source`: a reference, or tokens in place; `SetDefinition`, `ModifierDefinition`;
* `Item`: an entry of the resolution order; `Document`;
* `Source.json`, …, `Document.json`: the document as a JSON value; absent parts are left out.
-/

namespace DesignTokens

/-- Where tokens come from: a reference, or the tokens themselves. -/
inductive Source where
  | reference (target : String)
  | inline (members : List (String × Json))

/-- Sources that are merged in order. -/
structure SetDefinition where
  description : Option String
  sources : List Source

/-- Contexts of which one is chosen. -/
structure ModifierDefinition where
  description : Option String
  contexts : Table String (List Source)
  default : Option String

/-- An entry of the resolution order. -/
inductive Item where
  | reference (target : String)
  | set (name : String) (definition : SetDefinition)
  | modifier (name : String) (definition : ModifierDefinition)

/-- A resolver document. -/
structure Document where
  version : String
  name : Option String
  description : Option String
  sets : Table String SetDefinition
  modifiers : Table String ModifierDefinition
  order : List Item
  schema : Option String
  extensions : Option Json
  definitions : Option Json

/-! ## As values -/

/-- A member, if there is a value for it. -/
def optionalMember (key : String) (value : Option Json) : List (String × Json) :=
  (value.map fun j => (key, j)).toList

/-- An object with the one member `$ref`. -/
def referenceJson (target : String) : Json := .obj [("$ref", .str target)]

/-- A source as a value. -/
def Source.json : Source → Json
  | reference target => referenceJson target
  | inline members => .obj members

/-- Sources as a value. -/
def sourcesJson (sources : List Source) : Json := .arr (sources.map Source.json)

/-- The members of a set. -/
def SetDefinition.members (s : SetDefinition) : List (String × Json) :=
  optionalMember "description" (s.description.map .str) ++ [("sources", sourcesJson s.sources)]

/-- The members of a modifier. -/
def ModifierDefinition.members (m : ModifierDefinition) : List (String × Json) :=
  optionalMember "description" (m.description.map .str) ++
    [("contexts", .obj (m.contexts.mapValues sourcesJson).entries)] ++
    optionalMember "default" (m.default.map .str)

/-- An entry of the resolution order as a value. -/
def Item.json : Item → Json
  | reference target => referenceJson target
  | set name s => .obj ([("type", .str "set"), ("name", .str name)] ++ s.members)
  | modifier name m => .obj ([("type", .str "modifier"), ("name", .str name)] ++ m.members)

/-- A document as a value. -/
def Document.json (d : Document) : Json := .obj (
  [("version", .str d.version)] ++
  optionalMember "name" (d.name.map .str) ++
  optionalMember "description" (d.description.map .str) ++
  [("sets", .obj (d.sets.mapValues fun s => .obj s.members).entries),
    ("modifiers", .obj (d.modifiers.mapValues fun m => .obj m.members).entries),
    ("resolutionOrder", .arr (d.order.map Item.json))] ++
  optionalMember "$schema" (d.schema.map .str) ++
  optionalMember "$extensions" d.extensions ++
  optionalMember "$defs" d.definitions)

end DesignTokens
