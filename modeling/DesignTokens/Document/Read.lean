import DesignTokens.Document.Basic
import DesignTokens.Json.Decoder

/-!
# Reading resolver documents

* `Source.decoder`, `Item.decoder`: a reference object first, else something in place. The whole value
  must be one, with everything in it;
* `Document.decoder`, `Document.parse?`.
-/

namespace DesignTokens

open Json

/-- An object with the string `$ref`; other members are not looked at. -/
def referenceDecoder : Decoder String :=
  Decoder.record ["$ref"] fun f => f.required "$ref" Decoder.string

/-- The members of an object. -/
def inlineDecoder : Decoder (List (String × Json)) := fun depth t =>
  (Decoder.value depth t).bind Json.members?

/-- The shape of a source. -/
def Source.decoder : Decoder Source := fun depth t => do
  let _ ← Decoder.value depth t
  (reference <$> referenceDecoder depth t) <|> (inline <$> inlineDecoder depth t)

/-- The fields of a set. -/
def SetDefinition.ofFields (f : Decoder.Fields) : Option SetDefinition := do
  return {
    description := ← f.optional "description" Decoder.string
    sources := ← f.default "sources" [] (Decoder.list Source.decoder) }

/-- The shape of a set. -/
def SetDefinition.decoder : Decoder SetDefinition :=
  Decoder.record ["description", "sources"] ofFields

/-- The fields of a modifier. -/
def ModifierDefinition.ofFields (f : Decoder.Fields) : Option ModifierDefinition := do
  return {
    description := ← f.optional "description" Decoder.string
    contexts := ← f.required "contexts" (Decoder.table (Decoder.list Source.decoder))
    default := ← f.optional "default" Decoder.string }

/-- The shape of a modifier. -/
def ModifierDefinition.decoder : Decoder ModifierDefinition :=
  Decoder.record ["description", "contexts", "default"] ofFields

/-- The kind of an entry in place: a name, or the place of that name among the kinds. -/
def tagDecoder (name : String) (index : Int) : Decoder Unit
  | _, .str (some s) => if s = name then some () else none
  | _, .num (some (.integer n)) => if n = index then some () else none
  | _, _ => none

/-- The shape of a set in place. -/
def Item.setDecoder : Decoder Item :=
  Decoder.record ["type", "name", "description", "sources"] fun f => do
    let _ ← f.required "type" (tagDecoder "set" 0)
    let name ← f.required "name" Decoder.string
    set name <$> SetDefinition.ofFields f

/-- The shape of a modifier in place. -/
def Item.modifierDecoder : Decoder Item :=
  Decoder.record ["type", "name", "description", "contexts", "default"] fun f => do
    let _ ← f.required "type" (tagDecoder "modifier" 1)
    let name ← f.required "name" Decoder.string
    modifier name <$> ModifierDefinition.ofFields f

/-- The shape of an entry of the resolution order. -/
def Item.decoder : Decoder Item := fun depth t => do
  let _ ← Decoder.value depth t
  (reference <$> referenceDecoder depth t) <|> setDecoder depth t <|> modifierDecoder depth t

/-- The shape of a document. -/
def Document.decoder : Decoder Document :=
  Decoder.record ["version", "name", "description", "sets", "modifiers", "resolutionOrder",
    "$schema", "$extensions", "$defs"] fun f => do
    return {
      version := ← f.required "version" Decoder.string
      name := ← f.optional "name" Decoder.string
      description := ← f.optional "description" Decoder.string
      sets := ← f.default "sets" .empty (Decoder.table SetDefinition.decoder)
      modifiers := ← f.default "modifiers" .empty (Decoder.table ModifierDefinition.decoder)
      order := ← f.required "resolutionOrder" (Decoder.list Item.decoder)
      schema := ← f.optional "$schema" Decoder.string
      extensions := ← f.optional "$extensions" Decoder.value
      definitions := ← f.optional "$defs" Decoder.value }

/-- The document of a text. -/
def Document.parse? (text : String) : Option Document := Document.decoder.parse? text

end DesignTokens
