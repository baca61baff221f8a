import DesignTokens.Json.Raw

/-!
# Reading values of fixed shapes

A decoder reads a value of some type from the tree of a JSON text. Only what it looks at has to have a
value: the members of a record that it does not know may hold anything.

* `Decoder`: from a depth of arrays and objects and a tree;
* `string`, `boolean`, `double`, `value`, `nullable`, `list`, `table`, `choice`;
* `record`: an object with each known field at most once, or an array of the fields in order;
* `Fields.required`, `Fields.default`, `Fields.optional`: the fields of a record.
-/

namespace DesignTokens.Json

/-- Reads a tree with at most `depth` arrays and objects inside each other. -/
abbrev Decoder (α : Type) := (depth : Nat) → Raw → Option α

namespace Decoder

variable {α : Type}

/-- A string. -/
def string : Decoder String
  | _, .str s => s
  | _, _ => none

/-- A boolean. -/
def boolean : Decoder Bool
  | _, .bool b => some b
  | _, _ => none

/-- A number, as the nearest double. -/
def double : Decoder Float
  | _, .num n => n.map Number.toFloat
  | _, _ => none

/-- Any value. -/
def value : Decoder Json := fun depth t => t.value? depth

/-- A value of the shape, or `null`. -/
def nullable (read : Decoder α) : Decoder (Option α)
  | _, .null => some none
  | depth, t => (read depth t).map some

/-- An array of values of one shape. -/
def list (read : Decoder α) : Decoder (List α)
  | d + 1, .arr items => items.mapM (read d)
  | _, _ => none

/-- An object whose members have one shape; a repeated member keeps its first place and its last
value. -/
def table (read : Decoder α) : Decoder (Table String α)
  | d + 1, .obj ms => do
    let entries ← ms.mapM fun (key, t) => do
      let key ← key
      let a ← read d t
      some (key, a)
    some (Table.ofList entries)
  | _, _ => none

/-- One of several names: as a string, or as the only member of an object, with the value `null`. -/
def choice (names : List (String × α)) : Decoder α
  | _, .str (some s) => Table.find? s names
  | _ + 1, .obj [(some s, .null)] => Table.find? s names
  | _, _ => none

/-! ## Records -/

/-- The trees of the fields of a record, and the depth that is left for them. -/
structure Fields where
  depth : Nat
  trees : Table String Raw

/-- The members with known names; none if one of them comes twice, or if some name is no text. -/
def knownMembers (names : List String) : List (Option String × Raw) → Option (List (String × Raw))
  | [] => some []
  | (none, _) :: _ => none
  | (some key, t) :: rest => do
    let known ← knownMembers names rest
    if key ∈ names then
      if (Table.find? key known).isSome then none else some ((key, t) :: known)
    else some known

/-- The fields of a record with the names, from an object or from an array. -/
def fields (names : List String) : Decoder Fields
  | d + 1, .obj ms => (knownMembers names ms).map fun known => ⟨d, ⟨known⟩⟩
  | d + 1, .arr items => if items.length ≤ names.length then some ⟨d, ⟨names.zip items⟩⟩ else none
  | _, _ => none

/-- A record with the fields of the names. -/
def record (names : List String) (build : Fields → Option α) : Decoder α :=
  fun depth t => (fields names depth t).bind build

/-- A field that must be there. -/
def Fields.required (f : Fields) (name : String) (read : Decoder α) : Option α :=
  (f.trees.get? name).bind (read f.depth)

/-- A field with a value of its own when it is absent. -/
def Fields.default (f : Fields) (name : String) (a : α) (read : Decoder α) : Option α :=
  match f.trees.get? name with
  | none => some a
  | some t => read f.depth t

/-- A field that may be absent or `null`. -/
def Fields.optional (f : Fields) (name : String) (read : Decoder α) : Option (Option α) :=
  f.default name none (nullable read)

end Decoder

/-- The value of a whole text of one shape. -/
def Decoder.parse? {α : Type} (read : Decoder α) (text : String) : Option α :=
  (Raw.read text).bind (read maxDepth)

/-- The value of one shape that a JSON value stands for. -/
def Decoder.ofJson? {α : Type} (read : Decoder α) (j : Json) : Option α :=
  read maxDepth (.ofJson j)

end DesignTokens.Json
