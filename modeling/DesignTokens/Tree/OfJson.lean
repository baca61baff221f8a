import DesignTokens.Tree.Basic
import DesignTokens.Json.Raw

/-!
# Reading token trees

An object with `$value` is a token and every other one a group; the document itself is a group.

* `NameFault`, `nameFault?`: why a name is refused;
* `ParseError`, `ParseError.message`;
* `Node.ofJson`, `Group.ofJson`, `Group.parse`: the tree of a value and of a text.
-/

namespace DesignTokens

/-- Why a name is refused. -/
inductive NameFault where
  | empty
  | dollar
  | brace
  | dot
  deriving DecidableEq, Repr

/-- What is asked of the name. -/
def NameFault.text : NameFault → String
  | empty => "must not be empty"
  | dollar => "must not start with '$'"
  | brace => "must not contain '\x7b' or '\x7d'"
  | dot => "must not contain '.'"

/-- The fault of a name, empty names first. -/
def nameFault? (name : String) : Option NameFault :=
  if name.isEmpty then some .empty
  else if Text.startsWith "$" name then some .dollar
  else if name.toList.any fun c => c = '{' || c = '}' then some .brace
  else if '.' ∈ name.toList then some .dot
  else none

/-- What is wrong with a node. -/
inductive NodeFault where
  | nullValue
  | typeNotText
  deriving DecidableEq, Repr

/-- What is asked of the node. -/
def NodeFault.text : NodeFault → String
  | nullValue => "$value must not be null"
  | typeNotText => "$type must be a string"

/-- Why a document has no token tree. -/
inductive ParseError where
  | json (file : Path)
  | notAnObject (path : String) (file : Path)
  | invalidName (name path : String) (file : Path) (fault : NameFault)
  | invalidNode (path : String) (file : Path) (fault : NodeFault)
  deriving DecidableEq, Repr

namespace ParseError

/-- The text of a fault found by the JSON grammar. -/
def jsonFault : String := "<json>"

/-- The text of the error. -/
def message : ParseError → String
  | json file => s!"Invalid JSON in {file}: {jsonFault}"
  | notAnObject path file => s!"Expected an object at '{path}' in {file}"
  | invalidName name path file fault =>
    s!"Invalid token name '{name}' at '{path}' in {file}: name {fault.text}"
  | invalidNode path file fault => s!"Invalid node at '{path}' in {file}: {fault.text}"

end ParseError

/-! ## From values to trees -/

/-- The path of a child. -/
def childPath (path name : String) : String :=
  if path.isEmpty then name else path ++ "." ++ name

/-- The type that `$type` names. -/
def typeOfJson (file : Path) (path : String) : Json → Except ParseError TokenType
  | .str name => .ok (.ofName name)
  | _ => .error (.invalidNode path file .typeNotText)

/-- The token of an object with `$value`. -/
def Token.ofMembers (file : Path) (path : String) (value : Json) (members : List (String × Json)) :
    Except ParseError Token := do
  if let .null := value then throw (.invalidNode path file .nullValue)
  let type ← match Table.find? "$type" members with
    | some j => some <$> typeOfJson file path j
    | none => .ok none
  return {
    value
    type
    description := (Table.find? "$description" members).bind Json.string?
    extensions := Table.find? "$extensions" members
    file := some file }

/-- What is said about a group after a member whose name begins with a dollar sign. -/
def GroupInfo.add (file : Path) (path : String) (info : GroupInfo) (key : String) (value : Json) :
    Except ParseError GroupInfo :=
  if key = "$type" then do
    let type ← typeOfJson file path value
    return { info with type := some type }
  else if key = "$description" then .ok { info with description := value.string? }
  else if key = "$extensions" then .ok { info with extensions := some value }
  else .ok { info with metadata := Table.alterEntries key (fun _ => value) info.metadata }

mutual

/-- The node of a value at a path. -/
def Node.ofJson (file : Path) (path : String) : Json → Except ParseError Node
  | .obj members =>
    match Table.find? "$value" members with
    | some value => Node.token <$> Token.ofMembers file path value members
    | none => do
      let (info, children) ← membersOfJson file path .empty members
      return .group info children
  | _ => .error (.notAnObject path file)

/-- What the members of a group say about it, after `info`, and its children. -/
def membersOfJson (file : Path) (path : String) (info : GroupInfo) :
    List (String × Json) → Except ParseError (GroupInfo × List (String × Node))
  | [] => .ok (info, [])
  | (key, value) :: rest => do
    if Text.startsWith "$" key then
      let info ← info.add file path key value
      membersOfJson file path info rest
    else
      if let some fault := nameFault? key then
        throw (.invalidName key (childPath path key) file fault)
      let node ← Node.ofJson file (childPath path key) value
      let (info, children) ← membersOfJson file path info rest
      return (info, (key, node) :: children)

end

/-- The group of a whole document; it is a group even if it has `$value`. -/
def Group.ofJson (file : Path) : Json → Except ParseError Group
  | .obj members => do
    let (info, children) ← membersOfJson file "" .empty members
    return ⟨info, children⟩
  | _ => .error (.notAnObject "" file)

/-- The group of a text. -/
def Group.parse (file : Path) (text : String) : Except ParseError Group :=
  match Json.parse? text with
  | some j => Group.ofJson file j
  | none => .error (.json file)

end DesignTokens
