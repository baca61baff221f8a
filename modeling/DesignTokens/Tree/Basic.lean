import DesignTokens.Context
import DesignTokens.Json.Basic
import DesignTokens.TokenType

/-!
# Token trees

* `Token`, `GroupInfo`, `Node`, `Group`: a tree of groups with tokens as leaves;
* `Node.tokenCount`, `Group.tokenCount`, `Group.hasTokens`;
* `Group.insert`: a child put in or replaced;
* `Tree`: the tree of one file in one context.
-/

namespace DesignTokens

/-- A leaf: a value, with what is said about it. -/
structure Token where
  value : Json
  type : Option TokenType
  description : Option String
  extensions : Option Json
  /-- The file from which the token was read. -/
  file : Option Path

/-- What is said about a group. -/
structure GroupInfo where
  type : Option TokenType
  description : Option String
  extensions : Option Json
  /-- The other members whose names begin with a dollar sign. -/
  metadata : List (String × Json)

/-- Nothing said. -/
def GroupInfo.empty : GroupInfo := ⟨none, none, none, []⟩

/-- A child of a group. -/
inductive Node where
  | token (t : Token)
  | group (info : GroupInfo) (children : List (String × Node))

/-- A group with its children in order. -/
structure Group where
  info : GroupInfo
  children : List (String × Node)

/-- The group without children. -/
def Group.empty : Group := ⟨.empty, []⟩

/-- The group as a child. -/
def Group.node (g : Group) : Node := .group g.info g.children

mutual

/-- The number of tokens below a node. -/
def Node.tokenCount : Node → Nat
  | .token _ => 1
  | .group _ children => childTokenCount children

/-- The number of tokens below several nodes. -/
def childTokenCount : List (String × Node) → Nat
  | [] => 0
  | (_, n) :: rest => n.tokenCount + childTokenCount rest

end

namespace Group

/-- The number of tokens in the group, at any depth. -/
def tokenCount (g : Group) : Nat := childTokenCount g.children

/-- Whether the group has a token at any depth. -/
def hasTokens (g : Group) : Bool := g.tokenCount > 0

/-- The child of a name. -/
def get? (g : Group) (name : String) : Option Node := Table.find? name g.children

/-- The group with a child; a child of the same name is replaced in its place. -/
def insert (g : Group) (name : String) (n : Node) : Group :=
  { g with children := Table.alterEntries name (fun _ => n) g.children }

end Group

/-- The tokens of one file in one context. -/
structure Tree where
  context : Context
  tokens : Group
  file : Path

end DesignTokens
