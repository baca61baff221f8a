import DesignTokens.Tree.Basic

/-!
# Flattening

The trees of a context merged into one table of tokens by their paths. Trees are taken in order and
the last token at a path stays, except where the trees contradict each other: a path that is a token
here and a group there, or that has tokens of two types, is left out and reported once.

* `FlatToken`, `GroupMeta`, `MergeError`, `Flat`;
* `Entry`, `Tree.entries`: the groups and tokens of a tree in the order of the document;
* `Flat.add`: one entry merged; `Flat.ofTrees`: the trees of one context;
* `Contexts`, `flatten`: all contexts, the base first.
-/

namespace DesignTokens

/-- A token with its path and its own or inherited type. -/
structure FlatToken where
  /-- The segments joined with dots. -/
  path : String
  segments : List String
  value : Json
  type : Option TokenType
  description : Option String
  extensions : Option Json
  origin : Origin

/-- What the trees say about a group; later trees add to earlier ones. -/
structure GroupMeta where
  type : Option TokenType
  description : Option String
  extensions : Option Json
  /-- The file of the first tree with the group. -/
  file : Path

/-- A contradiction between trees. -/
inductive MergeError where
  | tokenAndGroup (path : String) (tokenFile groupFile : Path)
  | types (path : String) (former latter : TokenType) (formerFile latterFile : Path)
  deriving DecidableEq, Repr

namespace MergeError

/-- The path that is left out. -/
def path : MergeError → String
  | tokenAndGroup path _ _ => path
  | types path _ _ _ _ => path

/-- The text of the error. -/
def message : MergeError → String
  | tokenAndGroup path tokenFile groupFile =>
    s!"'{path}' is a token in {tokenFile} but a group in {groupFile}"
  | types path former latter formerFile latterFile =>
    s!"'{path}' is declared as {former} in {formerFile} but as {latter} in {latterFile}"

end MergeError

/-- The merged trees of one context. -/
structure Flat where
  tokens : Table String FlatToken
  groups : Table String GroupMeta
  errors : List MergeError

/-- No tree merged. -/
def Flat.empty : Flat := ⟨.empty, .empty, []⟩

/-! ## The entries of a tree -/

/-- A group or a token of a tree. -/
inductive Entry where
  /-- A group; `first` is the file of its first token, or of the tree if that token has none. -/
  | group (path : String) (info : GroupInfo) (file first : Path)
  | token (t : FlatToken)

mutual

/-- The file of the first token below a node that knows its file. -/
def Node.firstFile? : Node → Option Path
  | .token t => t.file
  | .group _ children => firstFile? children

/-- The file of the first token below several nodes that knows its file. -/
def firstFile? : List (String × Node) → Option Path
  | [] => none
  | (_, n) :: rest => match n.firstFile? with
    | some file => some file
    | none => firstFile? rest

end

/-- The path of segments. -/
def joinPath (segments : List String) : String := Text.join "." segments

mutual

/-- The entries of a node at some segments, inside groups of the type `inherited`. -/
def Node.entries (origin : Origin) (segments : List String) (inherited : Option TokenType) :
    Node → List Entry
  | .token t => [.token {
      path := joinPath segments
      segments
      value := t.value
      type := t.type <|> inherited
      description := t.description
      extensions := t.extensions
      origin := { origin with file := t.file.getD origin.file } }]
  | .group info children =>
    .group (joinPath segments) info origin.file ((firstFile? children).getD origin.file) ::
      childEntries origin segments (info.type <|> inherited) children

/-- The entries of the children of a group. -/
def childEntries (origin : Origin) (segments : List String) (inherited : Option TokenType) :
    List (String × Node) → List Entry
  | [] => []
  | (name, n) :: rest =>
    n.entries origin (segments ++ [name]) inherited ++ childEntries origin segments inherited rest

end

/-- The entries of a tree. The type of the document itself is not inherited. -/
def Tree.entries (t : Tree) : List Entry :=
  childEntries ⟨t.file, t.context⟩ [] none t.tokens.children

/-! ## Merging -/

namespace Flat

/-- Whether the path is left out. -/
def conflicted (f : Flat) (path : String) : Bool := f.errors.any (·.path = path)

/-- A contradiction noted. -/
def conflict (f : Flat) (e : MergeError) : Flat := { f with errors := f.errors ++ [e] }

/-- What is known of a group after one more tree. -/
def metaOf (info : GroupInfo) (file : Path) (former : Option GroupMeta) : GroupMeta :=
  match former with
  | none => ⟨info.type, info.description, info.extensions, file⟩
  | some m => { m with
      type := info.type <|> m.type
      description := info.description <|> m.description
      extensions := info.extensions <|> m.extensions }

/-- A group merged: a contradiction if its path is a token. -/
def addGroup (f : Flat) (path : String) (info : GroupInfo) (file first : Path) : Flat :=
  let f := match f.tokens.get? path with
    | some t =>
      if f.conflicted path then f else f.conflict (.tokenAndGroup path t.origin.file first)
    | none => f
  { f with groups := f.groups.alter path (metaOf info file) }

/-- A token merged: a contradiction if its path is a group or has a token of another type. A token
without a type keeps the type of the one that it replaces. -/
def addToken (f : Flat) (t : FlatToken) : Flat :=
  if f.conflicted t.path then f
  else match f.groups.get? t.path with
    | some g => f.conflict (.tokenAndGroup t.path t.origin.file g.file)
    | none =>
      match f.tokens.get? t.path with
      | none => { f with tokens := f.tokens.insert t.path t }
      | some former =>
        match former.type, t.type with
        | some a, some b =>
          if a = b then { f with tokens := f.tokens.insert t.path t }
          else f.conflict (.types t.path a b former.origin.file t.origin.file)
        | some a, none => { f with tokens := f.tokens.insert t.path { t with type := some a } }
        | none, _ => { f with tokens := f.tokens.insert t.path t }

/-- One entry merged. -/
def add (f : Flat) : Entry → Flat
  | .group path info file first => f.addGroup path info file first
  | .token t => f.addToken t

/-- The tables without the tokens at contradictory paths. -/
def settle (f : Flat) : Flat :=
  { f with tokens := ⟨f.tokens.entries.filter fun e => !f.conflicted e.1⟩ }

/-- The trees of one context merged in order. -/
def ofTrees (trees : List Tree) : Flat := ((trees.flatMap Tree.entries).foldl add empty).settle

end Flat

/-- Something for every context, in order. -/
abbrev Contexts (α : Type) := Table Context α

/-- The contexts of trees: the base, then the others as they come. -/
def contextsOf (trees : List Tree) : List Context := (.base :: trees.map Tree.context).eraseDups

/-- The trees of every context merged. -/
def flatten (trees : List Tree) : Contexts Flat :=
  ⟨(contextsOf trees).map fun c => (c, Flat.ofTrees (trees.filter (·.context = c)))⟩

end DesignTokens
