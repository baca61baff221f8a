import DesignTokens.Text.Split

/-!
# Paths of files

A path is kept as written, because messages show it so; two paths are compared by their components.

* `Path`, `Path.isAbsolute`, `Path.join`;
* `Path.components`: the root, a leading `.`, each `..` and each name;
* `Path.parent?`, `Path.directory`, `Path.stem?`: the directory, and the name without its extension;
* `Path.normalize`: without `.` and with each `..` cancelled against what precedes it.
-/

namespace DesignTokens

/-- A path as written. -/
structure Path where
  text : String
  deriving DecidableEq, Repr, Inhabited

namespace Path

instance : ToString Path := ⟨text⟩

/-- A part of a path. -/
inductive Component where
  | root
  | current
  | up
  | name (text : String)
  deriving DecidableEq, Repr

/-- The text of a component. -/
def Component.text : Component → String
  | root => "/"
  | current => "."
  | up => ".."
  | name s => s

/-- Whether the path begins at the root. -/
def isAbsolute (p : Path) : Bool := p.text.toList.head? = some '/'

/-- What is kept in front of the names: the root, or a leading dot. -/
def lead (cs : List Char) : List Char :=
  match cs with
  | '/' :: _ => ['/']
  | ['.'] => ['.']
  | '.' :: '/' :: _ => ['.']
  | _ => []

/-- A segment between slashes that names nothing. -/
def isVoid (segment : List Char) : Bool := segment = [] || segment = ['.']

/-- The components of a path. -/
def components (p : Path) : List Component :=
  let cs := p.text.toList
  let front := match lead cs with
    | ['/'] => [Component.root]
    | ['.'] => [Component.current]
    | _ => []
  let segments := (Text.splitChars '/' (cs.drop (lead cs).length)).filter fun s => !isVoid s
  front ++ segments.map fun s => if s = ['.', '.'] then .up else .name (String.ofList s)

/-- The path of `q` as seen from the directory `p`; an absolute `q` stands for itself. -/
def join (p q : Path) : Path :=
  if q.isAbsolute || p.text.isEmpty then q
  else if p.text.toList.getLast? = some '/' then ⟨p.text ++ q.text⟩
  else ⟨p.text ++ "/" ++ q.text⟩

/-- The path without its last component; none for the root and for the empty path. -/
def parent? (p : Path) : Option Path :=
  let cs := p.text.toList
  let front := lead cs
  let segments := (Text.splitChars '/' (cs.drop front.length)).reverse.dropWhile isVoid
  match segments with
  | [] => if front = ['.'] then some ⟨""⟩ else none
  | _ :: before =>
    let kept := (before.dropWhile isVoid).reverse
    some ⟨String.ofList (front ++ ['/'].intercalate kept)⟩

/-- The directory of a path; the empty path stands for the current one. -/
def directory (p : Path) : Path := p.parent?.getD ⟨""⟩

/-- The last component, if it is a name. -/
def fileName? (p : Path) : Option String :=
  match p.components.getLast? with
  | some (.name s) => some s
  | _ => none

/-- The name of the file up to its last dot; a dot in front is part of the name. -/
def stem? (p : Path) : Option String :=
  p.fileName?.map fun name =>
    match Text.splitLast '.' name.toList with
    | some (c :: before, _) => String.ofList (c :: before)
    | _ => name

/-! ## Normal form -/

/-- One component put behind a normal form, the last component first: `..` removes what precedes it,
and stays where nothing but the root precedes it. -/
def push (done : List Component) : Component → List Component
  | .current => done
  | .up => match done with
    | [] => [.up]
    | .root :: rest => .up :: .root :: rest
    | _ :: rest => rest
  | c => c :: done

/-- The text of components. -/
def ofComponents : List Component → Path
  | .root :: rest => ⟨"/" ++ Text.join "/" (rest.map Component.text)⟩
  | cs => ⟨Text.join "/" (cs.map Component.text)⟩

/-- The components without `.` and with every `..` cancelled. -/
def normalComponents (p : Path) : List Component := (p.components.foldl push []).reverse

/-- The path without `.` and with every `..` cancelled. -/
def normalize (p : Path) : Path := ofComponents p.normalComponents

end Path

end DesignTokens
