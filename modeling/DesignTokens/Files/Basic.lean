import DesignTokens.Path
import DesignTokens.Table

/-!
# Files

* `ReadError`, `FileSystem`: what reading a path gives;
* `MemoryFiles`: files kept under the normal forms of their paths;
* `Folder`: a directory with the files below it, read as an operating system does;
* `Folder.find`: what a path leads to, name by name. Names and paths have a greatest length.
-/

namespace DesignTokens

/-- Why a path cannot be read. -/
inductive ReadError where
  /-- No file of that path is kept. -/
  | notKept (path : Path)
  | noSuchFile
  | isDirectory
  | notDirectory
  | nameTooLong
  /-- No file has a zero character in its path. -/
  | zeroCharacter
  deriving DecidableEq, Repr

/-- The text of the error. -/
def ReadError.message : ReadError → String
  | notKept path => s!"file not found: {path}"
  | noSuchFile => "No such file or directory (os error 2)"
  | isDirectory => "Is a directory (os error 21)"
  | notDirectory => "Not a directory (os error 20)"
  | nameTooLong => "File name too long (os error 36)"
  | zeroCharacter => "file name contained an unexpected NUL byte"

/-- The text of the file at each path, or why there is none. -/
abbrev FileSystem := Path → Except ReadError String

/-! ## Files in memory -/

/-- Files under the normal forms of their paths. -/
structure MemoryFiles where
  files : Table Path String

namespace MemoryFiles

/-- No file. -/
def empty : MemoryFiles := ⟨.empty⟩

/-- One more file; it takes the place of the one with the same normal form. -/
def add (m : MemoryFiles) (path : Path) (text : String) : MemoryFiles :=
  ⟨m.files.insert path.normalize text⟩

/-- The files of a list, the last of each normal form. -/
def ofList (files : List (Path × String)) : MemoryFiles :=
  files.foldl (fun m f => m.add f.1 f.2) empty

/-- The number of files. -/
def size (m : MemoryFiles) : Nat := m.files.size

/-- The file with the normal form of a path. -/
def read (m : MemoryFiles) : FileSystem := fun path =>
  match m.files.get? path.normalize with
  | some text => .ok text
  | none => .error (.notKept path)

end MemoryFiles

/-! ## Files in a directory -/

/-- The files below the current directory, by the names that lead to them. -/
structure Folder where
  files : Table (List String) String

/-- What is found by following a path. -/
inductive Place where
  /-- A directory below the current one, by the names that lead to it. -/
  | directory (names : List String)
  /-- A directory that is not below the current one. -/
  | outside
  | file (text : String)

namespace Folder

/-- The folder of files with relative paths. -/
def ofList (files : List (String × String)) : Folder :=
  ⟨Table.ofList (files.map fun (name, text) => (Text.splitOn '/' name, text))⟩

/-- Whether the names lead to a directory: to the current one, or to one that has a file. -/
def hasDirectory (f : Folder) (names : List String) : Bool :=
  names.isEmpty || f.files.keys.any fun k => names.isPrefixOf k && names.length < k.length

/-- The greatest length of a name, in bytes. -/
def maxName : Nat := 255

/-- The greatest length of a path, in bytes. -/
def maxPath : Nat := 4095

/-- Why a name leads nowhere: a name that is too long is refused before it is looked up. -/
def missing (name : String) : ReadError :=
  if maxName < name.utf8ByteSize then .nameTooLong else .noSuchFile

/-- What a name in a directory leads to. -/
def child (f : Folder) (names : List String) (name : String) : Except ReadError Place :=
  if f.hasDirectory (names ++ [name]) then .ok (.directory (names ++ [name]))
  else match f.files.get? (names ++ [name]) with
    | some text => .ok (.file text)
    | none => .error (missing name)

/-- One segment of a path followed. -/
def step (f : Folder) (place : Place) (segment : String) : Except ReadError Place :=
  match place with
  | .file _ => .error .notDirectory
  | .outside => if segment ∈ ["", ".", ".."] then .ok .outside else .error (missing segment)
  | .directory names =>
    if segment ∈ ["", "."] then .ok place
    else if segment = ".." then
      if names.isEmpty then .ok .outside else .ok (.directory names.dropLast)
    else f.child names segment

/-- What a path leads to. -/
def find (f : Folder) (path : Path) : Except ReadError Place :=
  if '\x00' ∈ path.text.toList then .error .zeroCharacter
  else if path.text.isEmpty then .error .noSuchFile
  else if maxPath < path.text.utf8ByteSize then .error .nameTooLong
  else (Text.splitOn '/' path.text).foldlM f.step
    (if path.isAbsolute then .outside else .directory [])

/-- The text of a file. -/
def read (f : Folder) : FileSystem := fun path => do
  match ← f.find path with
  | .file text => return text
  | _ => throw .isDirectory

/-- Whether a path leads to anything. -/
def has (f : Folder) (path : Path) : Bool :=
  match f.find path with
  | .ok _ => true
  | .error _ => false

end Folder

end DesignTokens
