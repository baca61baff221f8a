import DesignTokens.Files.Basic
import DesignTokens.Json.Pointer
import DesignTokens.Tree.OfJson

/-!
# Token files

* `TokenFileError`: why a file has no token tree;
* `loadGroup`: the tree of a file, or of the part of it at a JSON pointer.
-/

namespace DesignTokens

/-- Why a file has no token tree. -/
inductive TokenFileError where
  | tree (cause : ParseError)
  | unreadable (cause : ReadError)
  | pointerNotFound (pointer : String) (file : Path)
  deriving DecidableEq, Repr

/-- The text of the error. -/
def TokenFileError.message : TokenFileError → String
  | tree cause => s!"Parse error: {cause.message}"
  | unreadable cause => s!"IO error: {cause.message}"
  | pointerNotFound pointer file => s!"JSON pointer '{pointer}' does not exist in {file}"

/-- The part of a document at a pointer; without a pointer, the document. -/
def scope (file : Path) (pointer : Option String) (document : Json) : Except TokenFileError Json :=
  match pointer with
  | none => .ok document
  | some p => match document.pointer? p with
    | some part => .ok part
    | none => .error (.pointerNotFound p file)

/-- The tree of a file, or of the part of it at a pointer. -/
def loadGroup (fs : FileSystem) (file : Path) (pointer : Option String) :
    Except TokenFileError Group := do
  let text ← (fs file).mapError .unreadable
  match Json.parse? text with
  | none => throw (.tree (.json file))
  | some document =>
    let part ← scope file pointer document
    (Group.ofJson file part).mapError .tree

end DesignTokens
