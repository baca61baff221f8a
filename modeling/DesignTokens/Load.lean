import DesignTokens.Document.Expand
import DesignTokens.Document.Read

/-!
# Loading

* `readDocument`, `loadResolver`: a resolver document with its files read as they are needed;
* `preload`, `loadPreloaded`: the same with all files read beforehand; those that cannot be read are
  missed only when they are needed;
* `MemoryEntry`, `loadMemory`: token documents with labels of contexts, without a resolver document.
-/

namespace DesignTokens

/-- The document at a path. -/
def readDocument (fs : FileSystem) (file : Path) : Except LoadError Document :=
  match fs file with
  | .error cause => .error (.fileRead file cause)
  | .ok text => match Document.parse? text with
    | some d => .ok d
    | none => .error (.parse file)

/-- The trees and modifiers of the document at a path. -/
def loadResolver (fs : FileSystem) (file : Path) (selections : Table String String) : LoadResult :=
  match readDocument fs file with
  | .error e => .failed [e]
  | .ok d => Setting.expand ⟨d, file, fs, selections⟩

/-- The files that can be read. -/
def preload (fs : FileSystem) (files : List Path) : MemoryFiles :=
  files.foldl (fun m file => match fs file with
    | .ok text => m.add file text
    | .error _ => m) .empty

/-- The trees and modifiers of the document at a path, its files read beforehand. -/
def loadPreloaded (fs : FileSystem) (file : Path) (selections : Table String String) : LoadResult :=
  match readDocument fs file with
  | .error e => .failed [e]
  | .ok d => Setting.expand ⟨d, file, (preload fs (d.externalFiles file)).read, selections⟩

/-! ## Documents in memory -/

/-- A token document with the label of its context. -/
structure MemoryEntry where
  label : Option String
  text : String

/-- The trees of documents, and the errors of those without a tree. -/
def loadMemory (entries : Table String MemoryEntry) : LoadResult :=
  entries.entries.foldl (fun r (path, entry) =>
    match Group.parse ⟨path⟩ entry.text with
    | .ok group => { r with trees := r.trees ++ [⟨.ofLabel entry.label, group, ⟨path⟩⟩] }
    | .error e => { r with errors := r.errors ++ [.tokens e] }) (.failed [])

end DesignTokens
