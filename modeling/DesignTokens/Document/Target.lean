import DesignTokens.Document.Error

/-!
# Targets of references

* `Target`: a set, a modifier, or a file and a place in it;
* `Target.parse`: the target of a reference in a document of some directory;
* `unescapeName`: in a name `~1` stands for a slash and `~0` for a tilde.
-/

namespace DesignTokens

/-- What a reference in a document leads to. -/
inductive Target where
  | set (name : String)
  | modifier (name : String)
  | file (path : Path) (pointer : Option String)
  deriving DecidableEq, Repr

/-- A name without its escapes. -/
def unescapeName (cs : List Char) : List Char :=
  Text.replacePair '~' '0' '~' (Text.replacePair '~' '1' '/' cs)

/-- The file of a reference and the pointer behind its first hash, unless that is empty. -/
def fileAndPointer (reference : String) : String × Option String :=
  match Text.splitFirst '#' reference.toList with
  | none => (reference, none)
  | some (file, []) => (String.ofList file, none)
  | some (file, pointer) => (String.ofList file, some (String.ofList pointer))

/-- The target of a reference, files as seen from a directory. -/
def Target.parse (reference : String) (directory : Path) : Except LoadError Target :=
  match Text.stripChars? "#/sets/".toList reference.toList with
  | some name => .ok (.set (String.ofList (unescapeName name)))
  | none =>
    match Text.stripChars? "#/modifiers/".toList reference.toList with
    | some name => .ok (.modifier (String.ofList (unescapeName name)))
    | none =>
      if Text.startsWith "#" reference then .error (.unsupportedReference reference .elsewhere)
      else if Text.holds "://" reference then .error (.unsupportedReference reference .remote)
      else
        let (name, pointer) := fileAndPointer reference
        if name.isEmpty then .error (.unsupportedReference reference .noFile)
        else .ok (.file (directory.join ⟨name⟩) pointer)

end DesignTokens
