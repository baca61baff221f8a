import DesignTokens.Files.Tokens

/-!
# Errors of loading

* `TargetFault`, `NameKind`, `LoadError`: why a document cannot be loaded;
* `LoadError.message`, `LoadError.isGrammar`;
* `LoadError.ofTokenFile`: an error of a token file.
-/

namespace DesignTokens

/-- What is wrong with a reference. -/
inductive TargetFault where
  | elsewhere
  | remote
  | noFile
  | modifierAsSource
  deriving DecidableEq, Repr

/-- What is asked of the reference. -/
def TargetFault.text : TargetFault → String
  | elsewhere => "same-document references must point into #/sets or #/modifiers"
  | remote => "remote references are not loaded"
  | noFile => "empty file path"
  | modifierAsSource => "a modifier cannot be used as a source"

/-- What a name in a document is for. -/
inductive NameKind where
  | set
  | modifier
  | context
  deriving DecidableEq, Repr

/-- The word for it. -/
def NameKind.text : NameKind → String
  | set => "set"
  | modifier => "modifier"
  | context => "context"

/-- The version of documents. -/
def documentVersion : String := "2025.10"

/-- Why a document cannot be loaded. -/
inductive LoadError where
  | parse (file : Path)
  | unsupportedVersion (file : Path) (version : String)
  | invalidName (kind : NameKind) (name : String) (fault : NameFault)
  | emptyModifier (modifier : String)
  | unknownContext (modifier context : String)
  | missingSelection (modifier : String)
  | setNotFound (name reference : String)
  | modifierNotFound (name reference : String)
  | unsupportedReference (reference : String) (fault : TargetFault)
  /-- The sets under way, and at the end the one that is reached again. -/
  | circularSet (chain : List String)
  | fileRead (file : Path) (cause : ReadError)
  | pointerNotFound (file : Path) (pointer : String)
  | tokens (cause : ParseError)
  deriving DecidableEq, Repr

namespace LoadError

/-- The text of the error. -/
def message : LoadError → String
  | parse file => s!"Invalid resolver JSON in {file}: {ParseError.jsonFault}"
  | unsupportedVersion file version =>
    s!"Unsupported resolver version '{version}' in {file}, expected '{documentVersion}'"
  | invalidName kind name fault => s!"Invalid {kind.text} name '{name}': {fault.text}"
  | emptyModifier modifier => s!"Modifier '{modifier}' must declare at least one context"
  | unknownContext modifier context => s!"Modifier '{modifier}' has no context named '{context}'"
  | missingSelection modifier =>
    s!"Modifier '{modifier}' has no default context and no selection was given"
  | setNotFound name reference => s!"Set '{name}' not found (referenced as '{reference}')"
  | modifierNotFound name reference => s!"Modifier '{name}' not found (referenced as '{reference}')"
  | unsupportedReference reference fault => s!"Unsupported reference '{reference}': {fault.text}"
  | circularSet chain => "Circular set reference: " ++ Text.join " -> " chain
  | fileRead file cause => s!"Failed to read {file}: {cause.message}"
  | pointerNotFound file pointer => s!"JSON pointer '{pointer}' does not exist in {file}"
  | tokens cause => cause.message

/-- Whether some text is no JSON of the right shape. -/
def isGrammar : LoadError → Bool
  | parse _ => true
  | tokens (.json _) => true
  | _ => false

/-- The error of a token file. -/
def ofTokenFile (file : Path) : TokenFileError → LoadError
  | .tree cause => tokens cause
  | .unreadable cause => fileRead file cause
  | .pointerNotFound pointer file => pointerNotFound file pointer

end LoadError

end DesignTokens
