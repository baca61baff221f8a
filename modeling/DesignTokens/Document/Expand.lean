import DesignTokens.Document.Check
import DesignTokens.Modifier

/-!
# Expanding resolver documents

The trees of a document: first those of the base in resolution order, then those of the overlays.

* `Setting`: a document and where it is read; `pendingSets`: the sets that are not under way;
* `loadFile`, `loadInline`, `loadSources`: the trees of sources. A set is expanded in place; the names
  of the sets under way are known, and a reference to one of them is a cycle;
* `Loaded`, `LoadResult`; `applyModifier`, `applyItem`, `expand`: a whole document. Any error leaves no
  trees at all.
-/

namespace DesignTokens

/-- A document, where it lies, how files are read, and the contexts chosen for modifiers. -/
structure Setting where
  document : Document
  file : Path
  fs : FileSystem
  selections : Table String String

namespace Setting

variable (s : Setting)

/-- The directory of the document. -/
def directory : Path := s.file.directory

/-- The number of sets of the document that are not on the stack. -/
def pendingSets (stack : List String) : Nat :=
  (s.document.sets.keys.filter fun name => name ∉ stack).length

theorem pendingSets_lt {stack : List String} {name : String} (hk : name ∈ s.document.sets.keys)
    (hs : name ∉ stack) : s.pendingSets (stack ++ [name]) < s.pendingSets stack := by
  have h : s.document.sets.keys.filter (fun n => n ∉ stack ++ [name]) =
      (s.document.sets.keys.filter fun n => n ∉ stack).filter fun n => n ≠ name := by
    rw [List.filter_filter]
    congr 1
    funext n
    simp [and_comm]
  unfold pendingSets
  rw [h, List.length_filter_lt_length_iff_exists]
  exact ⟨name, by simp [hk, hs], by simp⟩

/-! ## Sources -/

/-- The tree of a file, or of a part of it. -/
def loadFile (path : Path) (pointer : Option String) : Except LoadError Tree :=
  match loadGroup s.fs path pointer with
  | .ok group => .ok ⟨.base, group, path⟩
  | .error e => .error (.ofTokenFile path e)

/-- The tree of tokens in place; their file is the document. -/
def loadInline (members : List (String × Json)) : Except LoadError Tree :=
  match Group.ofJson s.file (.obj members) with
  | .ok group => .ok ⟨.base, group, s.file⟩
  | .error e => .error (.tokens e)

/-- The trees of sources inside the sets of the stack, up to the first error. -/
def loadSources (stack : List String) (sources : List Source) : Except LoadError (List Tree) :=
  match sources with
  | [] => .ok []
  | .inline members :: rest => do
    let tree ← s.loadInline members
    let trees ← loadSources stack rest
    return tree :: trees
  | .reference r :: rest => do
    match ← Target.parse r s.directory with
    | .file path pointer =>
      let tree ← s.loadFile path pointer
      let trees ← loadSources stack rest
      return tree :: trees
    | .modifier _ => throw (.unsupportedReference r .modifierAsSource)
    | .set name =>
      match h : s.document.sets.get? name with
      | none => throw (.setNotFound name r)
      | some definition =>
        if hs : name ∈ stack then throw (.circularSet (stack ++ [name]))
        else
          have := s.pendingSets_lt (Table.mem_keys_of_get?_eq_some h) hs
          let inner ← loadSources (stack ++ [name]) definition.sources
          let trees ← loadSources stack rest
          return inner ++ trees
termination_by (s.pendingSets stack, sources.length)

end Setting

/-! ## The resolution order -/

/-- What is loaded so far. -/
structure Loaded where
  base : List Tree
  overlays : List Tree
  modifiers : List Modifier

/-- Nothing loaded. -/
def Loaded.empty : Loaded := ⟨[], [], []⟩

/-- Trees added to the base. -/
def Loaded.addBase (l : Loaded) (trees : List Tree) : Loaded := { l with base := l.base ++ trees }

/-- The trees of an overlay. -/
def overlayTrees (c : Context) (trees : List Tree) : List Tree :=
  trees.map fun t => { t with context := c }

namespace Setting

variable (s : Setting)

/-- The context chosen for a modifier. -/
def selected (name : String) (m : ModifierDefinition) : Except LoadError String :=
  match s.selections.get? name <|> m.default with
  | none => .error (.missingSelection name)
  | some context =>
    if m.contexts.contains context then .ok context else .error (.unknownContext name context)

/-- One context of a modifier: part of the base if it is chosen, else an overlay if it has tokens. -/
def applyContext (modifier chosen : String) (l : Loaded × List String) (context : String)
    (sources : List Source) : Except LoadError (Loaded × List String) := do
  let (loaded, overlays) := l
  let trees ← s.loadSources [] sources
  if context = chosen then return (loaded.addBase trees, overlays)
  else if trees.any (·.tokens.hasTokens) then
    let overlay := overlayTrees (.variant (some modifier) context) trees
    return ({ loaded with overlays := loaded.overlays ++ overlay }, overlays ++ [context])
  else return (loaded, overlays)

/-- A modifier with all its contexts. -/
def applyModifier (l : Loaded) (name : String) (m : ModifierDefinition) : Except LoadError Loaded := do
  let chosen ← s.selected name m
  let (loaded, contexts) ← m.contexts.entries.foldlM
    (fun l (context, sources) => s.applyContext name chosen l context sources) (l, [])
  let modifier := ⟨name, Modifier.attributeOf name, m.default, chosen, contexts⟩
  return { loaded with modifiers := loaded.modifiers ++ [modifier] }

/-- An entry of the resolution order. -/
def applyItem (l : Loaded) : Item → Except LoadError Loaded
  | .set name definition => do
    let trees ← s.loadSources [name] definition.sources
    return l.addBase trees
  | .modifier name m => s.applyModifier l name m
  | .reference r => do
    match ← Target.parse r s.directory with
    | .set name =>
      match s.document.sets.get? name with
      | none => throw (.setNotFound name r)
      | some definition =>
        let trees ← s.loadSources [name] definition.sources
        return l.addBase trees
    | .modifier name =>
      match s.document.modifiers.get? name with
      | none => throw (.modifierNotFound name r)
      | some m => s.applyModifier l name m
    | .file path pointer =>
      let tree ← s.loadFile path pointer
      return l.addBase [tree]

end Setting

/-- Trees and modifiers, or errors. -/
structure LoadResult where
  trees : List Tree
  modifiers : List Modifier
  errors : List LoadError

namespace LoadResult

/-- Nothing but errors. -/
def failed (errors : List LoadError) : LoadResult := ⟨[], [], errors⟩

/-- Whether there is no error. -/
def isOk (r : LoadResult) : Bool := r.errors.isEmpty

end LoadResult

/-- The trees and the modifiers of a document. -/
def Setting.expand (s : Setting) : LoadResult :=
  match s.document.check s.file with
  | [] =>
    match s.document.order.foldlM s.applyItem Loaded.empty with
    | .ok l => ⟨l.base ++ l.overlays, l.modifiers, []⟩
    | .error e => .failed [e]
  | errors => .failed errors

end DesignTokens
