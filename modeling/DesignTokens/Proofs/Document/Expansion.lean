import DesignTokens.Document.Expand
import DesignTokens.Proofs.Steps

/-!
# What sources expand to

Tokens in place and files stand for one tree, and a set stands for its own sources, in the place of the
reference to it. The names of the sets under way are on a stack.

* `FileSystem.Loads`: what it takes to load a file, or a part of it;
* `Setting.Expands`: the trees of sources; **`loadSources_eq_ok_iff`**: loading succeeds with these
  trees, and with no others;
* `Setting.Resolves`: a source that stands for something; `Expands.resolves`, `Expands.inner`: every
  source of an expansion does, and the sets in it expand inside it.
-/

namespace DesignTokens

/-! ## Files -/

/-- The part of a document at a pointer; without a pointer, the document. -/
def PartAt (document : Json) : Option String → Json → Prop
  | none, part => part = document
  | some pointer, part => document.pointer? pointer = some part

/-- A file can be read, its text is a value, the value has a part at the pointer, and the part is a
group of tokens. -/
def FileSystem.Loads (fs : FileSystem) (path : Path) (pointer : Option String) (group : Group) :
    Prop :=
  ∃ text document part, fs path = .ok text ∧ Json.parse? text = some document ∧
    PartAt document pointer part ∧ Group.ofJson path part = .ok group

theorem scope_eq_ok {path : Path} {pointer : Option String} {document part : Json} :
    scope path pointer document = .ok part ↔ PartAt document pointer part := by
  unfold scope PartAt
  cases pointer with
  | none => exact ⟨fun h => (Except.ok.inj h).symm, fun h => by rw [h]⟩
  | some p => cases h : document.pointer? p <;> simp [h]

theorem loadGroup_eq_ok {fs : FileSystem} {path : Path} {pointer : Option String} {group : Group} :
    loadGroup fs path pointer = .ok group ↔ fs.Loads path pointer group := by
  unfold loadGroup FileSystem.Loads
  rw [bind_eq_ok]
  constructor
  · rintro ⟨text, read, h⟩
    cases parsed : Json.parse? text with
    | none => rw [parsed] at h; cases h
    | some document =>
      rw [parsed] at h
      obtain ⟨part, hpart, h⟩ := bind_eq_ok.1 h
      exact ⟨text, document, part, mapError_eq_ok.1 read, parsed, scope_eq_ok.1 hpart,
        mapError_eq_ok.1 h⟩
  · rintro ⟨text, document, part, read, parsed, hpart, h⟩
    refine ⟨text, mapError_eq_ok.2 read, ?_⟩
    rw [parsed]
    exact bind_eq_ok.2 ⟨part, scope_eq_ok.2 hpart, mapError_eq_ok.2 h⟩

namespace Setting

variable {s : Setting}

theorem loadFile_eq_ok {path : Path} {pointer : Option String} {tree : Tree} :
    s.loadFile path pointer = .ok tree ↔
      ∃ group, s.fs.Loads path pointer group ∧ tree = ⟨.base, group, path⟩ := by
  unfold loadFile
  simp only [← loadGroup_eq_ok]
  cases loadGroup s.fs path pointer <;> simp [eq_comm]

theorem loadInline_eq_ok {members : List (String × Json)} {tree : Tree} :
    s.loadInline members = .ok tree ↔
      ∃ group, Group.ofJson s.file (.obj members) = .ok group ∧ tree = ⟨.base, group, s.file⟩ := by
  unfold loadInline
  cases Group.ofJson s.file (.obj members) <;> simp [eq_comm]

/-! ## The trees of sources -/

variable (s) in
/-- What sources inside the sets of a stack expand to, depth first and each in its place. -/
inductive Expands : List String → List Source → List Tree → Prop
  | nil {stack : List String} : Expands stack [] []
  | inline {stack : List String} {members : List (String × Json)} {group : Group}
      {sources : List Source} {trees : List Tree}
      (tokens : Group.ofJson s.file (.obj members) = .ok group)
      (rest : Expands stack sources trees) :
      Expands stack (.inline members :: sources) (⟨.base, group, s.file⟩ :: trees)
  | file {stack : List String} {r : String} {path : Path} {pointer : Option String} {group : Group}
      {sources : List Source} {trees : List Tree}
      (target : Target.parse r s.directory = .ok (.file path pointer))
      (loads : s.fs.Loads path pointer group)
      (rest : Expands stack sources trees) :
      Expands stack (.reference r :: sources) (⟨.base, group, path⟩ :: trees)
  | set {stack : List String} {r name : String} {definition : SetDefinition}
      {sources : List Source} {within trees : List Tree}
      (target : Target.parse r s.directory = .ok (.set name))
      (defined : s.document.sets.get? name = some definition)
      (entered : name ∉ stack)
      (inner : Expands (stack ++ [name]) definition.sources within)
      (rest : Expands stack sources trees) :
      Expands stack (.reference r :: sources) (within ++ trees)

/-! ## Loading, source by source -/

section Equations

variable {stack : List String} {rest : List Source} {r name : String}

theorem loadSources_nil (stack : List String) : s.loadSources stack [] = .ok [] := by
  rw [loadSources]

theorem loadSources_inline {members : List (String × Json)} :
    s.loadSources stack (.inline members :: rest) = do
      let tree ← s.loadInline members
      let trees ← s.loadSources stack rest
      return tree :: trees := by
  rw [loadSources]

theorem loadSources_file {path : Path} {pointer : Option String}
    (target : Target.parse r s.directory = .ok (.file path pointer)) :
    s.loadSources stack (.reference r :: rest) = do
      let tree ← s.loadFile path pointer
      let trees ← s.loadSources stack rest
      return tree :: trees := by
  rw [loadSources, target]
  rfl

theorem loadSources_nowhere {e : LoadError} (target : Target.parse r s.directory = .error e) :
    s.loadSources stack (.reference r :: rest) = .error e := by
  rw [loadSources, target]
  rfl

theorem loadSources_modifier (target : Target.parse r s.directory = .ok (.modifier name)) :
    s.loadSources stack (.reference r :: rest) =
      .error (.unsupportedReference r .modifierAsSource) := by
  rw [loadSources, target]
  rfl

theorem loadSources_undefined (target : Target.parse r s.directory = .ok (.set name))
    (undefined : s.document.sets.get? name = none) :
    s.loadSources stack (.reference r :: rest) = .error (.setNotFound name r) := by
  rw [loadSources, target]
  simp only [bind, Except.bind]
  split
  · rfl
  · rename_i definition defined
    rw [undefined] at defined
    cases defined

variable {definition : SetDefinition} (target : Target.parse r s.directory = .ok (.set name))
  (defined : s.document.sets.get? name = some definition)

include target defined

theorem loadSources_circular (underWay : name ∈ stack) :
    s.loadSources stack (.reference r :: rest) = .error (.circularSet (stack ++ [name])) := by
  rw [loadSources, target]
  simp only [bind, Except.bind]
  split
  · rename_i undefined
    rw [defined] at undefined
    cases undefined
  · rw [dif_pos underWay]
    rfl

theorem loadSources_set (entered : name ∉ stack) :
    s.loadSources stack (.reference r :: rest) = do
      let within ← s.loadSources (stack ++ [name]) definition.sources
      let later ← s.loadSources stack rest
      return within ++ later := by
  rw [loadSources, target]
  simp only [bind, Except.bind]
  split
  · rename_i undefined
    rw [defined] at undefined
    cases undefined
  · rename_i definition' defined'
    obtain rfl : definition' = definition := Option.some.inj (defined'.symm.trans defined)
    rw [dif_neg entered]

end Equations

/-- **Induction on sources**, next to each other and inside the sets that are not under way, which become
fewer. -/
theorem sources_induction {P : List String → List Source → Prop} (nil : ∀ stack, P stack [])
    (inline : ∀ stack members rest, P stack rest → P stack (.inline members :: rest))
    (reference : ∀ stack r rest, (∀ name definition, Target.parse r s.directory = .ok (.set name) →
      s.document.sets.get? name = some definition → name ∉ stack →
        P (stack ++ [name]) definition.sources) → P stack rest → P stack (.reference r :: rest))
    (stack : List String) (sources : List Source) : P stack sources := by
  induction hn : s.pendingSets stack using Nat.strongRecOn generalizing stack sources with
  | ind n within =>
    subst hn
    induction sources with
    | nil => exact nil stack
    | cons source rest next =>
      cases source with
      | inline members => exact inline stack members rest next
      | reference r =>
        refine reference stack r rest (fun name definition target defined entered => ?_) next
        have fewer := s.pendingSets_lt (Table.mem_keys_of_get?_eq_some defined) entered
        exact within _ fewer _ _ rfl

/-- **Loading succeeds with what the sources expand to.** -/
theorem Expands.loadSources {stack : List String} {sources : List Source} {trees : List Tree}
    (h : s.Expands stack sources trees) : s.loadSources stack sources = .ok trees := by
  induction h with
  | nil => exact loadSources_nil _
  | inline tokens _ ih =>
    rw [loadSources_inline]
    exact bind_bind_eq_ok.2 ⟨_, _, loadInline_eq_ok.2 ⟨_, tokens, rfl⟩, ih, rfl⟩
  | file target loads _ ih =>
    rw [loadSources_file target]
    exact bind_bind_eq_ok.2 ⟨_, _, loadFile_eq_ok.2 ⟨_, loads, rfl⟩, ih, rfl⟩
  | set target defined entered _ _ ihInner ihRest =>
    rw [loadSources_set target defined entered]
    exact bind_bind_eq_ok.2 ⟨_, _, ihInner, ihRest, rfl⟩

/-- **Loading succeeds with nothing else.** -/
theorem expands_of_loadSources {stack : List String} {sources : List Source} {trees : List Tree}
    (h : s.loadSources stack sources = .ok trees) : s.Expands stack sources trees := by
  induction stack, sources using sources_induction (s := s) generalizing trees with
  | nil stack =>
    rw [loadSources_nil] at h
    cases h
    exact .nil
  | inline stack members rest next =>
    rw [loadSources_inline] at h
    obtain ⟨tree, later, ht, hl, rfl⟩ := bind_bind_eq_ok.1 h
    obtain ⟨group, tokens, rfl⟩ := loadInline_eq_ok.1 ht
    exact .inline tokens (next hl)
  | reference stack r rest within next =>
    cases target : Target.parse r s.directory with
    | error e => rw [loadSources_nowhere target] at h; cases h
    | ok found =>
      cases found with
      | modifier name => rw [loadSources_modifier target] at h; cases h
      | file path pointer =>
        rw [loadSources_file target] at h
        obtain ⟨tree, later, ht, hl, rfl⟩ := bind_bind_eq_ok.1 h
        obtain ⟨group, loads, rfl⟩ := loadFile_eq_ok.1 ht
        exact .file target loads (next hl)
      | set name =>
        cases defined : s.document.sets.get? name with
        | none => rw [loadSources_undefined target defined] at h; cases h
        | some definition =>
          by_cases entered : name ∈ stack
          · rw [loadSources_circular target defined entered] at h
            cases h
          · rw [loadSources_set target defined entered] at h
            obtain ⟨inner, later, hi, hl, rfl⟩ := bind_bind_eq_ok.1 h
            exact .set target defined entered (within _ _ target defined entered hi) (next hl)

theorem loadSources_eq_ok_iff {stack : List String} {sources : List Source} {trees : List Tree} :
    s.loadSources stack sources = .ok trees ↔ s.Expands stack sources trees :=
  ⟨expands_of_loadSources, Expands.loadSources⟩

/-! ## What an expansion needs -/

variable (s) in
/-- A source stands for something: its tokens are a group, or it leads to a set of the document, or to a
file that loads. A modifier is not a source. -/
def Resolves : Source → Prop
  | .inline members => ∃ group, Group.ofJson s.file (.obj members) = .ok group
  | .reference r => ∃ target, Target.parse r s.directory = .ok target ∧ match target with
    | .set name => ∃ definition, s.document.sets.get? name = some definition
    | .modifier _ => False
    | .file path pointer => ∃ group, s.fs.Loads path pointer group

theorem Expands.resolves {stack : List String} {sources : List Source} {trees : List Tree}
    (h : s.Expands stack sources trees) : ∀ source ∈ sources, s.Resolves source := by
  induction h with
  | nil => simp
  | inline tokens _ ih => exact List.forall_mem_cons.2 ⟨⟨_, tokens⟩, ih⟩
  | file target loads _ ih => exact List.forall_mem_cons.2 ⟨⟨_, target, _, loads⟩, ih⟩
  | set target defined _ _ _ _ ih => exact List.forall_mem_cons.2 ⟨⟨_, target, _, defined⟩, ih⟩

theorem Expands.inner {stack : List String} {sources : List Source} {trees : List Tree}
    (h : s.Expands stack sources trees) {r name : String} {definition : SetDefinition}
    (hr : .reference r ∈ sources) (target : Target.parse r s.directory = .ok (.set name))
    (defined : s.document.sets.get? name = some definition) :
    name ∉ stack ∧ ∃ within, s.Expands (stack ++ [name]) definition.sources within := by
  induction h with
  | nil => cases hr
  | inline _ _ ih =>
    rcases List.mem_cons.1 hr with same | hr
    · cases same
    · exact ih hr
  | file target' _ _ ih =>
    rcases List.mem_cons.1 hr with same | hr
    · cases same
      rw [target] at target'
      cases target'
    · exact ih hr
  | set target' defined' entered inner _ _ ih =>
    rcases List.mem_cons.1 hr with same | hr
    · cases same
      rw [target] at target'
      cases target'
      obtain rfl := Option.some.inj (defined.symm.trans defined')
      exact ⟨entered, _, inner⟩
    · exact ih hr

end Setting

end DesignTokens
