import DesignTokens.Proofs.Document.Trees

/-!
# One document on two disks

A document is expanded with the files that its resolution order leads to, and with no others. Two disks
that have the same texts there expand it alike: they can only differ in why a file cannot be read.

* `Setting.Uses`: the files that the resolution order leads to; `Setting.onDisk`: another disk;
* `SameTexts`: the disks have the same texts at these files;
* `LoadError.IsRead`; `Twin`: errors that differ at most in why a file in use cannot be read;
* `endAlike_loadFile`, `endAlike_loadSources`, `endAlike_applyItem`: the steps of an expansion;
* **`expand_onDisk`**: the whole expansion.
-/

namespace DesignTokens

/-- A file could not be read. -/
def LoadError.IsRead : LoadError → Prop
  | .fileRead _ _ => True
  | _ => False

/-- A file of tokens could not be read; it is not its text that is at fault. -/
def TokenFileError.IsRead : TokenFileError → Prop
  | .unreadable _ => True
  | _ => False

namespace Setting

variable (s : Setting)

/-- The same document on another disk. -/
def onDisk (fs : FileSystem) : Setting := { s with fs := fs }

/-- **The files that the resolution order leads to.** -/
inductive Uses (path : Path) : Prop
  | source {stack : List String} {sources : List Source} {r : String} {pointer : Option String}
      (reached : s.Reaches stack sources) (used : .reference r ∈ sources)
      (target : Target.parse r s.directory = .ok (.file path pointer)) : Uses path
  | entry {item : Item} {pointer : Option String} (listed : item ∈ s.document.order)
      (stands : s.entry item = .ok (.file path pointer)) : Uses path

/-- Another disk has the same texts at the files in use, and none where there is none. -/
def SameTexts (fs : FileSystem) : Prop :=
  ∀ path, s.Uses path → (fs path).toOption = (s.fs path).toOption

/-- An error on one disk and on the other: the same one, or a file in use that neither of them has. -/
inductive Twin (fs : FileSystem) : LoadError → LoadError → Prop
  | same {e : LoadError} (other : ¬ e.IsRead) : Twin fs e e
  | unread {path : Path} {cause cause' : ReadError} (uses : s.Uses path)
      (missing : s.fs path = .error cause) (missing' : fs path = .error cause') :
      Twin fs (.fileRead path cause) (.fileRead path cause')

end Setting

/-! ## Steps that read nothing -/

theorem avoids_parse (r : String) (directory : Path) :
    Avoids LoadError.IsRead (Target.parse r directory) := by
  unfold Target.parse
  repeat' split
  · exact avoids_ok _
  · exact avoids_ok _
  · exact avoids_error id
  · exact avoids_error id
  · exact avoids_error id
  · exact avoids_ok _

theorem not_isRead_of_mem_checkName {kind : NameKind} {name : String} :
    ∀ e ∈ checkName kind name, ¬ e.IsRead := by
  intro e he
  obtain ⟨fault, -, rfl⟩ := Option.map_eq_some_iff.1 (Option.mem_toList.1 he)
  exact id

theorem not_isRead_of_mem_modifierCheck {name : String} {m : ModifierDefinition} :
    ∀ e ∈ m.check name, ¬ e.IsRead := by
  unfold ModifierDefinition.check
  simp only [List.mem_append]
  rintro e (((he | he) | he) | he)
  · exact not_isRead_of_mem_checkName e he
  · split at he
    · cases List.mem_singleton.1 he
      exact id
    · cases he
  · obtain ⟨context, -, he⟩ := List.mem_flatMap.1 he
    exact not_isRead_of_mem_checkName e he
  · repeat' split at he
    · cases he
    · cases List.mem_singleton.1 he
      exact id
    · cases he

theorem not_isRead_of_mem_check {d : Document} {file : Path} :
    ∀ e ∈ d.check file, ¬ e.IsRead := by
  unfold Document.check
  simp only [List.mem_append]
  rintro e (((he | he) | he) | he)
  · split at he
    · cases he
    · cases List.mem_singleton.1 he
      exact id
  · obtain ⟨name, -, he⟩ := List.mem_flatMap.1 he
    exact not_isRead_of_mem_checkName e he
  · obtain ⟨⟨name, m⟩, -, he⟩ := List.mem_flatMap.1 he
    exact not_isRead_of_mem_modifierCheck e he
  · obtain ⟨item, -, he⟩ := List.mem_flatMap.1 he
    cases item with
    | reference r => cases he
    | set name definition => exact not_isRead_of_mem_checkName e he
    | modifier name m => exact not_isRead_of_mem_modifierCheck e he

namespace Setting

variable {s : Setting} {fs : FileSystem}

theorem avoids_entry (item : Item) : Avoids LoadError.IsRead (s.entry item) := by
  cases item with
  | set name definition | modifier name m => exact avoids_ok _
  | reference r =>
    show Avoids _ (s.referred r)
    unfold referred
    refine (avoids_parse r s.directory).bind fun target _ => ?_
    repeat' split
    · exact avoids_error id
    · exact avoids_ok _
    · exact avoids_error id
    · exact avoids_ok _
    · exact avoids_ok _

theorem avoids_selected (name : String) (m : ModifierDefinition) :
    Avoids LoadError.IsRead (s.selected name m) := by
  unfold selected
  repeat' split
  · exact avoids_error id
  · exact avoids_ok _
  · exact avoids_error id

theorem avoids_loadInline (members : List (String × Json)) :
    Avoids LoadError.IsRead (s.loadInline members) := by
  unfold loadInline
  split
  · exact avoids_ok _
  · exact avoids_error id

theorem endAlike_of_avoids {α : Type} {x : Except LoadError α} (h : Avoids LoadError.IsRead x) :
    EndAlike (s.Twin fs) x x :=
  endAlike_self fun e he => .same (h e he)

/-! ## Files -/

theorem loadFile_of_error {path : Path} {cause : ReadError} (missing : s.fs path = .error cause)
    (pointer : Option String) : s.loadFile path pointer = .error (.fileRead path cause) := by
  unfold loadFile loadGroup
  rw [missing]
  rfl

theorem loadFile_onDisk {path : Path} (h : fs path = s.fs path) (pointer : Option String) :
    (s.onDisk fs).loadFile path pointer = s.loadFile path pointer := by
  unfold loadFile loadGroup onDisk
  dsimp only
  rw [h]

theorem avoids_loadGroup {path : Path} {text : String} (read : fs path = .ok text)
    (pointer : Option String) :
    Avoids TokenFileError.IsRead (loadGroup fs path pointer) := by
  unfold loadGroup
  rw [read]
  refine Avoids.bind (avoids_ok text) fun text _ => ?_
  split
  · exact avoids_error id
  · refine Avoids.bind ?_ fun part _ => ?_
    · unfold scope
      repeat' split
      · exact avoids_ok _
      · exact avoids_ok _
      · exact avoids_error id
    · cases Group.ofJson path part with
      | ok group => exact avoids_ok group
      | error cause => exact avoids_error id

theorem avoids_loadFile {path : Path} {text : String} (read : s.fs path = .ok text)
    (pointer : Option String) : Avoids LoadError.IsRead (s.loadFile path pointer) := by
  unfold loadFile
  cases failed : loadGroup s.fs path pointer with
  | ok group => exact avoids_ok _
  | error e =>
    cases e with
    | unreadable cause => exact absurd trivial (avoids_loadGroup read pointer _ failed)
    | tree cause | pointerNotFound pointer file => exact avoids_error id

theorem SameTexts.cases (same : s.SameTexts fs) {path : Path} (uses : s.Uses path) :
    (∃ text, s.fs path = .ok text ∧ fs path = .ok text) ∨
      ∃ cause cause', s.fs path = .error cause ∧ fs path = .error cause' := by
  have h := same path uses
  cases here : s.fs path with
  | ok text =>
    rw [here] at h
    cases there : fs path with
    | ok text' =>
      rw [there] at h
      cases h
      exact .inl ⟨_, rfl, rfl⟩
    | error cause => rw [there] at h; cases h
  | error cause =>
    rw [here] at h
    cases there : fs path with
    | ok text => rw [there] at h; cases h
    | error cause' => exact .inr ⟨_, _, rfl, rfl⟩

variable (same : s.SameTexts fs)

include same

theorem endAlike_loadFile {path : Path} (uses : s.Uses path) (pointer : Option String) :
    EndAlike (s.Twin fs) (s.loadFile path pointer) ((s.onDisk fs).loadFile path pointer) := by
  rcases same.cases uses with ⟨text, here, there⟩ | ⟨cause, cause', here, there⟩
  · rw [loadFile_onDisk (there.trans here.symm)]
    exact endAlike_of_avoids (avoids_loadFile here pointer)
  · rw [loadFile_of_error here, loadFile_of_error (s := s.onDisk fs) there]
    exact .error (.unread uses here there)

/-! ## Sources -/

theorem endAlike_loadSources {stack : List String} {sources : List Source}
    (among : s.Among stack sources) :
    EndAlike (s.Twin fs) (s.loadSources stack sources) ((s.onDisk fs).loadSources stack sources) := by
  induction stack, sources using sources_induction (s := s) with
  | nil stack =>
    rw [loadSources_nil, loadSources_nil]
    exact .ok []
  | inline stack members rest next =>
    rw [loadSources_inline, loadSources_inline]
    refine (endAlike_of_avoids (avoids_loadInline members)).bind fun tree _ => ?_
    exact (next among.tail).bind fun trees _ => .ok _
  | reference stack r rest within next =>
    obtain ⟨sources, reached, used⟩ := among.head
    -- the reference leads to the same on both disks
    cases target : Target.parse r s.directory with
    | error e =>
      rw [loadSources_nowhere target, loadSources_nowhere (s := s.onDisk fs) target]
      exact .error (.same (avoids_parse r _ e target))
    | ok found =>
      cases found with
      | modifier name =>
        rw [loadSources_modifier target, loadSources_modifier (s := s.onDisk fs) target]
        exact .error (.same id)
      | file path pointer =>
        rw [loadSources_file target, loadSources_file (s := s.onDisk fs) target]
        refine (endAlike_loadFile same (.source reached used target) pointer).bind fun tree _ => ?_
        exact (next among.tail).bind fun trees _ => .ok _
      | set name =>
        cases defined : s.document.sets.get? name with
        | none =>
          rw [loadSources_undefined target defined,
            loadSources_undefined (s := s.onDisk fs) target defined]
          exact .error (.same id)
        | some definition =>
          by_cases entered : name ∈ stack
          · rw [loadSources_circular target defined entered,
              loadSources_circular (s := s.onDisk fs) target defined entered]
            exact .error (.same id)
          · rw [loadSources_set target defined entered,
              loadSources_set (s := s.onDisk fs) target defined entered]
            have inside := (Reaches.inner reached used target defined).among
            refine (within name definition target defined entered inside).bind fun inner _ => ?_
            exact (next among.tail).bind fun trees _ => .ok _

/-! ## Entries -/

theorem endAlike_applyContext {name chosen : String} {c : String × List Source}
    (among : s.Among [] c.2) (l : Loaded × List String) :
    EndAlike (s.Twin fs) (s.applyContext name chosen l c.1 c.2)
      ((s.onDisk fs).applyContext name chosen l c.1 c.2) := by
  refine (endAlike_loadSources same among).bind fun trees _ => ?_
  repeat' split
  all_goals exact .ok _

theorem endAlike_applyModifier {name : String} {m : ModifierDefinition}
    (among : ∀ c ∈ m.contexts.entries, s.Among [] c.2) (l : Loaded) :
    EndAlike (s.Twin fs) (s.applyModifier l name m) ((s.onDisk fs).applyModifier l name m) := by
  refine (endAlike_of_avoids (avoids_selected name m)).bind fun chosen _ => ?_
  refine (endAlike_foldlM (fun l c hc => ?_) (l, [])).bind fun _ _ => .ok _
  exact endAlike_applyContext same (among c hc) l

theorem endAlike_applyItem {item : Item} (listed : item ∈ s.document.order) (l : Loaded) :
    EndAlike (s.Twin fs) (s.applyItem l item) ((s.onDisk fs).applyItem l item) := by
  rw [applyItem_eq, applyItem_eq]
  refine (endAlike_of_avoids (avoids_entry item)).bind fun entry stands => ?_
  cases entry with
  | set name definition =>
    exact (endAlike_loadSources same (Reaches.set listed stands).among).bind fun trees _ => .ok _
  | file path pointer =>
    exact (endAlike_loadFile same (.entry listed stands) pointer).bind fun tree _ => .ok _
  | modifier name m =>
    exact endAlike_applyModifier same (fun c hc => (Reaches.context listed stands hc).among) l

/-! ## Whole documents -/

/-- **The files in use determine an expansion**, up to why those that are missing cannot be read. -/
theorem expand_onDisk :
    (s.onDisk fs).expand.trees = s.expand.trees ∧ (s.onDisk fs).expand.modifiers = s.expand.modifiers ∧
      List.Forall₂ (s.Twin fs) s.expand.errors (s.onDisk fs).expand.errors := by
  by_cases fine : s.document.check s.file = []
  · rw [expand_of_check_eq_nil fine, expand_of_check_eq_nil (s := s.onDisk fs) fine]
    have alike : EndAlike (s.Twin fs) (s.document.order.foldlM s.applyItem Loaded.empty)
        ((s.onDisk fs).document.order.foldlM (s.onDisk fs).applyItem Loaded.empty) :=
      endAlike_foldlM (fun l item listed => endAlike_applyItem same listed l) Loaded.empty
    generalize s.document.order.foldlM s.applyItem Loaded.empty = x at alike ⊢
    generalize (s.onDisk fs).document.order.foldlM (s.onDisk fs).applyItem Loaded.empty = y at alike ⊢
    cases alike with
    | ok l => exact ⟨rfl, rfl, .nil⟩
    | error related => exact ⟨rfl, rfl, .cons related .nil⟩
  · rw [expand_of_check_ne_nil fine, expand_of_check_ne_nil (s := s.onDisk fs) fine]
    exact ⟨rfl, rfl, List.forall₂_same.2 fun e he => .same (not_isRead_of_mem_check e he)⟩

end Setting

end DesignTokens
