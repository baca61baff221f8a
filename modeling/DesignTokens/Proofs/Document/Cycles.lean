import DesignTokens.Proofs.Document.Trees
import Mathlib.Data.List.Perm.Subperm

/-!
# Sets that lead back to themselves

A set of the document may lead back to itself through the references among its sources. Loading would
not end there, so the names of the sets under way are on a stack, and a name that comes again is
reported. The names are all that is compared: a set that is spelled out in the resolution order is on
the stack with its name too, although no reference leads to it.

* `Setting.LeadsTo`: the sets of the document that sources lead to; `Setting.Recurs`: a set leads back
  to itself; `LeadsTo.trans`;
* `loadSources_failsIf`: sources are loaded, unless they lead to a set that is under way or recurs;
* `Setting.Circles`, `Setting.Shadows`: an entry of the resolution order leads to a set that recurs; an
  entry is a set spelled out that leads to a set of the document of the same name;
* `length_le_of_reaches`: no more sets than those of the document are ever under way, and one entry;
* **`expand_circular`**: when a cycle is reported.
-/

namespace DesignTokens

namespace Setting

variable (s : Setting)

/-! ## Where sources lead -/

/-- The sources lead to a set of the document: a reference among them is to it, or to another set whose
sources lead to it. -/
inductive LeadsTo : List Source → String → Prop
  | here {sources : List Source} {r name : String} {definition : SetDefinition}
      (used : .reference r ∈ sources) (target : Target.parse r s.directory = .ok (.set name))
      (defined : s.document.sets.get? name = some definition) : LeadsTo sources name
  | inside {sources : List Source} {r name inner : String} {definition : SetDefinition}
      (used : .reference r ∈ sources) (target : Target.parse r s.directory = .ok (.set name))
      (defined : s.document.sets.get? name = some definition)
      (further : LeadsTo definition.sources inner) : LeadsTo sources inner

/-- A set of the document leads back to itself. -/
def Recurs (name : String) : Prop :=
  ∃ definition, s.document.sets.get? name = some definition ∧ s.LeadsTo definition.sources name

/-- Sources inside the sets of a stack lead to one of them, or to a set that leads back to itself. -/
def Loops (stack : List String) (sources : List Source) : Prop :=
  ∃ name, s.LeadsTo sources name ∧ (name ∈ stack ∨ s.Recurs name)

variable {s}

theorem leadsTo_nil {name : String} : ¬ s.LeadsTo [] name := by
  intro h
  cases h with
  | here used _ _ => cases used
  | inside used _ _ _ => cases used

theorem leadsTo_cons {source : Source} {rest : List Source} {name : String} :
    s.LeadsTo (source :: rest) name ↔ s.LeadsTo [source] name ∨ s.LeadsTo rest name := by
  constructor
  · intro h
    cases h with
    | here used target defined =>
      rcases List.mem_cons.1 used with rfl | used
      · exact .inl (.here List.mem_cons_self target defined)
      · exact .inr (.here used target defined)
    | inside used target defined further =>
      rcases List.mem_cons.1 used with rfl | used
      · exact .inl (.inside List.mem_cons_self target defined further)
      · exact .inr (.inside used target defined further)
  · rintro (h | h)
    · cases h with
      | here used target defined =>
        obtain rfl := List.mem_singleton.1 used
        exact .here List.mem_cons_self target defined
      | inside used target defined further =>
        obtain rfl := List.mem_singleton.1 used
        exact .inside List.mem_cons_self target defined further
    · cases h with
      | here used target defined => exact .here (List.mem_cons_of_mem _ used) target defined
      | inside used target defined further =>
        exact .inside (List.mem_cons_of_mem _ used) target defined further

theorem loops_nil (stack : List String) : ¬ s.Loops stack [] := fun ⟨_, h, _⟩ => leadsTo_nil h

theorem loops_cons {stack : List String} {source : Source} {rest : List Source} :
    s.Loops stack (source :: rest) ↔ s.Loops stack [source] ∨ s.Loops stack rest := by
  unfold Loops
  rw [← exists_or]
  refine exists_congr fun name => ?_
  rw [leadsTo_cons, or_and_right]

theorem not_loops_singleton {stack : List String} {source : Source}
    (plain : ∀ r name, source = .reference r → Target.parse r s.directory ≠ .ok (.set name)) :
    ¬ s.Loops stack [source] := by
  rintro ⟨name, h, -⟩
  cases h with
  | here used target _ => exact plain _ _ (List.mem_singleton.1 used).symm target
  | inside used target _ _ => exact plain _ _ (List.mem_singleton.1 used).symm target

/-- A reference to a set leads to a set under way or to a recurring one, exactly if this is one under
way or its sources do, with it under way too. -/
theorem loops_set {stack : List String} {r name : String} {definition : SetDefinition}
    (target : Target.parse r s.directory = .ok (.set name))
    (defined : s.document.sets.get? name = some definition) :
    s.Loops stack [.reference r] ↔ name ∈ stack ∨ s.Loops (stack ++ [name]) definition.sources := by
  have here : s.LeadsTo [.reference r] name := .here List.mem_cons_self target defined
  constructor
  · rintro ⟨inner, leads, loops⟩
    cases leads with
    | here used target' defined' =>
      obtain rfl : _ = r := Source.reference.inj (List.mem_singleton.1 used)
      cases target.symm.trans target'
      rcases loops with underWay | ⟨definition', again, recurs⟩
      · exact .inl underWay
      · cases defined.symm.trans again
        exact .inr ⟨name, recurs, .inl (by simp)⟩
    | inside used target' defined' further =>
      obtain rfl : _ = r := Source.reference.inj (List.mem_singleton.1 used)
      cases target.symm.trans target'
      cases defined.symm.trans defined'
      exact .inr ⟨inner, further, loops.imp_left fun mem => List.mem_append_left _ mem⟩
  · rintro (underWay | ⟨inner, leads, loops⟩)
    · exact ⟨name, here, .inl underWay⟩
    · have further : s.LeadsTo [.reference r] inner := .inside List.mem_cons_self target defined leads
      rcases loops with underWay | recurs
      · rcases List.mem_append.1 underWay with underWay | same
        · exact ⟨inner, further, .inl underWay⟩
        · obtain rfl := List.mem_singleton.1 same
          exact ⟨inner, here, .inr ⟨definition, defined, leads⟩⟩
      · exact ⟨inner, further, .inr recurs⟩

end Setting

/-! ## Loading -/

/-- The error is a cycle of sets. -/
def Circular (e : LoadError) : Prop := ∃ chain, e = .circularSet chain

namespace Setting

variable (s : Setting)

/-- The sources with which loading an entry begins, and the sets that are under way there. -/
inductive Begins : OrderEntry → List String → List Source → Prop
  | set {name : String} {definition : SetDefinition} :
      Begins (.set name definition) [name] definition.sources
  | context {name : String} {m : ModifierDefinition} {c : String × List Source}
      (declared : c ∈ m.contexts.entries) : Begins (.modifier name m) [] c.2

/-- Everything that the resolution order leads to stands for something. -/
structure Complete : Prop where
  /-- Every entry stands for something. -/
  entries : ∀ item ∈ s.document.order, ∃ entry, s.entry item = .ok entry
  /-- The files among the entries load. -/
  files : ∀ item ∈ s.document.order, ∀ path pointer,
    s.entry item = .ok (.file path pointer) → ∃ group, s.fs.Loads path pointer group
  /-- Every source stands for something, and none is a modifier. -/
  sources : ∀ stack sources, s.Reaches stack sources → ∀ source ∈ sources, s.Resolves source

variable {s}

/-- It is enough that the sources resolve with which the entries begin, and those of all sets of the
document. -/
theorem complete_of_resolves (entries : ∀ item ∈ s.document.order, ∃ entry, s.entry item = .ok entry ∧
      (∀ path pointer, entry = .file path pointer → ∃ group, s.fs.Loads path pointer group) ∧
      ∀ stack sources, Begins entry stack sources → ∀ source ∈ sources, s.Resolves source)
    (sets : ∀ definition ∈ s.document.sets.values, ∀ source ∈ definition.sources,
      s.Resolves source) : s.Complete where
  entries item listed := by
    obtain ⟨entry, stands, -⟩ := entries item listed
    exact ⟨entry, stands⟩
  files item listed path pointer stands := by
    obtain ⟨entry, stands', files, -⟩ := entries item listed
    cases stands.symm.trans stands'
    exact files path pointer rfl
  sources stack sources reached := by
    cases reached with
    | set listed stands =>
      obtain ⟨entry, stands', -, resolve⟩ := entries _ listed
      cases stands.symm.trans stands'
      exact resolve _ _ .set
    | context listed stands declared =>
      obtain ⟨entry, stands', -, resolve⟩ := entries _ listed
      cases stands.symm.trans stands'
      exact resolve _ _ (.context declared)
    | inner _ _ _ defined => exact sets _ (Table.mem_values_of_get?_eq_some defined)

/-- **Sources are loaded**, unless they lead to a set that is under way or leads back to itself; then a
cycle is reported. -/
theorem loadSources_failsIf (complete : s.Complete) {stack : List String} {sources : List Source}
    (among : s.Among stack sources) :
    FailsIf Circular (s.loadSources stack sources) (s.Loops stack sources) := by
  induction stack, sources using sources_induction (s := s) with
  | nil stack =>
    rw [loadSources_nil]
    exact failsIf_ok [] (loops_nil stack)
  | inline stack members rest next =>
    obtain ⟨sources, reached, used⟩ := among.head
    obtain ⟨group, tokens⟩ := complete.sources _ _ reached _ used
    rw [loadSources_inline, loadInline_eq_ok.2 ⟨group, tokens, rfl⟩]
    refine FailsIf.congr ((next among.tail).bind_ok fun _ => ⟨_, rfl⟩) ?_
    rw [loops_cons, or_iff_right (not_loops_singleton (by simp))]
  | reference stack r rest within next =>
    obtain ⟨sources, reached, used⟩ := among.head
    obtain ⟨target, ht, found⟩ := complete.sources _ _ reached _ used
    cases target with
    | modifier name => cases found
    | file path pointer =>
      obtain ⟨group, loads⟩ := found
      rw [loadSources_file ht, loadFile_eq_ok.2 ⟨group, loads, rfl⟩]
      refine FailsIf.congr ((next among.tail).bind_ok fun _ => ⟨_, rfl⟩) ?_
      have plain : ∀ r' name, Source.reference r = .reference r' →
          Target.parse r' s.directory ≠ .ok (.set name) := by
        rintro _ name ⟨⟩ same
        cases ht.symm.trans same
      rw [loops_cons, or_iff_right (not_loops_singleton plain)]
    | set name =>
      obtain ⟨definition, defined⟩ := found
      rw [loops_cons, loops_set ht defined]
      by_cases entered : name ∈ stack
      · rw [loadSources_circular ht defined entered]
        exact .inr ⟨⟨_, rfl, _, rfl⟩, .inl (.inl entered)⟩
      · rw [loadSources_set ht defined entered, or_iff_right entered]
        have inside := Reaches.inner reached used ht defined
        refine (within name definition ht defined entered inside.among).bind fun _ _ => ?_
        exact (next among.tail).bind_ok fun _ => ⟨_, rfl⟩

/-! ## The resolution order -/

variable (s) in
/-- If the entry is a modifier, there is a context of it that is part of the base. -/
def Ready (item : Item) : Prop :=
  ∀ name m, s.entry item = .ok (.modifier name m) → ∃ context, s.Chooses name m context

variable (s) in
/-- The sources of an entry, or those of a context of it, lead to a set that leads back to itself. -/
def Circles (item : Item) : Prop :=
  ∃ entry stack sources name, s.entry item = .ok entry ∧ Begins entry stack sources ∧
    s.LeadsTo sources name ∧ s.Recurs name

variable (s) in
/-- The entry is a set spelled out, and its sources lead to a set of the document of the same name. -/
def Shadows (item : Item) : Prop :=
  ∃ name definition, item = .set name definition ∧ s.LeadsTo definition.sources name

variable (s) in
/-- Loading comes to the entry: no modifier up to it is without a chosen context. -/
def ComesTo (item : Item) : Prop :=
  ∃ former latter, s.document.order = former ++ item :: latter ∧ ∀ i ∈ former ++ [item], s.Ready i

theorem defined_of_referred {r name : String} {definition : SetDefinition}
    (h : s.referred r = .ok (.set name definition)) :
    s.document.sets.get? name = some definition := by
  obtain ⟨target, -, h⟩ := bind_eq_ok.1 h
  cases target with
  | file path pointer => cases h
  | modifier name' =>
    cases hm : s.document.modifiers.get? name' with
    | none => simp only [hm] at h; cases h
    | some m => simp only [hm] at h; cases h
  | set name' =>
    cases hd : s.document.sets.get? name' with
    | none => simp only [hd] at h; cases h
    | some definition' =>
      simp only [hd] at h
      cases h
      exact hd

theorem loops_iff {item : Item} {entry : OrderEntry} (stands : s.entry item = .ok entry) :
    (∃ stack sources, Begins entry stack sources ∧ s.Loops stack sources) ↔
      s.Circles item ∨ s.Shadows item := by
  constructor
  · rintro ⟨stack, sources, begins, name, leads, underWay | recurs⟩
    · cases begins with
      | context declared => cases underWay
      | @set outer definition =>
        obtain rfl := List.mem_singleton.1 underWay
        cases item with
        | set name' definition' =>
          cases stands
          exact .inr ⟨_, _, rfl, leads⟩
        | modifier name' m => cases stands
        | reference r =>
          exact .inl ⟨_, _, _, _, stands, .set, leads, definition, defined_of_referred stands, leads⟩
    · exact .inl ⟨entry, stack, sources, name, stands, begins, leads, recurs⟩
  · rintro (⟨entry', stack, sources, name, stands', begins, leads, recurs⟩ |
      ⟨name, definition, rfl, leads⟩)
    · cases stands.symm.trans stands'
      exact ⟨stack, sources, begins, name, leads, .inr recurs⟩
    · cases stands
      exact ⟨[name], definition.sources, .set, name, leads, .inl List.mem_cons_self⟩

theorem applyModifier_failsIf (complete : s.Complete) {item : Item}
    (listed : item ∈ s.document.order) {name : String} {m : ModifierDefinition}
    (stands : s.entry item = .ok (.modifier name m)) {context : String}
    (chooses : s.Chooses name m context) (l : Loaded) :
    FailsIf Circular (s.applyModifier l name m) (∃ c ∈ m.contexts.entries, s.Loops [] c.2) := by
  unfold applyModifier
  rw [selected_eq_ok.2 chooses]
  show FailsIf Circular (m.contexts.entries.foldlM
    (fun l c => s.applyContext name context l c.1 c.2) (l, []) >>= _) _
  refine FailsIf.bind_ok (failsIf_foldlM (fun l c declared => ?_) _) fun _ => ⟨_, rfl⟩
  have among := (Reaches.context listed stands declared).among
  refine FailsIf.bind_ok (loadSources_failsIf complete among) fun trees => ?_
  split
  · exact ⟨_, rfl⟩
  · split <;> exact ⟨_, rfl⟩

/-- **An entry is loaded**, unless it leads to a cycle or shadows a set. -/
theorem applyItem_failsIf (complete : s.Complete) {item : Item} (listed : item ∈ s.document.order)
    (ready : s.Ready item) (l : Loaded) :
    FailsIf Circular (s.applyItem l item) (s.Circles item ∨ s.Shadows item) := by
  obtain ⟨entry, stands⟩ := complete.entries item listed
  rw [applyItem_eq, stands]
  refine FailsIf.congr (?_ : FailsIf Circular (s.applyEntry l entry) _) (loops_iff stands)
  cases entry with
  | file path pointer =>
    obtain ⟨group, loads⟩ := complete.files item listed path pointer stands
    show FailsIf Circular (s.loadFile path pointer >>= _) _
    rw [loadFile_eq_ok.2 ⟨group, loads, rfl⟩]
    exact failsIf_ok _ fun ⟨_, _, begins, _⟩ => nomatch begins
  | set name definition =>
    have among := (Reaches.set listed stands).among
    refine FailsIf.congr ((loadSources_failsIf complete among).bind_ok fun _ => ⟨_, rfl⟩) ?_
    constructor
    · exact fun loops => ⟨_, _, .set, loops⟩
    · rintro ⟨_, _, ⟨⟩, loops⟩
      exact loops
  | modifier name m =>
    obtain ⟨context, chooses⟩ := ready name m stands
    refine (applyModifier_failsIf complete listed stands chooses l).congr ?_
    constructor
    · rintro ⟨c, declared, loops⟩
      exact ⟨_, _, .context declared, loops⟩
    · rintro ⟨_, _, begins, loops⟩
      cases begins with
      | context declared => exact ⟨_, declared, loops⟩

theorem applyItem_of_not_ready {item : Item} (not : ¬ s.Ready item) (l : Loaded) :
    ∃ e, s.applyItem l item = .error e ∧ ¬ Circular e := by
  unfold Ready at not
  push Not at not
  obtain ⟨name, m, stands, none⟩ := not
  rw [applyItem_eq, stands]
  show ∃ e, s.applyModifier l name m = .error e ∧ ¬ Circular e
  unfold applyModifier
  cases selected : s.selected name m with
  | ok context => exact absurd (selected_eq_ok.1 selected) (none context)
  | error e =>
    refine ⟨e, rfl, ?_⟩
    rintro ⟨chain, rfl⟩
    unfold Setting.selected at selected
    split at selected
    · cases selected
    · split at selected <;> cases selected

/-! ## How deep loading goes -/

theorem mem_keys_of_reaches {stack : List String} {sources : List Source}
    (reached : s.Reaches stack sources) : ∀ name ∈ stack.tail, name ∈ s.document.sets.keys := by
  induction reached with
  | set _ _ => simp
  | context _ _ _ => simp
  | @inner stack _ _ name _ _ _ _ defined ih =>
    intro name' mem
    cases stack with
    | nil => cases mem
    | cons outer rest =>
      rcases List.mem_append.1 mem with mem | mem
      · exact ih name' mem
      · rw [List.mem_singleton.1 mem]
        exact Table.mem_keys_of_get?_eq_some defined

theorem length_le_of_reaches {stack : List String} {sources : List Source}
    (reached : s.Reaches stack sources) (nodup : stack.Nodup) :
    stack.length ≤ s.document.sets.size + 1 := by
  have inside : stack.tail ⊆ s.document.sets.keys := mem_keys_of_reaches reached
  have fewer := (List.subperm_of_subset nodup.tail inside).length_le
  rw [List.length_tail, Table.keys, List.length_map] at fewer
  unfold Table.size
  omega

end Setting

/-- **When a cycle is reported.** In a document without faults in which everything that the resolution
order leads to stands for something, a cycle is reported exactly if loading comes to an entry that leads
to a set which leads back to itself, or to one that spells out a set and leads to a set of the document of
the same name. If every modifier has a chosen context, this is the only failure. Loading ends: the sets
under way are distinct as long as no cycle is reported, so there are no more of them than the document
has, and one that is spelled out. -/
theorem expand_circular {s : Setting} (fine : s.document.check s.file = []) (complete : s.Complete) :
    ((∃ chain, s.expand.errors = [.circularSet chain]) ↔
      ∃ item, s.ComesTo item ∧ (s.Circles item ∨ s.Shadows item)) ∧
    ((∀ item ∈ s.document.order, s.Ready item) →
      (s.expand.isOk = true ↔ ¬ ∃ chain, s.expand.errors = [.circularSet chain])) ∧
    ∀ stack sources, s.Reaches stack sources → stack.Nodup →
      stack.length ≤ s.document.sets.size + 1 := by
  have reported : (∃ chain, s.expand.errors = [.circularSet chain]) ↔
      ∃ e, s.document.order.foldlM s.applyItem Loaded.empty = .error e ∧ Circular e := by
    rw [Setting.expand_of_check_eq_nil fine]
    cases s.document.order.foldlM s.applyItem Loaded.empty with
    | ok l => simp
    | error e => simp [LoadResult.failed, Circular]
  refine ⟨?_, fun ready => ?_, fun _ _ => Setting.length_le_of_reaches⟩
  · rw [reported, bad_foldlM_iff
      (fun l item listed ready => Setting.applyItem_failsIf complete listed ready l)
      (fun l item _ not => Setting.applyItem_of_not_ready not l)]
    constructor
    · rintro ⟨former, item, latter, same, ready, holds⟩
      exact ⟨item, ⟨former, latter, same, ready⟩, holds⟩
    · rintro ⟨item, ⟨former, latter, same, ready⟩, holds⟩
      exact ⟨former, item, latter, same, ready, holds⟩
  · have loads := failsIf_foldlM (fun l item listed =>
      Setting.applyItem_failsIf complete listed (ready item listed) l) Loaded.empty
    rw [reported, loads.bad_iff, ← loads.isOk_iff, Setting.expand_of_check_eq_nil fine]
    cases s.document.order.foldlM s.applyItem Loaded.empty with
    | ok l => simp [LoadResult.isOk]
    | error e => simp [LoadResult.isOk, LoadResult.failed]

/-! ## Two sets in a ring, and a set inside one of its name -/

/-- A set of one reference. -/
def linkSet (r : String) : SetDefinition := ⟨none, [.reference r]⟩

/-- A document of sets at a place without other files. -/
def setsSetting (sets : List (String × SetDefinition)) (order : List Item) : Setting where
  document := { hueDocument with sets := ⟨sets⟩, modifiers := .empty, order }
  file := ⟨"sets.json"⟩
  fs _ := .error .noSuchFile
  selections := .empty

/-- Two sets that refer to each other, one of which is listed. -/
def ringSetting : Setting :=
  setsSetting [("a", linkSet "#/sets/b"), ("b", linkSet "#/sets/a")] [.reference "#/sets/a"]

/-- A set spelled out around a set of the document of the same name. -/
def coreSetting : Setting :=
  setsSetting [("core", extraSet)] [.set "core" (linkSet "#/sets/core")]

theorem complete_ringSetting : ringSetting.Complete := by
  have a : ringSetting.Resolves (.reference "#/sets/a") := ⟨.set "a", rfl, linkSet "#/sets/b", rfl⟩
  have b : ringSetting.Resolves (.reference "#/sets/b") := ⟨.set "b", rfl, linkSet "#/sets/a", rfl⟩
  refine Setting.complete_of_resolves (fun item listed => ?_) ?_
  · obtain rfl := List.mem_singleton.1 listed
    refine ⟨.set "a" (linkSet "#/sets/b"), rfl, by simp, fun stack sources begins => ?_⟩
    cases begins
    simpa [linkSet] using b
  · show ∀ definition ∈ [linkSet "#/sets/b", linkSet "#/sets/a"], _
    simpa [linkSet] using ⟨b, a⟩

theorem complete_coreSetting : coreSetting.Complete := by
  have core : coreSetting.Resolves (.reference "#/sets/core") := ⟨.set "core", rfl, extraSet, rfl⟩
  have rim : coreSetting.Resolves (hueSource "rim" "#222") := ⟨_, rfl⟩
  refine Setting.complete_of_resolves (fun item listed => ?_) ?_
  · obtain rfl := List.mem_singleton.1 listed
    refine ⟨.set "core" (linkSet "#/sets/core"), rfl, by simp, fun stack sources begins => ?_⟩
    cases begins
    simpa [linkSet] using core
  · show ∀ definition ∈ [extraSet], _
    simpa [extraSet] using rim

/-- The ring is reported. -/
theorem expand_circular_ringSetting :
    (ringSetting.document.check ringSetting.file = [] ∧ ringSetting.Complete) ∧
    ∃ chain, ringSetting.expand.errors = [.circularSet chain] := by
  have fine : ringSetting.document.check ringSetting.file = [] := by decide
  refine ⟨⟨fine, complete_ringSetting⟩, (expand_circular fine complete_ringSetting).1.2 ?_⟩
  have a : Target.parse "#/sets/a" ringSetting.directory = .ok (.set "a") := rfl
  have b : Target.parse "#/sets/b" ringSetting.directory = .ok (.set "b") := rfl
  have definedA : ringSetting.document.sets.get? "a" = some (linkSet "#/sets/b") := rfl
  have definedB : ringSetting.document.sets.get? "b" = some (linkSet "#/sets/a") := rfl
  have back : ringSetting.LeadsTo (linkSet "#/sets/b").sources "a" :=
    .inside List.mem_cons_self b definedB (.here List.mem_cons_self a definedA)
  refine ⟨.reference "#/sets/a", ⟨[], [], rfl, ?_⟩,
    .inl ⟨_, _, _, "a", rfl, .set, back, _, definedA, back⟩⟩
  rintro i listed name m stands
  obtain rfl := List.mem_singleton.1 listed
  cases stands

/-- The set spelled out is reported as a cycle, though no set of the document leads back to itself. -/
theorem circular_coreSetting :
    (coreSetting.document.check coreSetting.file = [] ∧ coreSetting.Complete) ∧
    (∀ name, ¬ coreSetting.Recurs name) ∧
    coreSetting.expand.errors = [.circularSet ["core", "core"]] := by
  have fine : coreSetting.document.check coreSetting.file = [] := by decide
  refine ⟨⟨fine, complete_coreSetting⟩, ?_, ?_⟩
  · rintro name ⟨definition, defined, leads⟩
    have only : definition ∈ [extraSet] := Table.mem_values_of_get?_eq_some defined
    obtain rfl := List.mem_singleton.1 only
    cases leads with
    | here used _ _ => simp [extraSet, hueSource] at used
    | inside used _ _ _ => simp [extraSet, hueSource] at used
  · have target : Target.parse "#/sets/core" coreSetting.directory = .ok (.set "core") := rfl
    have defined : coreSetting.document.sets.get? "core" = some extraSet := rfl
    have loads : coreSetting.loadSources ["core"] [.reference "#/sets/core"] =
        .error (.circularSet ["core", "core"]) :=
      Setting.loadSources_circular target defined List.mem_cons_self
    have folded : coreSetting.document.order.foldlM coreSetting.applyItem Loaded.empty =
        .error (.circularSet ["core", "core"]) := by
      show [Item.set "core" (linkSet "#/sets/core")].foldlM coreSetting.applyItem Loaded.empty = _
      rw [List.foldlM_cons, Setting.applyItem_eq]
      show (coreSetting.loadSources ["core"] [.reference "#/sets/core"] >>= _) >>= _ = _
      rw [loads]
      rfl
    rw [Setting.expand_of_check_eq_nil fine, folded]
    rfl

end DesignTokens
