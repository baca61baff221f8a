import DesignTokens.Proofs.Document.Disks

/-!
# The files of a document

A document lists the files that any of its references leads to. The resolution order leads to no other
references, so the files in use are among them, up to the spelling of their paths.

* `exists_mem_distinctPaths`: of paths with the same components one is listed;
* `referred_eq_ok`, `reference_of_reaches`: the references that the resolution order leads to;
* **`Uses.listed`**: the files in use are listed.
-/

namespace DesignTokens

/-! ## Distinct paths -/

/-- A path kept, unless one with the same components is. -/
def addDistinct (kept : List Path) (p : Path) : List Path :=
  if kept.any (·.components = p.components) then kept else kept ++ [p]

theorem mem_foldl_addDistinct (paths : List Path) {kept : List Path} {p : Path} (hp : p ∈ kept) :
    p ∈ paths.foldl addDistinct kept := by
  induction paths generalizing kept with
  | nil => exact hp
  | cons q rest ih =>
    refine ih ?_
    unfold addDistinct
    split
    · exact hp
    · exact List.mem_append_left _ hp

theorem exists_mem_foldl_addDistinct {paths : List Path} (kept : List Path) {p : Path}
    (hp : p ∈ paths) : ∃ q ∈ paths.foldl addDistinct kept, q.components = p.components := by
  induction paths generalizing kept with
  | nil => cases hp
  | cons q rest ih =>
    rcases List.mem_cons.1 hp with rfl | hp
    · by_cases known : kept.any (·.components = p.components) = true
      · obtain ⟨q, hq, same⟩ := List.any_eq_true.1 known
        refine ⟨q, mem_foldl_addDistinct rest ?_, of_decide_eq_true same⟩
        rwa [addDistinct, if_pos known]
      · refine ⟨p, mem_foldl_addDistinct rest ?_, rfl⟩
        rw [addDistinct, if_neg known]
        exact List.mem_append_right _ (List.mem_singleton.2 rfl)
    · exact ih _ hp

theorem exists_mem_distinctPaths {paths : List Path} {p : Path} (hp : p ∈ paths) :
    ∃ q ∈ distinctPaths paths, q.components = p.components :=
  exists_mem_foldl_addDistinct [] hp

/-! ## References -/

theorem mem_sourceReferences {sources : List Source} {r : String} :
    r ∈ sourceReferences sources ↔ .reference r ∈ sources := by
  unfold sourceReferences
  rw [List.mem_filterMap]
  constructor
  · rintro ⟨source, hs, h⟩
    cases source with
    | reference target => cases h; exact hs
    | inline members => cases h
  · exact fun hr => ⟨_, hr, rfl⟩

section References

variable {d : Document} {r name : String}

theorem mem_references_of_set {definition : SetDefinition}
    (defined : d.sets.get? name = some definition) (hr : .reference r ∈ definition.sources) :
    r ∈ d.references := by
  refine List.mem_append_left _ (List.mem_append_left _ (List.mem_flatMap.2 ⟨definition, ?_, ?_⟩))
  · exact Table.mem_values_of_get?_eq_some defined
  · exact mem_sourceReferences.2 hr

theorem mem_modifierReferences {m : ModifierDefinition} {c : String × List Source}
    (declared : c ∈ m.contexts.entries) (hr : .reference r ∈ c.2) : r ∈ m.references :=
  List.mem_flatMap.2 ⟨c.2, List.mem_map.2 ⟨c, declared, rfl⟩, mem_sourceReferences.2 hr⟩

theorem mem_references_of_modifier {m : ModifierDefinition}
    (defined : d.modifiers.get? name = some m) (hr : r ∈ m.references) : r ∈ d.references :=
  List.mem_append_left _ (List.mem_append_right _ (List.mem_flatMap.2
    ⟨m, Table.mem_values_of_get?_eq_some defined, hr⟩))

theorem mem_references_of_item {item : Item} (listed : item ∈ d.order) (hr : r ∈ item.references) :
    r ∈ d.references :=
  List.mem_append_right _ (List.mem_flatMap.2 ⟨item, listed, hr⟩)

end References

namespace Setting

variable {s : Setting}

theorem referred_eq_ok {r : String} {entry : OrderEntry} (h : s.referred r = .ok entry) :
    match entry with
    | .set name definition => s.document.sets.get? name = some definition
    | .modifier name m => s.document.modifiers.get? name = some m
    | .file path pointer => Target.parse r s.directory = .ok (.file path pointer) := by
  unfold referred at h
  obtain ⟨target, ht, h⟩ := bind_eq_ok.1 h
  cases target with
  | file path pointer => cases h; exact ht
  | set name =>
    cases defined : s.document.sets.get? name with
    | none => simp only [defined] at h; cases h
    | some definition => simp only [defined] at h; cases h; exact defined
  | modifier name =>
    cases defined : s.document.modifiers.get? name with
    | none => simp only [defined] at h; cases h
    | some m => simp only [defined] at h; cases h; exact defined

/-- **The references that the resolution order leads to** are references of the document. -/
theorem reference_of_reaches {stack : List String} {sources : List Source}
    (reached : s.Reaches stack sources) {r : String} (used : .reference r ∈ sources) :
    r ∈ s.document.references := by
  cases reached with
  | @set item name definition listed stands =>
    cases item with
    | reference r' => exact mem_references_of_set (referred_eq_ok stands) used
    | set name definition =>
      cases stands
      exact mem_references_of_item listed (mem_sourceReferences.2 used)
    | modifier name m => cases stands
  | @context item name m c listed stands declared =>
    have hr := mem_modifierReferences declared used
    cases item with
    | reference r' => exact mem_references_of_modifier (referred_eq_ok stands) hr
    | set name definition => cases stands
    | modifier name m =>
      cases stands
      exact mem_references_of_item listed hr
  | inner _ _ _ defined => exact mem_references_of_set defined used

/-! ## Files in use -/

theorem listed_of_target {r : String} {path : Path} {pointer : Option String}
    (hr : r ∈ s.document.references)
    (target : Target.parse r s.directory = .ok (.file path pointer)) :
    ∃ f ∈ s.document.externalFiles s.file, f.components = path.components := by
  refine exists_mem_distinctPaths (List.mem_filterMap.2 ⟨r, hr, ?_⟩)
  simp only [show Target.parse r s.file.directory = _ from target]

/-- **The files in use are listed**, up to the spelling of their paths. -/
theorem Uses.listed {path : Path} (h : s.Uses path) :
    ∃ f ∈ s.document.externalFiles s.file, f.components = path.components := by
  cases h with
  | source reached used target => exact listed_of_target (reference_of_reaches reached used) target
  | @entry item pointer listed stands =>
    cases item with
    | set name definition | modifier name m => cases stands
    | reference r =>
      have own : r ∈ (Item.reference r).references := List.mem_singleton.2 rfl
      exact listed_of_target (mem_references_of_item listed own) (referred_eq_ok stands)

end Setting

end DesignTokens
