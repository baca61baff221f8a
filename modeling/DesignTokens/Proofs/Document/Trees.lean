import DesignTokens.Proofs.Document.Reach

/-!
# The trees of a document

The resolution order is gone through once. Each entry adds trees to the base or to the overlays, and a
modifier adds to both and is recorded; what is added does not depend on what was added before.

* `Loaded.append`; `Setting.Adds`: what an entry adds; `modifierPart`: what a modifier adds;
* `applyModifier_eq_ok`, `applyItem_eq_ok`: one entry; `applyItems_eq_ok`: the whole order;
* `Sound.exists_contributes`, `sound_of_contributes`: every entry adds something exactly if everything
  is in order;
* **`expand_spec`**: when a document is expanded, and to what.
-/

namespace DesignTokens

/-- What is loaded, with a part behind it. -/
def Loaded.append (l part : Loaded) : Loaded :=
  ⟨l.base ++ part.base, l.overlays ++ part.overlays, l.modifiers ++ part.modifiers⟩

theorem Loaded.foldl_append (parts : List Loaded) (l : Loaded) : parts.foldl Loaded.append l =
    ⟨l.base ++ parts.flatMap Loaded.base, l.overlays ++ parts.flatMap Loaded.overlays,
      l.modifiers ++ parts.flatMap Loaded.modifiers⟩ := by
  induction parts generalizing l with
  | nil => simp
  | cons part rest ih =>
    rw [List.foldl_cons, ih]
    simp [Loaded.append]

/-! ## Modifiers -/

/-- The contexts of a modifier that become overlays: those that are not chosen and have a token. -/
def overlaid (chosen : String) (views : List (String × List Tree)) : List (String × List Tree) :=
  views.filter fun view => view.1 ≠ chosen ∧ view.2.any (·.tokens.hasTokens)

/-- What a modifier adds: the trees of its chosen context to the base, those of the others with tokens to
the overlays, each with its context, and the modifier itself with the names of these. -/
def modifierPart (name : String) (default : Option String) (chosen : String)
    (views : List (String × List Tree)) : Loaded where
  base := (views.filter fun view => view.1 = chosen).flatMap Prod.snd
  overlays := (overlaid chosen views).flatMap fun view =>
    overlayTrees (.variant (some name) view.1) view.2
  modifiers := [⟨name, Modifier.attributeOf name, default, chosen, (overlaid chosen views).map Prod.fst⟩]

/-- One context of a modifier added. -/
def addView (name chosen : String) (l : Loaded × List String) (view : String × List Tree) :
    Loaded × List String :=
  if view.1 = chosen then (l.1.addBase view.2, l.2)
  else if view.2.any (·.tokens.hasTokens) then
    ({ l.1 with overlays := l.1.overlays ++ overlayTrees (.variant (some name) view.1) view.2 },
      l.2 ++ [view.1])
  else l

theorem foldl_addView (name chosen : String) (views : List (String × List Tree)) (l : Loaded)
    (names : List String) : views.foldl (addView name chosen) (l, names) =
      (⟨l.base ++ (views.filter fun view => view.1 = chosen).flatMap Prod.snd,
        l.overlays ++ (overlaid chosen views).flatMap fun view =>
          overlayTrees (.variant (some name) view.1) view.2, l.modifiers⟩,
        names ++ (overlaid chosen views).map Prod.fst) := by
  induction views generalizing l names with
  | nil => simp [overlaid]
  | cons view rest ih =>
    rw [List.foldl_cons, overlaid, List.filter_cons, List.filter_cons, ← overlaid]
    by_cases same : view.1 = chosen
    · rw [addView, if_pos same, ih]
      simp [same, Loaded.addBase]
    · by_cases tokens : view.2.any (·.tokens.hasTokens) = true
      · rw [addView, if_neg same, if_pos tokens, ih, tokens]
        simp [same]
      · rw [addView, if_neg same, if_neg tokens, ih, Bool.not_eq_true _ |>.mp tokens]
        simp [same]

namespace Setting

variable (s : Setting)

/-- A context of a modifier with the trees of its sources. -/
def View (c : String × List Source) (view : String × List Tree) : Prop :=
  view.1 = c.1 ∧ s.Expands [] c.2 view.2

/-- **What an entry of the resolution order adds.** -/
inductive Adds : OrderEntry → Loaded → Prop
  | set {name : String} {definition : SetDefinition} {trees : List Tree}
      (expands : s.Expands [name] definition.sources trees) :
      Adds (.set name definition) ⟨trees, [], []⟩
  | file {path : Path} {pointer : Option String} {group : Group}
      (loads : s.fs.Loads path pointer group) :
      Adds (.file path pointer) ⟨[⟨.base, group, path⟩], [], []⟩
  | modifier {name : String} {m : ModifierDefinition} {context : String}
      {views : List (String × List Tree)} (chooses : s.Chooses name m context)
      (each : List.Forall₂ s.View m.contexts.entries views) :
      Adds (.modifier name m) (modifierPart name m.default context views)

variable {s}

theorem applyContext_eq_ok {name chosen : String} {l l' : Loaded × List String}
    {c : String × List Source} :
    s.applyContext name chosen l c.1 c.2 = .ok l' ↔
      ∃ view, s.View c view ∧ l' = addView name chosen l view := by
  have added : ∀ trees, (if c.1 = chosen then .ok (l.1.addBase trees, l.2)
      else if trees.any (·.tokens.hasTokens) then
        .ok ({ l.1 with overlays := l.1.overlays ++ overlayTrees (.variant (some name) c.1) trees },
          l.2 ++ [c.1])
      else .ok l : Except LoadError (Loaded × List String)) =
        .ok (addView name chosen l (c.1, trees)) := by
    intro trees
    unfold addView
    repeat' split
    all_goals rfl
  show s.loadSources [] c.2 >>= _ = _ ↔ _
  rw [bind_eq_ok]
  constructor
  · rintro ⟨trees, loaded, h⟩
    exact ⟨(c.1, trees), ⟨rfl, expands_of_loadSources loaded⟩,
      Except.ok.inj (h.symm.trans (added trees))⟩
  · rintro ⟨⟨_, trees⟩, ⟨rfl, expands⟩, rfl⟩
    exact ⟨trees, expands.loadSources, added trees⟩

theorem applyContexts_eq_ok {name chosen : String} {contexts : List (String × List Source)}
    {l : Loaded} {r : Loaded × List String} :
    contexts.foldlM (fun l (context, sources) => s.applyContext name chosen l context sources)
        (l, []) = .ok r ↔
      ∃ views, List.Forall₂ s.View contexts views ∧ r = views.foldl (addView name chosen) (l, []) := by
  refine foldlM_eq_ok fun l c l' => ?_
  exact applyContext_eq_ok

theorem applyModifier_eq_ok {name : String} {m : ModifierDefinition} {l l' : Loaded} :
    s.applyModifier l name m = .ok l' ↔
      ∃ part, s.Adds (.modifier name m) part ∧ l' = l.append part := by
  unfold applyModifier
  rw [bind_eq_ok]
  constructor
  · rintro ⟨chosen, selected, h⟩
    obtain ⟨⟨loaded, names⟩, folded, h⟩ := bind_eq_ok.1 h
    cases h
    obtain ⟨views, each, same⟩ := applyContexts_eq_ok.1 folded
    rw [foldl_addView] at same
    cases same
    exact ⟨_, .modifier (selected_eq_ok.1 selected) each, rfl⟩
  · rintro ⟨_, added, rfl⟩
    cases added with
    | modifier chooses each =>
      refine ⟨_, selected_eq_ok.2 chooses, bind_eq_ok.2 ⟨_, applyContexts_eq_ok.2 ⟨_, each, rfl⟩, ?_⟩⟩
      rw [foldl_addView]
      rfl

/-! ## Entries -/

variable (s) in
/-- What an entry stands for, applied. -/
def applyEntry (l : Loaded) : OrderEntry → Except LoadError Loaded
  | .set name definition => do
    let trees ← s.loadSources [name] definition.sources
    return l.addBase trees
  | .modifier name m => s.applyModifier l name m
  | .file path pointer => do
    let tree ← s.loadFile path pointer
    return l.addBase [tree]

theorem applyItem_eq (l : Loaded) (item : Item) :
    s.applyItem l item = s.entry item >>= s.applyEntry l := by
  cases item with
  | set name definition | modifier name m => rfl
  | reference r =>
    show (Target.parse r s.directory >>= _) = s.referred r >>= _
    unfold referred
    cases Target.parse r s.directory with
    | error e => rfl
    | ok found =>
      cases found with
      | file path pointer => rfl
      | set name =>
        simp only [bind, Except.bind]
        cases s.document.sets.get? name <;> rfl
      | modifier name =>
        simp only [bind, Except.bind]
        cases s.document.modifiers.get? name <;> rfl

theorem applyEntry_eq_ok {entry : OrderEntry} {l l' : Loaded} :
    s.applyEntry l entry = .ok l' ↔ ∃ part, s.Adds entry part ∧ l' = l.append part := by
  cases entry with
  | modifier name m => exact applyModifier_eq_ok
  | set name definition =>
    unfold applyEntry
    rw [bind_eq_ok]
    constructor
    · rintro ⟨trees, loaded, h⟩
      cases h
      exact ⟨_, .set (expands_of_loadSources loaded), by simp [Loaded.append, Loaded.addBase]⟩
    · rintro ⟨_, ⟨expands⟩, rfl⟩
      exact ⟨_, expands.loadSources, by simp [Loaded.append, Loaded.addBase]; rfl⟩
  | file path pointer =>
    unfold applyEntry
    rw [bind_eq_ok]
    constructor
    · rintro ⟨tree, loaded, h⟩
      cases h
      obtain ⟨group, loads, rfl⟩ := loadFile_eq_ok.1 loaded
      exact ⟨_, .file loads, by simp [Loaded.append, Loaded.addBase]⟩
    · rintro ⟨_, added, rfl⟩
      cases added with
      | file loads =>
        refine ⟨_, loadFile_eq_ok.2 ⟨_, loads, rfl⟩, ?_⟩
        simp [Loaded.append, Loaded.addBase]
        rfl

variable (s) in
/-- An entry of the resolution order stands for something that adds this part. -/
def Contributes (item : Item) (part : Loaded) : Prop :=
  ∃ entry, s.entry item = .ok entry ∧ s.Adds entry part

/-- **One entry of the resolution order.** -/
theorem applyItem_eq_ok {item : Item} {l l' : Loaded} :
    s.applyItem l item = .ok l' ↔ ∃ part, s.Contributes item part ∧ l' = l.append part := by
  rw [applyItem_eq, bind_eq_ok]
  constructor
  · rintro ⟨entry, stands, h⟩
    obtain ⟨part, adds, rfl⟩ := applyEntry_eq_ok.1 h
    exact ⟨part, ⟨entry, stands, adds⟩, rfl⟩
  · rintro ⟨part, ⟨entry, stands, adds⟩, rfl⟩
    exact ⟨entry, stands, applyEntry_eq_ok.2 ⟨part, adds, rfl⟩⟩

/-! ## Whole documents -/

/-- **The resolution order.** -/
theorem applyItems_eq_ok {order : List Item} {l l' : Loaded} :
    order.foldlM s.applyItem l = .ok l' ↔
      ∃ parts, List.Forall₂ s.Contributes order parts ∧ l' = parts.foldl Loaded.append l := by
  refine foldlM_eq_ok fun l item l' => ?_
  exact applyItem_eq_ok

/-- **If all that the resolution order leads to is in order, every entry adds something.** -/
theorem Sound.exists_contributes (sound : s.Sound) {item : Item} (listed : item ∈ s.document.order) :
    ∃ part, s.Contributes item part := by
  obtain ⟨entry, h⟩ := sound.entries item listed
  cases entry with
  | set name definition =>
    obtain ⟨trees, expands⟩ := sound.exists_expands (Reaches.set listed h).among
    exact ⟨_, _, h, .set expands⟩
  | file path pointer =>
    obtain ⟨group, loads⟩ := sound.files item listed _ _ h
    exact ⟨_, _, h, .file loads⟩
  | modifier name m =>
    obtain ⟨context, chooses⟩ := sound.chosen item listed _ _ h
    have views : ∀ c ∈ m.contexts.entries, ∃ view, s.View c view := by
      intro c declared
      obtain ⟨trees, expands⟩ := sound.exists_expands (Reaches.context listed h declared).among
      exact ⟨(c.1, trees), rfl, expands⟩
    obtain ⟨views, each⟩ := exists_forall₂_iff.2 views
    exact ⟨_, _, h, .modifier chooses each⟩

section Contributions

variable (all : ∀ item ∈ s.document.order, ∃ part, s.Contributes item part)

include all

theorem exists_adds {item : Item} (listed : item ∈ s.document.order) {entry : OrderEntry}
    (h : s.entry item = .ok entry) : ∃ part, s.Adds entry part := by
  obtain ⟨part, entry', h', adds⟩ := all item listed
  obtain rfl := Except.ok.inj (h.symm.trans h')
  exact ⟨part, adds⟩

theorem expands_of_reaches {stack : List String} {sources : List Source}
    (reached : s.Reaches stack sources) :
    stack.Nodup ∧ ∃ trees, s.Expands stack sources trees := by
  induction reached with
  | set listed entry =>
    obtain ⟨_, adds⟩ := exists_adds all listed entry
    cases adds with
    | set expands => exact ⟨by simp, _, expands⟩
  | context listed entry declared =>
    obtain ⟨_, adds⟩ := exists_adds all listed entry
    cases adds with
    | modifier _ each =>
      obtain ⟨view, -, expands⟩ := exists_forall₂_iff.1 ⟨_, each⟩ _ declared
      exact ⟨List.nodup_nil, _, expands⟩
  | inner _ used target defined ih =>
    obtain ⟨nodup, trees, expands⟩ := ih
    obtain ⟨entered, within⟩ := expands.inner used target defined
    exact ⟨nodup_append_singleton.2 ⟨nodup, entered⟩, within⟩

/-- **If every entry adds something, all that the resolution order leads to is in order.** -/
theorem sound_of_contributes : s.Sound where
  entries item listed := by
    obtain ⟨part, entry, h, -⟩ := all item listed
    exact ⟨entry, h⟩
  files item listed path pointer h := by
    obtain ⟨_, adds⟩ := exists_adds all listed h
    cases adds with
    | file loads => exact ⟨_, loads⟩
  chosen item listed name m h := by
    obtain ⟨_, adds⟩ := exists_adds all listed h
    cases adds with
    | modifier chooses _ => exact ⟨_, chooses⟩
  sources stack sources reached := by
    obtain ⟨-, trees, expands⟩ := expands_of_reaches all reached
    exact expands.resolves
  entered stack sources reached := (expands_of_reaches all reached).1

end Contributions

theorem expand_of_check_eq_nil (fine : s.document.check s.file = []) :
    s.expand = match s.document.order.foldlM s.applyItem Loaded.empty with
      | .ok l => ⟨l.base ++ l.overlays, l.modifiers, []⟩
      | .error e => .failed [e] := by
  unfold expand
  split
  · rfl
  · rename_i faulty
    exact absurd fine faulty

theorem expand_of_check_ne_nil (faulty : s.document.check s.file ≠ []) :
    s.expand = .failed (s.document.check s.file) := by
  unfold expand
  split
  · rename_i fine
    exact absurd fine faulty
  · rfl

/-- **The trees and the modifiers** are those that the entries add. -/
theorem expand_of_contributes (fine : s.document.check s.file = []) {parts : List Loaded}
    (each : List.Forall₂ s.Contributes s.document.order parts) :
    s.expand = ⟨parts.flatMap Loaded.base ++ parts.flatMap Loaded.overlays,
      parts.flatMap Loaded.modifiers, []⟩ := by
  rw [expand_of_check_eq_nil fine, applyItems_eq_ok.2 ⟨parts, each, rfl⟩, Loaded.foldl_append]
  rfl

theorem exists_parts_of_isOk (h : s.expand.isOk = true) :
    s.document.check s.file = [] ∧ ∃ parts, List.Forall₂ s.Contributes s.document.order parts := by
  by_cases fine : s.document.check s.file = []
  · refine ⟨fine, ?_⟩
    rw [expand_of_check_eq_nil fine] at h
    cases folded : s.document.order.foldlM s.applyItem Loaded.empty with
    | error e => rw [folded] at h; cases h
    | ok l =>
      obtain ⟨parts, each, -⟩ := applyItems_eq_ok.1 folded
      exact ⟨parts, each⟩
  · rw [expand_of_check_ne_nil fine] at h
    exact absurd (List.isEmpty_iff.1 h) fine

theorem expand_eq_failed (h : s.expand.isOk = false) : s.expand = .failed s.expand.errors := by
  by_cases fine : s.document.check s.file = []
  · rw [expand_of_check_eq_nil fine] at h ⊢
    cases folded : s.document.order.foldlM s.applyItem Loaded.empty with
    | error e => rfl
    | ok l => rw [folded] at h; cases h
  · rw [expand_of_check_ne_nil fine]
    rfl

end Setting

/-- **When a document is expanded, and to what.** There are no errors exactly if the document has no
fault and all that its resolution order leads to is in order. Then the trees are those that the entries
add to the base, in their order, and behind them those that they add to the overlays, and the modifiers
are those among the entries. Otherwise there are errors and nothing else. -/
theorem expand_spec (s : Setting) :
    (s.expand.isOk = true ↔ s.document.check s.file = [] ∧ s.Sound) ∧
    (s.expand.isOk = true → ∃ parts, List.Forall₂ s.Contributes s.document.order parts ∧
      s.expand.trees = parts.flatMap Loaded.base ++ parts.flatMap Loaded.overlays ∧
      s.expand.modifiers = parts.flatMap Loaded.modifiers) ∧
    (s.expand.isOk = false →
      s.expand.trees = [] ∧ s.expand.modifiers = [] ∧ s.expand.errors ≠ []) := by
  refine ⟨⟨fun h => ?_, fun ⟨fine, sound⟩ => ?_⟩, fun h => ?_, fun h => ?_⟩
  · obtain ⟨fine, parts, each⟩ := Setting.exists_parts_of_isOk h
    exact ⟨fine, Setting.sound_of_contributes (exists_forall₂_iff.1 ⟨parts, each⟩)⟩
  · obtain ⟨parts, each⟩ := exists_forall₂_iff.2 fun _ listed => sound.exists_contributes listed
    rw [Setting.expand_of_contributes fine each]
    rfl
  · obtain ⟨fine, parts, each⟩ := Setting.exists_parts_of_isOk h
    rw [Setting.expand_of_contributes fine each]
    exact ⟨parts, each, rfl, rfl⟩
  · have failed := Setting.expand_eq_failed h
    refine ⟨congrArg LoadResult.trees failed, congrArg LoadResult.modifiers failed, fun none => ?_⟩
    rw [LoadResult.isOk, none] at h
    cases h

/-! ## A document with a set inside a set -/

/-- One color in place. -/
def hueSource (name value : String) : Source :=
  .inline [(name, .obj [("$type", .str "color"), ("$value", .str value)])]

/-- A set that leads to another one. -/
def hueSet : SetDefinition := ⟨none, [.reference "#/sets/extra", hueSource "ink" "#111"]⟩

/-- The set inside it. -/
def extraSet : SetDefinition := ⟨none, [hueSource "rim" "#222"]⟩

/-- A modifier with an overlay and an empty context. -/
def hueModes : ModifierDefinition :=
  ⟨none, ⟨[("day", [hueSource "bg" "#fff"]), ("dusk", []), ("night", [hueSource "bg" "#000"])]⟩,
    some "day"⟩

/-- The document of these. -/
def hueDocument : Document where
  version := documentVersion
  name := none
  description := none
  sets := ⟨[("core", hueSet), ("extra", extraSet)]⟩
  modifiers := ⟨[("mode", hueModes)]⟩
  order := [.reference "#/sets/core", .reference "#/modifiers/mode"]
  schema := none
  extensions := none
  definitions := none

/-- The document at a place without other files. -/
def hueSetting : Setting := ⟨hueDocument, ⟨"hue.json"⟩, fun _ => .error .noSuchFile, .empty⟩

/-- The tree of one color in place. -/
def hueTree (context : Context) (name value : String) : Tree :=
  ⟨context, ⟨.empty, [(name, .token ⟨.str value, some .color, none, none, some ⟨"hue.json"⟩⟩)]⟩,
    ⟨"hue.json"⟩⟩

/-- What the set adds: the inner one in front of its own tokens. -/
def huePart : Loaded := ⟨[hueTree .base "rim" "#222", hueTree .base "ink" "#111"], [], []⟩

/-- What the modifier adds. -/
def modePart : Loaded := modifierPart "mode" (some "day") "day" [("day", [hueTree .base "bg" "#fff"]),
  ("dusk", []), ("night", [hueTree .base "bg" "#000"])]

theorem contributes_hueSetting :
    List.Forall₂ hueSetting.Contributes hueDocument.order [huePart, modePart] := by
  have core : hueSetting.entry (.reference "#/sets/core") = .ok (.set "core" hueSet) := rfl
  have mode : hueSetting.entry (.reference "#/modifiers/mode") = .ok (.modifier "mode" hueModes) :=
    rfl
  have target : Target.parse "#/sets/extra" hueSetting.directory = .ok (.set "extra") := rfl
  have defined : hueSetting.document.sets.get? "extra" = some extraSet := rfl
  have entered : "extra" ∉ ["core"] := by decide
  have extra : hueSetting.Expands ["core", "extra"] extraSet.sources [hueTree .base "rim" "#222"] :=
    .inline rfl .nil
  have hues : hueSetting.Adds (.set "core" hueSet) huePart :=
    .set (.set target defined entered extra (.inline rfl .nil))
  have day : hueSetting.Expands [] [hueSource "bg" "#fff"] [hueTree .base "bg" "#fff"] :=
    .inline rfl .nil
  have night : hueSetting.Expands [] [hueSource "bg" "#000"] [hueTree .base "bg" "#000"] :=
    .inline rfl .nil
  have modes : hueSetting.Adds (.modifier "mode" hueModes) modePart :=
    .modifier ⟨rfl, by decide⟩ (.cons ⟨rfl, day⟩ (.cons ⟨rfl, .nil⟩ (.cons ⟨rfl, night⟩ .nil)))
  exact .cons ⟨_, core, hues⟩ (.cons ⟨_, mode, modes⟩ .nil)

/-- The set and the modifier are expanded; in another version of documents, nothing is. -/
theorem expand_hueSetting :
    (hueSetting.document.check hueSetting.file = [] ∧ hueSetting.Sound) ∧
    hueSetting.expand.isOk = true ∧
    (∃ parts, List.Forall₂ hueSetting.Contributes hueDocument.order parts ∧
      hueSetting.expand.trees = parts.flatMap Loaded.base ++ parts.flatMap Loaded.overlays ∧
      hueSetting.expand.modifiers = parts.flatMap Loaded.modifiers) ∧
    ∃ s : Setting, s.expand.isOk = false ∧
      s.expand.trees = [] ∧ s.expand.modifiers = [] ∧ s.expand.errors ≠ [] := by
  have sound : hueSetting.Sound :=
    Setting.sound_of_contributes (exists_forall₂_iff.1 ⟨_, contributes_hueSetting⟩)
  have fine : hueSetting.document.check hueSetting.file = [] := by decide
  have ok := (expand_spec hueSetting).1.2 ⟨fine, sound⟩
  let old : Setting := { hueSetting with document := { hueDocument with version := "1" } }
  have failed : old.expand.isOk = false := by
    rw [Setting.expand_of_check_ne_nil (by decide)]
    rfl
  exact ⟨⟨fine, sound⟩, ok, (expand_spec hueSetting).2.1 ok, old, failed, (expand_spec old).2.2 failed⟩

end DesignTokens
