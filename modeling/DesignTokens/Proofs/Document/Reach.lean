import DesignTokens.Proofs.Document.Expansion
import DesignTokens.Proofs.Tables

/-!
# What a resolution order leads to

The sources of a document that count are those of the sets and modifiers in the resolution order, and of
the sets that these lead to. Whether a document can be expanded is a matter of these.

* `OrderEntry`, `Setting.entry`: what an entry of the resolution order stands for;
* `Setting.Reaches`: the sources that the resolution order leads to, with the sets on the way;
* `Setting.Chooses`: the context of a modifier that is part of the base;
* `Setting.Sound`: everything that the resolution order leads to resolves, and no set leads back to
  itself; **`Sound.exists_expands`**: then all of it expands.
-/

namespace DesignTokens

/-- What an entry of the resolution order stands for. -/
inductive OrderEntry where
  | set (name : String) (definition : SetDefinition)
  | modifier (name : String) (definition : ModifierDefinition)
  | file (path : Path) (pointer : Option String)

namespace Setting

variable (s : Setting)

/-- What a reference in the resolution order stands for, or why it stands for nothing. -/
def referred (r : String) : Except LoadError OrderEntry := do
  match ← Target.parse r s.directory with
  | .set name => match s.document.sets.get? name with
    | none => throw (.setNotFound name r)
    | some definition => return .set name definition
  | .modifier name => match s.document.modifiers.get? name with
    | none => throw (.modifierNotFound name r)
    | some m => return .modifier name m
  | .file path pointer => return .file path pointer

/-- What an entry of the resolution order stands for: it is spelled out, or a reference. -/
def entry : Item → Except LoadError OrderEntry
  | .set name definition => .ok (.set name definition)
  | .modifier name m => .ok (.modifier name m)
  | .reference r => s.referred r

/-- The sources that the resolution order leads to, and the sets that are under way there, the outermost
first: those of its sets, those of all contexts of its modifiers, and those of the sets among these. -/
inductive Reaches : List String → List Source → Prop
  | set {item : Item} {name : String} {definition : SetDefinition}
      (listed : item ∈ s.document.order) (stands : s.entry item = .ok (.set name definition)) :
      Reaches [name] definition.sources
  | context {item : Item} {name : String} {m : ModifierDefinition} {c : String × List Source}
      (listed : item ∈ s.document.order) (stands : s.entry item = .ok (.modifier name m))
      (declared : c ∈ m.contexts.entries) : Reaches [] c.2
  | inner {stack : List String} {sources : List Source} {r name : String}
      {definition : SetDefinition} (reached : Reaches stack sources) (used : .reference r ∈ sources)
      (target : Target.parse r s.directory = .ok (.set name))
      (defined : s.document.sets.get? name = some definition) :
      Reaches (stack ++ [name]) definition.sources

/-- The context of a modifier that is part of the base: the one selected, or else its default. -/
def Chooses (name : String) (m : ModifierDefinition) (context : String) : Prop :=
  (s.selections.get? name <|> m.default) = some context ∧ context ∈ m.contexts.keys

/-- **Everything that the resolution order leads to is in order.** -/
structure Sound : Prop where
  /-- Every entry stands for something. -/
  entries : ∀ item ∈ s.document.order, ∃ entry, s.entry item = .ok entry
  /-- The files among the entries load. -/
  files : ∀ item ∈ s.document.order, ∀ path pointer,
    s.entry item = .ok (.file path pointer) → ∃ group, s.fs.Loads path pointer group
  /-- Every modifier among the entries has a chosen context. -/
  chosen : ∀ item ∈ s.document.order, ∀ name m,
    s.entry item = .ok (.modifier name m) → ∃ context, s.Chooses name m context
  /-- Every source stands for something, and none is a modifier. -/
  sources : ∀ stack sources, s.Reaches stack sources → ∀ source ∈ sources, s.Resolves source
  /-- No set is entered while it is under way. -/
  entered : ∀ stack sources, s.Reaches stack sources → stack.Nodup

variable {s}

theorem selected_eq_ok {name : String} {m : ModifierDefinition} {context : String} :
    s.selected name m = .ok context ↔ s.Chooses name m context := by
  unfold selected Chooses
  cases (s.selections.get? name <|> m.default) with
  | none => simp
  | some context' =>
    dsimp only
    constructor
    · intro h
      split at h
      · rename_i declared
        cases h
        exact ⟨rfl, Table.contains_iff.1 declared⟩
      · cases h
    · rintro ⟨same, declared⟩
      cases same
      rw [if_pos (Table.contains_iff.2 declared)]

variable (s) in
/-- Some of the sources that are reached. -/
def Among (stack : List String) (l : List Source) : Prop :=
  ∃ sources, s.Reaches stack sources ∧ ∀ source ∈ l, source ∈ sources

theorem Reaches.among {stack : List String} {sources : List Source}
    (h : s.Reaches stack sources) : s.Among stack sources := ⟨sources, h, fun _ used => used⟩

section Among

variable {stack : List String} {source : Source} {rest : List Source}
  (h : s.Among stack (source :: rest))

include h

theorem Among.head : ∃ sources, s.Reaches stack sources ∧ source ∈ sources := by
  obtain ⟨sources, reached, part⟩ := h
  exact ⟨sources, reached, part source (List.mem_cons_self ..)⟩

theorem Among.tail : s.Among stack rest := by
  obtain ⟨sources, reached, part⟩ := h
  exact ⟨sources, reached, fun source' used => part source' (List.mem_cons_of_mem _ used)⟩

end Among

theorem nodup_append_singleton {stack : List String} {name : String} :
    (stack ++ [name]).Nodup ↔ stack.Nodup ∧ name ∉ stack := by
  rw [List.nodup_append]
  simp only [List.nodup_cons, List.not_mem_nil, not_false_eq_true, List.nodup_nil, and_self,
    List.mem_singleton, forall_eq, true_and]
  exact and_congr_right fun _ => ⟨fun h mem => h _ mem rfl, fun h _ mem same => h (same ▸ mem)⟩

/-- **What is reached expands.** -/
theorem Sound.exists_expands (sound : s.Sound) {stack : List String} {sources : List Source}
    (among : s.Among stack sources) : ∃ trees, s.Expands stack sources trees := by
  induction stack, sources using sources_induction (s := s) with
  | nil stack => exact ⟨[], .nil⟩
  | inline stack members rest next =>
    obtain ⟨later, hl⟩ := next among.tail
    obtain ⟨sources, reached, used⟩ := among.head
    obtain ⟨group, tokens⟩ := sound.sources _ _ reached _ used
    exact ⟨_, .inline tokens hl⟩
  | reference stack r rest within next =>
    obtain ⟨later, hl⟩ := next among.tail
    obtain ⟨sources, reached, used⟩ := among.head
    obtain ⟨target, ht, found⟩ := sound.sources _ _ reached _ used
    cases target with
    | modifier name => cases found
    | file path pointer =>
      obtain ⟨group, loads⟩ := found
      exact ⟨_, .file ht loads hl⟩
    | set name =>
      obtain ⟨definition, defined⟩ := found
      have inside := Reaches.inner reached used ht defined
      have entered := (nodup_append_singleton.1 (sound.entered _ _ inside)).2
      obtain ⟨trees, hi⟩ := within name definition ht defined entered inside.among
      exact ⟨_, .set ht defined entered hi hl⟩

end Setting

end DesignTokens
