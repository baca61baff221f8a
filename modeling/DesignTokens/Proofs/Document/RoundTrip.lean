import DesignTokens.Document.Read
import DesignTokens.Proofs.Json.Shapes
import DesignTokens.Proofs.Json.Written
import Mathlib.Data.List.Nodup

/-!
# Documents that are written

A document that was read from a text without repeated keys is written as a text from which it is read
back. A reference is never read as something in place, nor the other way round: what is written in place
has the same `$ref` as what was read.

* `referenceDecoder_ofJson`: the `$ref` of an object; **`faithful_source`**: sources;
* `SetDefinition.Kept`, `ModifierDefinition.Kept`: sets and modifiers whose sources are read back;
  **`faithful_set`**, **`faithful_modifier`**, **`faithful_item`**;
* `Document.Kept`: documents whose parts are read back; `Document.kept_of_decoder`: those that were
  read;
* **`Document.parse?_compact`**: documents.
-/

namespace DesignTokens

open Json Json.Raw

/-! ## Sources -/

theorem exists_of_memberValues? {d : Nat} {ms : List (Option String × Raw)} {js : List (String × Json)}
    (h : memberValues? d ms = some js) : ∃ es : List (String × Raw),
      ms = es.map (fun e => (some e.1, e.2)) ∧
      List.Forall₂ (fun e j => j.1 = e.1 ∧ value? d e.2 = some j.2) es js := by
  induction ms generalizing js with
  | nil =>
    cases h
    exact ⟨[], rfl, .nil⟩
  | cons m rest ih =>
    obtain ⟨key, t⟩ := m
    obtain ⟨k, rfl, h⟩ := Option.bind_eq_some_iff.1 h
    obtain ⟨j, hj, h⟩ := Option.bind_eq_some_iff.1 h
    obtain ⟨js, hjs, h⟩ := Option.bind_eq_some_iff.1 h
    cases h
    obtain ⟨es, rfl, each⟩ := ih hjs
    exact ⟨(k, t) :: es, rfl, .cons ⟨rfl, hj⟩ each⟩

theorem exists_of_value?_eq_obj {depth : Nat} {t : Raw} {members : List (String × Json)}
    (h : value? depth t = some (.obj members)) : ∃ d ms js, depth = d + 1 ∧ t = .obj ms ∧
      memberValues? d ms = some js ∧ members = (Table.ofList js).entries := by
  rcases value?_cases h with ⟨-, same⟩ | ⟨_, -, same⟩ | ⟨_, -, same⟩ | ⟨_, -, same⟩ |
    ⟨_, _, _, -, -, -, same⟩ | ⟨d, ms, js, depth, object, values, same⟩ <;> cases same
  exact ⟨d, ms, js, depth, object, values, rfl⟩

theorem string_ofJson {d : Nat} {t : Raw} {j : Json} (h : value? d t = some j) :
    Decoder.string d (ofJson j) = Decoder.string d t := by
  rcases value?_cases h with ⟨rfl, rfl⟩ | ⟨b, rfl, rfl⟩ | ⟨n, rfl, rfl⟩ | ⟨s, rfl, rfl⟩ |
    ⟨_, _, _, -, rfl, -, rfl⟩ | ⟨_, _, _, -, rfl, -, rfl⟩ <;> rfl

theorem referenceDecoder_obj {d : Nat} {ms : List (String × Raw)} (nodup : (ms.map Prod.fst).Nodup) :
    referenceDecoder (d + 1) (.obj (ms.map fun m => (some m.1, m.2))) =
      (Table.find? "$ref" ms).bind (Decoder.string d) := by
  obtain ⟨f, read, depth, get⟩ := fields_obj (d := d) ["$ref"] nodup
  unfold referenceDecoder Decoder.record
  rw [read, Option.bind_some, Decoder.Fields.required, get _ (List.mem_singleton_self _), depth]

/-- **What is written of an object has the same `$ref`.** -/
theorem referenceDecoder_ofJson {depth : Nat} {t : Raw} {members : List (String × Json)}
    (distinct : t.Distinct) (value : value? depth t = some (.obj members)) :
    referenceDecoder depth (ofJson (.obj members)) = referenceDecoder depth t := by
  obtain ⟨d, ms, js, rfl, rfl, hjs, rfl⟩ := exists_of_value?_eq_obj value
  obtain ⟨es, rfl, each⟩ := exists_of_memberValues? hjs
  have keys : js.map Prod.fst = es.map Prod.fst := by
    rw [← List.forall₂_eq_eq_eq, List.forall₂_map_left_iff, List.forall₂_map_right_iff]
    exact each.flip.imp fun _ _ h => h.1
  have nodup : (es.map Prod.fst).Nodup := by
    have nodup : ((es.map Prod.fst).map some).Nodup := by
      have nodup := distinct.1
      rwa [List.map_map] at nodup ⊢
    exact List.Nodup.of_map some nodup
  have nodup' : ((js.map fun m => (m.1, ofJson m.2)).map Prod.fst).Nodup := by
    rw [List.map_map]
    exact keys ▸ nodup
  have written := referenceDecoder_obj (d := d) nodup'
  rw [List.map_map] at written
  rw [Table.entries_ofList (keys ▸ nodup), referenceDecoder_obj nodup, ofJson, ofMembers_eq_map]
  refine written.trans ?_
  rw [Table.find?_map fun _ => ofJson]
  rcases Table.find?_of_forall₂ (fun h => h.1) each "$ref" with ⟨none, none'⟩ | ⟨t, v, ht, hv, -, value⟩
  · rw [none, none']
    rfl
  · rw [ht, hv]
    exact string_ofJson value

theorem exists_of_referenceDecoder {depth : Nat} {t : Raw} {target : String} (distinct : t.Distinct)
    (h : referenceDecoder depth t = some target) : ∃ d, depth = d + 1 := by
  obtain ⟨f, read, -⟩ := Option.bind_eq_some_iff.1 h
  exact ⟨f.depth, (distinct_of_fields distinct read).1⟩

theorem fits_referenceJson (d : Nat) (target : String) : Fits (d + 1) (referenceJson target) := rfl

/-- **Sources are read back.** -/
theorem faithful_source (d : Nat) : Faithful Source.decoder Source.json d := by
  intro t s distinct h
  obtain ⟨j, value, h⟩ := Option.bind_eq_some_iff.1 h
  cases reference : referenceDecoder d t with
  | some target =>
    rw [reference] at h
    cases h
    obtain ⟨d, rfl⟩ := exists_of_referenceDecoder distinct reference
    exact ⟨fits_referenceJson d target, rfl⟩
  | none =>
    rw [reference] at h
    obtain ⟨members, inside, same⟩ := Option.map_eq_some_iff.1 h
    cases same
    obtain ⟨j', value', object⟩ := Option.bind_eq_some_iff.1 inside
    cases j' with
    | obj members' =>
      -- the `$ref` is no text, and what is written in place has the same
      cases object
      have fits := fits_of_value? value'
      refine ⟨fits, ?_⟩
      have same := (referenceDecoder_ofJson distinct value').trans reference
      unfold Source.decoder
      rw [Source.json, Decoder.value, fits, same, inlineDecoder, Decoder.value, fits]
      rfl
    | _ => cases object

/-! ## Sets and modifiers -/

theorem find?_optionalMember (name key : String) (value : Option Json) :
    Table.find? name (optionalMember key value) = if key = name then value else none := by
  cases value <;> simp [optionalMember, Table.find?]

theorem keys_optionalMember (key : String) (value : Option Json) :
    ((optionalMember key value).map Prod.fst).Sublist [key] := by
  cases value <;> simp [optionalMember]

theorem fits_optionalMember {d : Nat} {key : String} {value : Option Json} (h : ∀ j ∈ value, Fits d j) :
    ∀ m ∈ optionalMember key value, Fits d m.2 := by
  cases value with
  | none => simp [optionalMember]
  | some j => simpa [optionalMember] using h

namespace SetDefinition

theorem find?_description (s : SetDefinition) :
    Table.find? "description" s.members = s.description.map .str := by
  simp [members, Table.find?_append, find?_optionalMember, Table.find?]

theorem find?_sources (s : SetDefinition) :
    Table.find? "sources" s.members = some (sourcesJson s.sources) := by
  simp [members, Table.find?_append, find?_optionalMember, Table.find?]

theorem keys_members (s : SetDefinition) : (s.members.map Prod.fst).Sublist ["description", "sources"] := by
  rw [members, List.map_append]
  exact (keys_optionalMember _ _).append (List.Sublist.refl _)

end SetDefinition

namespace ModifierDefinition

theorem find?_description (m : ModifierDefinition) :
    Table.find? "description" m.members = m.description.map .str := by
  simp [members, Table.find?_append, find?_optionalMember, Table.find?]

theorem find?_contexts (m : ModifierDefinition) :
    Table.find? "contexts" m.members = some (.obj (m.contexts.mapValues sourcesJson).entries) := by
  simp [members, Table.find?_append, find?_optionalMember, Table.find?]

theorem find?_default (m : ModifierDefinition) :
    Table.find? "default" m.members = m.default.map .str := by
  simp [members, Table.find?_append, find?_optionalMember, Table.find?]

theorem keys_members (m : ModifierDefinition) :
    (m.members.map Prod.fst).Sublist ["description", "contexts", "default"] := by
  rw [members, List.map_append, List.map_append, List.append_assoc]
  exact (keys_optionalMember _ _).append ((List.Sublist.refl _).append (keys_optionalMember _ _))

end ModifierDefinition

theorem fits_text {d : Nat} {x : Option String} : ∀ j ∈ x.map Json.str, Fits d j := by
  intro j hj
  obtain ⟨text, -, rfl⟩ := Option.map_eq_some_iff.1 hj
  exact fits_str _ text

section Fields

variable {f : Decoder.Fields} {d : Nat}

theorem optional_text {name : String} {x : Option String}
    (get : f.trees.get? name = (x.map Json.str).map ofJson) : f.optional name Decoder.string = some x :=
  optional_eq (fun s _ => ⟨rereads_str s, by simp⟩) get

/-- A set whose sources are read back. -/
structure SetDefinition.Kept (d : Nat) (s : SetDefinition) : Prop where
  sources : Rereads (Decoder.list Source.decoder) sourcesJson (d + 1) s.sources

theorem SetDefinition.kept_of_ofFields (distinct : f.Distinct) (depth : f.depth = d + 1)
    {s : SetDefinition} (h : ofFields f = some s) : s.Kept d := by
  obtain ⟨description, -, h⟩ := Option.bind_eq_some_iff.1 h
  obtain ⟨sources, read, h⟩ := Option.bind_eq_some_iff.1 h
  cases h
  have faithful : Faithful (Decoder.list Source.decoder) sourcesJson f.depth :=
    depth ▸ (faithful_source d).list
  rcases rereads_of_default faithful distinct read with rfl | rereads
  · exact ⟨Rereads.list (by simp)⟩
  · exact ⟨depth ▸ rereads⟩

theorem SetDefinition.Kept.fits {s : SetDefinition} (h : s.Kept d) : ∀ m ∈ s.members, Fits (d + 1) m.2 :=
  List.forall_mem_append.2 ⟨fits_optionalMember fits_text,
    List.forall_mem_singleton.2 h.sources.fits⟩

theorem SetDefinition.Kept.ofFields_eq {s : SetDefinition} (h : s.Kept d) (depth : f.depth = d + 1)
    (get : ∀ name ∈ ["description", "sources"],
      f.trees.get? name = (Table.find? name s.members).map ofJson) : ofFields f = some s := by
  have description := get "description" (by simp)
  have sources := get "sources" (by simp)
  rw [s.find?_description] at description
  rw [s.find?_sources] at sources
  have kept := h.sources
  rw [← depth] at kept
  unfold ofFields
  rw [optional_text description, default_eq kept sources]
  rfl

/-- A modifier whose sources are read back. -/
structure ModifierDefinition.Kept (d : Nat) (m : ModifierDefinition) : Prop where
  contexts : Rereads (Decoder.table (Decoder.list Source.decoder))
    (fun t => .obj (t.mapValues sourcesJson).entries) (d + 2) m.contexts

theorem ModifierDefinition.kept_of_ofFields (distinct : f.Distinct) (depth : f.depth = d + 2)
    {m : ModifierDefinition} (h : ofFields f = some m) : m.Kept d := by
  obtain ⟨description, -, h⟩ := Option.bind_eq_some_iff.1 h
  obtain ⟨contexts, read, h⟩ := Option.bind_eq_some_iff.1 h
  obtain ⟨default, -, h⟩ := Option.bind_eq_some_iff.1 h
  cases h
  have faithful : Faithful (Decoder.table (Decoder.list Source.decoder))
      (fun t => .obj (t.mapValues sourcesJson).entries) f.depth :=
    depth ▸ (faithful_source d).list.table
  exact ⟨depth ▸ rereads_of_required faithful distinct read⟩

theorem ModifierDefinition.Kept.fits {m : ModifierDefinition} (h : m.Kept d) :
    ∀ e ∈ m.members, Fits (d + 2) e.2 :=
  List.forall_mem_append.2 ⟨List.forall_mem_append.2 ⟨fits_optionalMember fits_text,
    List.forall_mem_singleton.2 h.contexts.fits⟩,
    fits_optionalMember fits_text⟩

theorem ModifierDefinition.Kept.ofFields_eq {m : ModifierDefinition} (h : m.Kept d)
    (depth : f.depth = d + 2) (get : ∀ name ∈ ["description", "contexts", "default"],
      f.trees.get? name = (Table.find? name m.members).map ofJson) : ofFields f = some m := by
  have description := get "description" (by simp)
  have contexts := get "contexts" (by simp)
  have default := get "default" (by simp)
  rw [m.find?_description] at description
  rw [m.find?_contexts] at contexts
  rw [m.find?_default] at default
  have kept := h.contexts
  rw [← depth] at kept
  unfold ofFields
  rw [optional_text description, required_eq kept contexts, optional_text default]
  rfl

end Fields

/-- **Sets are read back.** -/
theorem faithful_set (d : Nat) : Faithful SetDefinition.decoder (fun s => .obj s.members) (d + 2) := by
  intro t s distinct h
  obtain ⟨f, fields, h⟩ := Option.bind_eq_some_iff.1 h
  obtain ⟨depth, distinct⟩ := distinct_of_fields distinct fields
  have kept := SetDefinition.kept_of_ofFields distinct (Nat.succ.inj depth).symm h
  have nodup : (s.members.map Prod.fst).Nodup := .sublist s.keys_members (by decide)
  refine ⟨fits_obj nodup kept.fits, ?_⟩
  obtain ⟨g, read, depth, get⟩ := fields_ofJson (d := d + 1) ["description", "sources"] nodup
  unfold SetDefinition.decoder Decoder.record
  rw [read]
  exact kept.ofFields_eq depth get

/-- **Modifiers are read back.** -/
theorem faithful_modifier (d : Nat) :
    Faithful ModifierDefinition.decoder (fun m => .obj m.members) (d + 3) := by
  intro t m distinct h
  obtain ⟨f, fields, h⟩ := Option.bind_eq_some_iff.1 h
  obtain ⟨depth, distinct⟩ := distinct_of_fields distinct fields
  have kept := ModifierDefinition.kept_of_ofFields distinct (Nat.succ.inj depth).symm h
  have nodup : (m.members.map Prod.fst).Nodup := .sublist m.keys_members (by decide)
  refine ⟨fits_obj nodup kept.fits, ?_⟩
  obtain ⟨g, read, depth, get⟩ := fields_ofJson (d := d + 2) ["description", "contexts", "default"] nodup
  unfold ModifierDefinition.decoder Decoder.record
  rw [read]
  exact kept.ofFields_eq depth get

/-! ## The resolution order -/

theorem item_ofJson (names : List String) {kind name : String} {members : List (String × Json)} {d : Nat}
    (nodup : ([("type", Json.str kind), ("name", Json.str name)] ++ members).map Prod.fst |>.Nodup)
    (known : "type" ∈ names ∧ "name" ∈ names) :
    ∃ f : Decoder.Fields, Decoder.fields names (d + 1)
        (ofJson (.obj ([("type", .str kind), ("name", .str name)] ++ members))) = some f ∧ f.depth = d ∧
      f.trees.get? "type" = some (.str (some kind)) ∧ f.required "name" Decoder.string = some name ∧
      ∀ key, key ∈ names ∧ key ≠ "type" ∧ key ≠ "name" →
        f.trees.get? key = (Table.find? key members).map ofJson := by
  obtain ⟨f, read, depth, get⟩ := fields_ofJson (d := d) names nodup
  refine ⟨f, read, depth, ?_, ?_, fun key ⟨among, type, name⟩ => ?_⟩
  · rw [get _ known.1]
    rfl
  · refine required_eq (rereads_str name) ?_
    rw [get _ known.2]
    rfl
  · rw [get _ among, Table.find?_append]
    simp [Table.find?, Ne.symm type, Ne.symm name]

theorem referenceDecoder_item {kind name : String} {members : List (String × Json)} {d : Nat}
    (nodup : ([("type", Json.str kind), ("name", Json.str name)] ++ members).map Prod.fst |>.Nodup)
    (absent : "$ref" ∉ members.map Prod.fst) :
    referenceDecoder (d + 1) (ofJson (.obj ([("type", .str kind), ("name", .str name)] ++ members))) =
      none := by
  obtain ⟨f, read, -, get⟩ := fields_ofJson (d := d) ["$ref"] nodup
  unfold referenceDecoder Decoder.record
  rw [read, Option.bind_some, Decoder.Fields.required, get _ (List.mem_singleton_self _),
    Table.find?_append, Table.find?_eq_none_iff.2 absent]
  rfl

theorem nodup_item (kind name : String) {members : List (String × Json)} {own : List String}
    (keys : (members.map Prod.fst).Sublist own) (distinct : ("type" :: "name" :: own).Nodup) :
    ([("type", Json.str kind), ("name", Json.str name)] ++ members).map Prod.fst |>.Nodup := by
  refine List.Nodup.sublist ?_ distinct
  rw [List.map_append]
  exact (List.Sublist.refl ["type", "name"]).append keys

theorem fits_item {kind name : String} {members : List (String × Json)} {d : Nat}
    (nodup : ([("type", Json.str kind), ("name", Json.str name)] ++ members).map Prod.fst |>.Nodup)
    (h : ∀ m ∈ members, Fits d m.2) :
    Fits (d + 1) (.obj ([("type", .str kind), ("name", .str name)] ++ members)) :=
  fits_obj nodup (List.forall_mem_append.2 ⟨by simp [fits_str], h⟩)

theorem rereads_setItem {d : Nat} (name : String) {s : SetDefinition} (kept : s.Kept d) :
    Rereads Item.decoder Item.json (d + 2) (.set name s) := by
  have nodup := nodup_item "set" name s.keys_members (by decide)
  have fits := fits_item nodup kept.fits
  have reference := referenceDecoder_item (d := d + 1) nodup
    fun among => absurd (s.keys_members.subset among) (by decide)
  obtain ⟨f, read, depth, kind, named, get⟩ := item_ofJson (d := d + 1)
    ["type", "name", "description", "sources"] nodup (by decide)
  have own : ∀ key ∈ ["description", "sources"],
      key ∈ ["type", "name", "description", "sources"] ∧ key ≠ "type" ∧ key ≠ "name" := by decide
  have set : Item.setDecoder (d + 2) (ofJson (Item.set name s).json) = some (.set name s) := by
    unfold Item.setDecoder Decoder.record Item.json
    rw [read, Option.bind_some, Decoder.Fields.required, kind, named,
      kept.ofFields_eq depth fun key among => get key (own key among)]
    rfl
  refine ⟨fits, ?_⟩
  unfold Item.decoder
  rw [set, Decoder.value, Item.json, fits, reference]
  rfl

theorem rereads_modifierItem {d : Nat} (name : String) {m : ModifierDefinition} (kept : m.Kept d) :
    Rereads Item.decoder Item.json (d + 3) (.modifier name m) := by
  have nodup := nodup_item "modifier" name m.keys_members (by decide)
  have fits := fits_item nodup kept.fits
  have reference := referenceDecoder_item (d := d + 2) nodup
    fun among => absurd (m.keys_members.subset among) (by decide)
  obtain ⟨f, read, depth, kind, named, get⟩ := item_ofJson (d := d + 2)
    ["type", "name", "description", "contexts", "default"] nodup (by decide)
  obtain ⟨g, read', -, kind', -⟩ := item_ofJson (d := d + 2)
    ["type", "name", "description", "sources"] nodup (by decide)
  have own : ∀ key ∈ ["description", "contexts", "default"],
      key ∈ ["type", "name", "description", "contexts", "default"] ∧ key ≠ "type" ∧ key ≠ "name" := by decide
  -- sets are tried first, and `type` keeps them from taking a modifier
  have set : Item.setDecoder (d + 3) (ofJson (Item.modifier name m).json) = none := by
    unfold Item.setDecoder Decoder.record Item.json
    rw [read', Option.bind_some, Decoder.Fields.required, kind']
    rfl
  have modifier : Item.modifierDecoder (d + 3) (ofJson (Item.modifier name m).json) =
      some (.modifier name m) := by
    unfold Item.modifierDecoder Decoder.record Item.json
    rw [read, Option.bind_some, Decoder.Fields.required, kind, named,
      kept.ofFields_eq depth fun key among => get key (own key among)]
    rfl
  refine ⟨fits, ?_⟩
  unfold Item.decoder
  rw [set, modifier, Decoder.value, Item.json, fits, reference]
  rfl

theorem kept_of_item {α : Type} {names : List String} {kind : Decoder Unit}
    {build : Decoder.Fields → Option α} {item : String → α → Item} {d : Nat} {t : Raw} {i : Item}
    (distinct : t.Distinct)
    (h : Decoder.record names (fun f => do
      let _ ← f.required "type" kind
      let name ← f.required "name" Decoder.string
      item name <$> build f) (d + 1) t = some i) :
    ∃ (f : Decoder.Fields) (name : String) (a : α),
      f.depth = d ∧ f.Distinct ∧ build f = some a ∧ i = item name a := by
  obtain ⟨f, fields, h⟩ := Option.bind_eq_some_iff.1 h
  obtain ⟨depth, distinct⟩ := distinct_of_fields distinct fields
  obtain ⟨-, -, h⟩ := Option.bind_eq_some_iff.1 h
  obtain ⟨name, -, h⟩ := Option.bind_eq_some_iff.1 h
  obtain ⟨a, ha, same⟩ := Option.map_eq_some_iff.1 h
  exact ⟨f, name, a, (Nat.succ.inj depth).symm, distinct, ha, same.symm⟩

/-- **Entries of the resolution order are read back.** -/
theorem faithful_item (d : Nat) : Faithful Item.decoder Item.json (d + 3) := by
  intro t item distinct h
  obtain ⟨j, value, h⟩ := Option.bind_eq_some_iff.1 h
  cases reference : referenceDecoder (d + 3) t with
  | some target =>
    rw [reference] at h
    cases h
    exact ⟨fits_referenceJson _ target, rfl⟩
  | none =>
    rw [reference] at h
    cases set : Item.setDecoder (d + 3) t with
    | some i =>
      rw [set] at h
      cases h
      obtain ⟨f, name, s, depth, distinct, build, rfl⟩ := kept_of_item distinct set
      exact rereads_setItem name (SetDefinition.kept_of_ofFields distinct depth build)
    | none =>
      rw [set] at h
      obtain ⟨f, name, m, depth, distinct, build, rfl⟩ := kept_of_item distinct h
      exact rereads_modifierItem name (ModifierDefinition.kept_of_ofFields distinct depth build)

/-! ## Documents -/

/-- The members of a document. -/
def Document.members (d : Document) : List (String × Json) :=
  [("version", .str d.version)] ++
  optionalMember "name" (d.name.map .str) ++
  optionalMember "description" (d.description.map .str) ++
  [("sets", .obj (d.sets.mapValues fun s => .obj s.members).entries),
    ("modifiers", .obj (d.modifiers.mapValues fun m => .obj m.members).entries),
    ("resolutionOrder", .arr (d.order.map Item.json))] ++
  optionalMember "$schema" (d.schema.map .str) ++
  optionalMember "$extensions" d.extensions ++
  optionalMember "$defs" d.definitions

/-- The names of the fields of a document. -/
def documentNames : List String :=
  ["version", "name", "description", "sets", "modifiers", "resolutionOrder", "$schema",
    "$extensions", "$defs"]

theorem Document.keys_members (d : Document) : (d.members.map Prod.fst).Sublist documentNames := by
  unfold members
  simp only [List.map_append]
  exact ((((((List.Sublist.refl ["version"]).append (keys_optionalMember _ _)).append
    (keys_optionalMember _ _)).append (List.Sublist.refl ["sets", "modifiers", "resolutionOrder"])).append
    (keys_optionalMember _ _)).append (keys_optionalMember _ _)).append (keys_optionalMember _ _)

theorem ne_null_of_value {d : Nat} {t : Raw} {j : Json} (some : t ≠ .null)
    (h : Decoder.value d t = .some j) : j ≠ .null := by
  rintro rfl
  rcases value?_cases h with ⟨null, -⟩ | ⟨_, -, same⟩ | ⟨_, -, same⟩ | ⟨_, -, same⟩ |
    ⟨_, _, _, -, -, -, same⟩ | ⟨_, _, _, -, -, -, same⟩
  · exact some null
  all_goals cases same

theorem Document.find?_members (d : Document) :
    Table.find? "version" d.members = some (.str d.version) ∧
    Table.find? "name" d.members = d.name.map .str ∧
    Table.find? "description" d.members = d.description.map .str ∧
    Table.find? "sets" d.members = some (.obj (d.sets.mapValues fun s => .obj s.members).entries) ∧
    Table.find? "modifiers" d.members = some (.obj (d.modifiers.mapValues fun m => .obj m.members).entries) ∧
    Table.find? "resolutionOrder" d.members = some (.arr (d.order.map Item.json)) ∧
    Table.find? "$schema" d.members = d.schema.map .str ∧
    Table.find? "$extensions" d.members = d.extensions ∧
    Table.find? "$defs" d.members = d.definitions := by
  simp [members, Table.find?_append, find?_optionalMember, Table.find?]

/-- A document whose parts are read back. -/
structure Document.Kept (depth : Nat) (d : Document) : Prop where
  sets : Rereads (Decoder.table SetDefinition.decoder)
    (fun t => .obj (t.mapValues fun s => .obj s.members).entries) depth d.sets
  modifiers : Rereads (Decoder.table ModifierDefinition.decoder)
    (fun t => .obj (t.mapValues fun m => .obj m.members).entries) depth d.modifiers
  order : Rereads (Decoder.list Item.decoder) (fun items => .arr (items.map Item.json)) depth d.order
  extensions : ∀ j ∈ d.extensions, Rereads Decoder.value id depth j ∧ id j ≠ .null
  definitions : ∀ j ∈ d.definitions, Rereads Decoder.value id depth j ∧ id j ≠ .null

theorem rereads_of_optional {f : Decoder.Fields} {name : String} {x : Option Json}
    (h : f.optional name Decoder.value = some x) :
    ∀ j ∈ x, Rereads Decoder.value id f.depth j ∧ id j ≠ .null := by
  intro j hj
  obtain rfl := hj
  obtain ⟨t, -, null, value⟩ := exists_of_optional h
  exact ⟨rereads_of_value value, ne_null_of_value null value⟩

/-- The parts of a document that was read. Sources of a modifier are the deepest of them, in a list of a
table of a modifier of a table. -/
theorem Document.kept_of_decoder {depth : Nat} {t : Raw} {d : Document} (distinct : t.Distinct)
    (h : decoder (depth + 5) t = some d) : d.Kept (depth + 4) := by
  obtain ⟨f, fields, h⟩ := Option.bind_eq_some_iff.1 h
  obtain ⟨enough, distinct⟩ := distinct_of_fields distinct fields
  have enough : f.depth = depth + 4 := (Nat.succ.inj enough).symm
  obtain ⟨version, -, h⟩ := Option.bind_eq_some_iff.1 h
  obtain ⟨name, -, h⟩ := Option.bind_eq_some_iff.1 h
  obtain ⟨description, -, h⟩ := Option.bind_eq_some_iff.1 h
  obtain ⟨sets, readSets, h⟩ := Option.bind_eq_some_iff.1 h
  obtain ⟨modifiers, readModifiers, h⟩ := Option.bind_eq_some_iff.1 h
  obtain ⟨order, readOrder, h⟩ := Option.bind_eq_some_iff.1 h
  obtain ⟨schema, -, h⟩ := Option.bind_eq_some_iff.1 h
  obtain ⟨extensions, readExtensions, h⟩ := Option.bind_eq_some_iff.1 h
  obtain ⟨definitions, readDefinitions, h⟩ := Option.bind_eq_some_iff.1 h
  cases h
  have faithfulSets : Faithful (Decoder.table SetDefinition.decoder)
      (fun t => .obj (t.mapValues fun s => .obj s.members).entries) f.depth :=
    enough ▸ (faithful_set (depth + 1)).table
  have faithfulModifiers : Faithful (Decoder.table ModifierDefinition.decoder)
      (fun t => .obj (t.mapValues fun m => .obj m.members).entries) f.depth :=
    enough ▸ (faithful_modifier depth).table
  have faithfulOrder : Faithful (Decoder.list Item.decoder) (fun items => .arr (items.map Item.json))
      f.depth := enough ▸ (faithful_item depth).list
  rw [← enough]
  refine ⟨?_, ?_, rereads_of_required faithfulOrder distinct readOrder, rereads_of_optional readExtensions,
    rereads_of_optional readDefinitions⟩
  · rcases rereads_of_default faithfulSets distinct readSets with rfl | rereads
    · exact enough ▸ Rereads.table List.nodup_nil (by simp [Table.empty])
    · exact rereads
  · rcases rereads_of_default faithfulModifiers distinct readModifiers with rfl | rereads
    · exact enough ▸ Rereads.table List.nodup_nil (by simp [Table.empty])
    · exact rereads

/-- **Documents are read back.** -/
theorem Document.Kept.decoder_eq {depth : Nat} {d : Document} (kept : d.Kept depth) :
    decoder (depth + 1) (ofJson d.json) = some d := by
  obtain ⟨f, read, rfl, get⟩ := fields_ofJson (d := depth) documentNames
    (.sublist d.keys_members (by decide))
  obtain ⟨version, name, description, sets, modifiers, order, schema, extensions, definitions⟩ :=
    d.find?_members
  have get : ∀ key value, key ∈ documentNames → Table.find? key d.members = value →
      f.trees.get? key = value.map ofJson := fun key value among found => found ▸ get key among
  have readExtensions : f.optional "$extensions" Decoder.value = some d.extensions :=
    optional_eq kept.extensions (by rw [Option.map_id]; exact get _ _ (by decide) extensions)
  have readDefinitions : f.optional "$defs" Decoder.value = some d.definitions :=
    optional_eq kept.definitions (by rw [Option.map_id]; exact get _ _ (by decide) definitions)
  show (Decoder.fields documentNames (f.depth + 1) (ofJson (.obj d.members))).bind _ = _
  rw [read, Option.bind_some, required_eq (rereads_str d.version) (get _ _ (by decide) version),
    optional_text (get _ _ (by decide) name), optional_text (get _ _ (by decide) description),
    default_eq kept.sets (get _ _ (by decide) sets),
    default_eq kept.modifiers (get _ _ (by decide) modifiers),
    required_eq kept.order (get _ _ (by decide) order), optional_text (get _ _ (by decide) schema),
    readExtensions, readDefinitions]
  rfl

/-- **A document is read back from its text.** A document read from a text without repeated keys is
written as a text from which the same document is read, if the numbers in it are read back from theirs.
So it is written the same way again. -/
theorem Document.parse?_compact {text : String} {d : Document} (h : parse? text = some d)
    (distinct : ∀ t, Raw.read text = some t → t.Distinct)
    (numbers : ∀ n ∈ d.json.numbers, Json.parse? n.text = some (.num n)) :
    parse? d.json.compact = some d ∧
      ∀ d', parse? d.json.compact = some d' → d'.json.compact = d.json.compact := by
  obtain ⟨t, read, h⟩ := Option.bind_eq_some_iff.1 h
  have again : parse? d.json.compact = some d := by
    unfold parse? Decoder.parse?
    rw [read_compact numbers]
    have kept : d.Kept 126 := kept_of_decoder (distinct t read) h
    exact kept.decoder_eq
  refine ⟨again, fun d' h' => ?_⟩
  rw [again] at h'
  cases h'
  rfl

/-! ## A document of arrays -/

/-- A document with records as arrays, an absent and a `null` field, a number as `$ref`, and kinds by
name and by number. -/
def mixedJson : Json := .arr [.str "2025.10", .null, .str "themes",
  .obj [("core", .arr [.null, .arr [.arr [.str "core.json"], .obj [("$ref", .num (.integer 7))]]])],
  .obj [],
  .arr [.arr [.str "#/sets/core"], .arr [.str "set", .str "extra"],
    .obj [("type", .num (.integer 1)), ("name", .str "theme"),
      ("contexts", .obj [("night", .arr [.obj []])])]]]

/-- The document that this value stands for. -/
def mixedDocument : Document where
  version := "2025.10"
  name := none
  description := some "themes"
  sets := ⟨[("core", ⟨none, [.reference "core.json", .inline [("$ref", .num (.integer 7))]]⟩)]⟩
  modifiers := .empty
  order := [.reference "#/sets/core", .set "extra" ⟨none, []⟩,
    .modifier "theme" ⟨none, ⟨[("night", [.inline []])]⟩, none⟩]
  schema := none
  extensions := none
  definitions := none

theorem read_mixedJson : Raw.read mixedJson.compact = some (ofJson mixedJson) := by
  refine read_compact fun n hn => ?_
  have numbers : n ∈ [Number.integer 7, Number.integer 1] := hn
  simp only [List.mem_cons, List.not_mem_nil, or_false] at numbers
  rcases numbers with rfl | rfl
  · exact parse?_integer (by decide) (by decide)
  · exact parse?_integer (by decide) (by decide)

/-- It is written as an object, which is read as the same document. -/
theorem Document.parse?_compact_mixedDocument : parse? mixedJson.compact = some mixedDocument ∧
    (∀ t, Raw.read mixedJson.compact = some t → t.Distinct) ∧
    (∀ n ∈ mixedDocument.json.numbers, Json.parse? n.text = some (.num n)) ∧
    parse? mixedDocument.json.compact = some mixedDocument := by
  have parsed : parse? mixedJson.compact = some mixedDocument := by
    unfold parse? Decoder.parse?
    rw [read_mixedJson]
    rfl
  have distinct : ∀ t, Raw.read mixedJson.compact = some t → t.Distinct := by
    intro t read
    rw [read_mixedJson] at read
    cases read
    simp [mixedJson, ofJson, ofItems, ofMembers, Raw.Distinct, Raw.ItemsDistinct, Raw.MembersDistinct]
  have numbers : ∀ n ∈ mixedDocument.json.numbers, Json.parse? n.text = some (.num n) := by
    intro n hn
    obtain rfl := List.mem_singleton.1 (show n ∈ [Number.integer 7] from hn)
    exact parse?_integer (by decide) (by decide)
  exact ⟨parsed, distinct, numbers, (parse?_compact parsed distinct numbers).1⟩

end DesignTokens
