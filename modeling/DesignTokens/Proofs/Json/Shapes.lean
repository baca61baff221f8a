import DesignTokens.Json.Decoder
import DesignTokens.Proofs.Tables

/-!
# Shapes that are read back

What a decoder reads is written as a value. It is read back if the decoder reads the same from that value.

* `Raw.Distinct`: the keys of every object in a tree are distinct;
* `Fits`: a value without repeated keys, of at most some depth; `fits_of_value?`: so are the values of trees;
* `Rereads`: what a decoder reads back; `Rereads.list`, `Rereads.table`: arrays and tables of such things;
* `fields_ofJson`: the fields of a record that is written as an object; `distinct_of_fields`: of a tree.
-/

namespace DesignTokens.Json

/-! ## Trees without repeated keys -/

namespace Raw

mutual

/-- The keys of every object in the tree are distinct. -/
def Distinct : Raw → Prop
  | .null => True
  | .bool _ => True
  | .num _ => True
  | .str _ => True
  | .arr items => ItemsDistinct items
  | .obj members => (members.map Prod.fst).Nodup ∧ MembersDistinct members

/-- The keys of every object in the items are distinct. -/
def ItemsDistinct : List Raw → Prop
  | [] => True
  | t :: rest => Distinct t ∧ ItemsDistinct rest

/-- The keys of every object in the values of members are distinct. -/
def MembersDistinct : List (Option String × Raw) → Prop
  | [] => True
  | (_, t) :: rest => Distinct t ∧ MembersDistinct rest

end

theorem itemsDistinct_iff {items : List Raw} : ItemsDistinct items ↔ ∀ t ∈ items, t.Distinct := by
  induction items with
  | nil => simp [ItemsDistinct]
  | cons t rest ih => simp [ItemsDistinct, ih]

theorem membersDistinct_iff {members : List (Option String × Raw)} :
    MembersDistinct members ↔ ∀ m ∈ members, m.2.Distinct := by
  induction members with
  | nil => simp [MembersDistinct]
  | cons m rest ih => simp [MembersDistinct, ih]

/-! ## Values that are read back -/

/-- The value is that of its own tree, with at most `depth` arrays and objects inside each other. -/
def Fits (depth : Nat) (j : Json) : Prop := value? depth (ofJson j) = some j

theorem itemValues?_ofItems {depth : Nat} {js : List Json} (h : ∀ j ∈ js, Fits depth j) :
    itemValues? depth (ofItems js) = some js := by
  induction js with
  | nil => rfl
  | cons j rest ih =>
    obtain ⟨first, others⟩ := List.forall_mem_cons.1 h
    rw [ofItems, itemValues?, first, ih others]
    rfl

theorem memberValues?_ofMembers {depth : Nat} {ms : List (String × Json)}
    (h : ∀ m ∈ ms, Fits depth m.2) : memberValues? depth (ofMembers ms) = some ms := by
  induction ms with
  | nil => rfl
  | cons m rest ih =>
    obtain ⟨first, others⟩ := List.forall_mem_cons.1 h
    obtain ⟨key, j⟩ := m
    rw [ofMembers, memberValues?, first, ih others]
    rfl

theorem fits_str (depth : Nat) (s : String) : Fits depth (.str s) := rfl

theorem fits_arr {depth : Nat} {js : List Json} (h : ∀ j ∈ js, Fits depth j) :
    Fits (depth + 1) (.arr js) := by
  unfold Fits
  rw [ofJson, value?, itemValues?_ofItems h]
  rfl

theorem fits_obj {depth : Nat} {ms : List (String × Json)} (nodup : (ms.map Prod.fst).Nodup)
    (h : ∀ m ∈ ms, Fits depth m.2) : Fits (depth + 1) (.obj ms) := by
  unfold Fits
  rw [ofJson, value?, memberValues?_ofMembers h, Option.map_some, Table.entries_ofList nodup]

mutual

/-- **The value of a tree is read back.** -/
theorem fits_of_value? : ∀ {depth : Nat} {t : Raw} {j : Json}, t.value? depth = some j → Fits depth j
  | _, .null, _, h => by cases h; rfl
  | _, .bool _, _, h => by cases h; rfl
  | _, .num n, _, h => by
    obtain ⟨_, -, rfl⟩ := Option.map_eq_some_iff.1 h
    rfl
  | _, .str s, _, h => by
    obtain ⟨_, -, rfl⟩ := Option.map_eq_some_iff.1 h
    rfl
  | 0, .arr items, _, h => by cases h
  | d + 1, .arr items, _, h => by
    obtain ⟨js, hjs, rfl⟩ := Option.map_eq_some_iff.1 h
    exact fits_arr (fits_of_itemValues? hjs)
  | 0, .obj ms, _, h => by cases h
  | d + 1, .obj ms, _, h => by
    obtain ⟨es, hes, rfl⟩ := Option.map_eq_some_iff.1 h
    refine fits_obj (Table.nodup_keys_ofList es) fun m hm => ?_
    obtain ⟨e, he, same⟩ := Table.mem_ofList hm
    exact same ▸ fits_of_memberValues? hes e he

theorem fits_of_itemValues? : ∀ {depth : Nat} {ts : List Raw} {js : List Json},
    itemValues? depth ts = some js → ∀ j ∈ js, Fits depth j
  | _, [], _, h => by cases h; simp
  | _, t :: rest, _, h => by
    obtain ⟨j, hj, h⟩ := Option.bind_eq_some_iff.1 h
    obtain ⟨js, hjs, h⟩ := Option.bind_eq_some_iff.1 h
    cases h
    exact List.forall_mem_cons.2 ⟨fits_of_value? hj, fits_of_itemValues? hjs⟩

theorem fits_of_memberValues? : ∀ {depth : Nat} {ms : List (Option String × Raw)}
    {es : List (String × Json)}, memberValues? depth ms = some es → ∀ e ∈ es, Fits depth e.2
  | _, [], _, h => by cases h; simp
  | _, (key, t) :: rest, _, h => by
    obtain ⟨k, -, h⟩ := Option.bind_eq_some_iff.1 h
    obtain ⟨j, hj, h⟩ := Option.bind_eq_some_iff.1 h
    obtain ⟨js, hjs, h⟩ := Option.bind_eq_some_iff.1 h
    cases h
    exact List.forall_mem_cons.2 ⟨fits_of_value? hj, fits_of_memberValues? hjs⟩

end

end Raw

open Raw

/-! ## Decoders -/

theorem ofItems_eq_map (js : List Json) : ofItems js = js.map ofJson := by
  induction js with
  | nil => rfl
  | cons j rest ih => rw [ofItems, ih, List.map_cons]

theorem ofMembers_eq_map (ms : List (String × Json)) :
    ofMembers ms = ms.map fun m => (some m.1, ofJson m.2) := by
  induction ms with
  | nil => rfl
  | cons m rest ih =>
    obtain ⟨key, j⟩ := m
    rw [ofMembers, ih, List.map_cons]

theorem mapM_eq_some {α β : Type} {f : α → Option β} {l : List α} {r : List β} :
    l.mapM f = some r ↔ List.Forall₂ (fun a b => f a = some b) l r := by
  induction l generalizing r with
  | nil => rw [List.mapM_nil, List.forall₂_nil_left_iff]; exact ⟨fun h => by cases h; rfl, fun h => h ▸ rfl⟩
  | cons a rest ih =>
    rw [List.mapM_cons, List.forall₂_cons_left_iff]
    constructor
    · intro h
      obtain ⟨b, hb, h⟩ := Option.bind_eq_some_iff.1 h
      obtain ⟨bs, hbs, h⟩ := Option.bind_eq_some_iff.1 h
      cases h
      exact ⟨b, bs, hb, ih.1 hbs, rfl⟩
    · rintro ⟨b, bs, hb, hbs, rfl⟩
      rw [hb, ih.2 hbs]
      rfl

theorem exists_of_mapM {α β : Type} {f : α → Option β} {l : List α} {r : List β} (h : l.mapM f = some r)
    {b : β} (hb : b ∈ r) : ∃ a ∈ l, f a = some b := by
  induction mapM_eq_some.1 h with
  | nil => cases hb
  | @cons a b' rest _ first _ ih =>
    rcases List.mem_cons.1 hb with rfl | hb
    · exact ⟨a, List.mem_cons_self, first⟩
    · obtain ⟨a, ha, same⟩ := ih (mapM_eq_some.2 ‹_›) hb
      exact ⟨a, List.mem_cons_of_mem _ ha, same⟩

/-- What is written at a depth as a value, and read back from it. -/
structure Rereads {α : Type} (read : Decoder α) (json : α → Json) (depth : Nat) (a : α) : Prop where
  fits : Fits depth (json a)
  read_ofJson : read depth (ofJson (json a)) = some a

/-- Everything that is read at a depth from a tree without repeated keys is read back. -/
def Faithful {α : Type} (read : Decoder α) (json : α → Json) (depth : Nat) : Prop :=
  ∀ t a, t.Distinct → read depth t = some a → Rereads read json depth a

section Decoder

variable {α : Type} {read : Decoder α} {json : α → Json} {d : Nat}

theorem rereads_str (s : String) : Rereads Decoder.string .str d s := ⟨rfl, rfl⟩

theorem rereads_of_value {t : Raw} {j : Json} (h : Decoder.value d t = some j) :
    Rereads Decoder.value id d j := ⟨fits_of_value? h, fits_of_value? h⟩

/-- **An array of things that are read back.** -/
theorem Rereads.list {as : List α} (h : ∀ a ∈ as, Rereads read json d a) :
    Rereads (Decoder.list read) (fun as => .arr (as.map json)) (d + 1) as := by
  constructor
  · refine fits_arr fun j hj => ?_
    obtain ⟨a, ha, rfl⟩ := List.mem_map.1 hj
    exact (h a ha).fits
  · rw [ofJson, ofItems_eq_map, List.map_map]
    refine mapM_eq_some.2 (List.forall₂_map_left_iff.2 (List.forall₂_same.2 fun a ha => ?_))
    exact (h a ha).read_ofJson

/-- **A table of things that are read back.** -/
theorem Rereads.table {t : Table String α} (nodup : t.keys.Nodup)
    (h : ∀ e ∈ t.entries, Rereads read json d e.2) :
    Rereads (Decoder.table read) (fun t => .obj (t.mapValues json).entries) (d + 1) t := by
  constructor
  · refine fits_obj ?_ fun m hm => ?_
    · simpa [Table.mapValues, Table.keys, Function.comp_def] using nodup
    · obtain ⟨e, he, rfl⟩ := List.mem_map.1 hm
      exact (h e he).fits
  · have entries : ((t.mapValues json).entries.map fun m => (some m.1, ofJson m.2)).mapM
        (fun m => m.1.bind fun key => (read d m.2).bind fun a => some (key, a)) = some t.entries := by
      unfold Table.mapValues
      rw [List.map_map]
      refine mapM_eq_some.2 (List.forall₂_map_left_iff.2 (List.forall₂_same.2 fun e he => ?_))
      show (read d (ofJson (json e.2))).bind _ = _
      rw [(h e he).read_ofJson]
      rfl
    rw [ofJson, ofMembers_eq_map]
    refine (congrArg (Option.bind · fun entries => some (Table.ofList entries)) entries).trans ?_
    exact congrArg (fun entries => some (Table.mk entries)) (Table.entries_ofList nodup)

theorem Faithful.list (h : Faithful read json d) :
    Faithful (Decoder.list read) (fun as => .arr (as.map json)) (d + 1) := by
  intro t as distinct found
  cases t with
  | arr items =>
    refine .list fun a ha => ?_
    obtain ⟨t, ht, same⟩ := exists_of_mapM found ha
    exact h t a (itemsDistinct_iff.1 distinct t ht) same
  | _ => cases found

theorem Faithful.table (h : Faithful read json d) :
    Faithful (Decoder.table read) (fun t => .obj (t.mapValues json).entries) (d + 1) := by
  intro t as distinct found
  cases t with
  | obj ms =>
    obtain ⟨entries, each, same⟩ := Option.bind_eq_some_iff.1 found
    cases same
    refine .table (Table.nodup_keys_ofList _) fun e he => ?_
    obtain ⟨e', he', same⟩ := Table.mem_ofList he
    obtain ⟨⟨key, t⟩, ht, read⟩ := exists_of_mapM each he'
    obtain ⟨k, -, read⟩ := Option.bind_eq_some_iff.1 read
    obtain ⟨a, ha, read⟩ := Option.bind_eq_some_iff.1 read
    cases read
    exact same ▸ h t a (membersDistinct_iff.1 distinct.2 _ ht) ha
  | _ => cases found

/-! ## Records -/

theorem knownMembers_eq (names : List String) {ms : List (String × Raw)}
    (nodup : (ms.map Prod.fst).Nodup) :
    Decoder.knownMembers names (ms.map fun m => (some m.1, m.2)) =
      some (ms.filter fun m => m.1 ∈ names) := by
  induction ms with
  | nil => rfl
  | cons m rest ih =>
    obtain ⟨key, t⟩ := m
    obtain ⟨absent, nodup⟩ := List.nodup_cons.1 nodup
    have none : Table.find? key (rest.filter fun m => m.1 ∈ names) = none := by
      rw [Table.find?_filter (· ∈ names), Table.find?_eq_none_iff.2 absent, ite_self]
    rw [List.map_cons, Decoder.knownMembers, ih nodup, List.filter_cons]
    by_cases known : key ∈ names <;> simp [known, none]

/-- **The fields of an object** without repeated keys. -/
theorem fields_obj (names : List String) {ms : List (String × Raw)} (nodup : (ms.map Prod.fst).Nodup) :
    ∃ f : Decoder.Fields, Decoder.fields names (d + 1) (.obj (ms.map fun m => (some m.1, m.2))) = some f ∧
      f.depth = d ∧ ∀ name ∈ names, f.trees.get? name = Table.find? name ms := by
  refine ⟨⟨d, ⟨ms.filter fun m => m.1 ∈ names⟩⟩, ?_, rfl, fun name among => ?_⟩
  · rw [Decoder.fields, knownMembers_eq names nodup]
    rfl
  · show Table.find? name (ms.filter fun m => m.1 ∈ names) = _
    rw [Table.find?_filter (· ∈ names)]
    simp [among]

/-- **The fields of a record that is written as an object.** -/
theorem fields_ofJson (names : List String) {ms : List (String × Json)} (nodup : (ms.map Prod.fst).Nodup) :
    ∃ f : Decoder.Fields, Decoder.fields names (d + 1) (ofJson (.obj ms)) = some f ∧ f.depth = d ∧
      ∀ name ∈ names, f.trees.get? name = (Table.find? name ms).map ofJson := by
  have keys : ((ms.map fun m => (m.1, ofJson m.2)).map Prod.fst).Nodup := by rwa [List.map_map]
  obtain ⟨f, read, depth, get⟩ := fields_obj (d := d) names keys
  refine ⟨f, ?_, depth, fun name among => ?_⟩
  · rw [ofJson, ofMembers_eq_map]
    rwa [List.map_map] at read
  · rw [get name among, Table.find?_map fun _ => ofJson]

/-- The trees of the fields have no repeated keys. -/
def Decoder.Fields.Distinct (f : Decoder.Fields) : Prop :=
  ∀ name t, f.trees.get? name = some t → t.Distinct

theorem mem_of_mem_knownMembers {names : List String} {ms : List (Option String × Raw)}
    {known : List (String × Raw)} (h : Decoder.knownMembers names ms = some known) {m : String × Raw}
    (hm : m ∈ known) : (some m.1, m.2) ∈ ms := by
  induction ms generalizing known with
  | nil =>
    cases h
    cases hm
  | cons first rest ih =>
    obtain ⟨key, t⟩ := first
    cases key with
    | none => cases h
    | some key =>
      obtain ⟨known', hk, h⟩ := Option.bind_eq_some_iff.1 h
      split at h
      · split at h
        · cases h
        · cases h
          rcases List.mem_cons.1 hm with rfl | hm
          · exact List.mem_cons_self
          · exact List.mem_cons_of_mem _ (ih hk hm)
      · cases h
        exact List.mem_cons_of_mem _ (ih hk hm)

/-- **The fields of a tree without repeated keys.** -/
theorem distinct_of_fields {names : List String} {depth : Nat} {t : Raw} {f : Decoder.Fields}
    (distinct : t.Distinct) (h : Decoder.fields names depth t = some f) :
    depth = f.depth + 1 ∧ f.Distinct := by
  match depth, t, h with
  | d + 1, .obj ms, h =>
    obtain ⟨known, hk, same⟩ := Option.map_eq_some_iff.1 h
    cases same
    refine ⟨rfl, fun name t ht => ?_⟩
    exact membersDistinct_iff.1 distinct.2 _ (mem_of_mem_knownMembers hk (Table.mem_of_find?_eq_some ht))
  | d + 1, .arr items, h =>
    have h : (if items.length ≤ names.length then some ⟨d, ⟨names.zip items⟩⟩ else none) = some f := h
    split at h
    · cases h
      refine ⟨rfl, fun name t ht => ?_⟩
      exact itemsDistinct_iff.1 distinct t (List.of_mem_zip (Table.mem_of_find?_eq_some ht)).2
    · cases h

/-! ## Fields -/

section Field

variable {f : Decoder.Fields} {name : String}

theorem required_eq {a : α} (h : Rereads read json f.depth a)
    (get : f.trees.get? name = some (ofJson (json a))) : f.required name read = some a := by
  unfold Decoder.Fields.required
  rw [get]
  exact h.read_ofJson

theorem default_eq {a b : α} (h : Rereads read json f.depth a)
    (get : f.trees.get? name = some (ofJson (json a))) : f.default name b read = some a := by
  unfold Decoder.Fields.default
  rw [get]
  exact h.read_ofJson

theorem nullable_eq {depth : Nat} {t : Raw} (some : t ≠ .null) :
    Decoder.nullable read depth t = (read depth t).map .some := by
  unfold Decoder.nullable
  split
  · exact absurd rfl some
  · rfl

theorem optional_eq {x : Option α} (h : ∀ a ∈ x, Rereads read json f.depth a ∧ json a ≠ .null)
    (get : f.trees.get? name = (x.map json).map ofJson) : f.optional name read = some x := by
  unfold Decoder.Fields.optional Decoder.Fields.default
  rw [get]
  cases x with
  | none => rfl
  | some a =>
    obtain ⟨rereads, some⟩ := h a rfl
    have tree : ofJson (json a) ≠ .null := by
      cases same : json a with
      | null => exact absurd same some
      | _ => simp [ofJson]
    show Decoder.nullable read f.depth (ofJson (json a)) = _
    rw [nullable_eq tree, rereads.read_ofJson]
    rfl

theorem rereads_of_required (faithful : Faithful read json f.depth) (distinct : f.Distinct) {a : α}
    (h : f.required name read = some a) : Rereads read json f.depth a := by
  obtain ⟨t, ht, h⟩ := Option.bind_eq_some_iff.1 h
  exact faithful t a (distinct name t ht) h

theorem rereads_of_default (faithful : Faithful read json f.depth) (distinct : f.Distinct) {a b : α}
    (h : f.default name b read = some a) : a = b ∨ Rereads read json f.depth a := by
  unfold Decoder.Fields.default at h
  split at h
  · cases h
    exact .inl rfl
  · rename_i t ht
    exact .inr (faithful t a (distinct name t ht) h)

theorem exists_of_optional {a : α} (h : f.optional name read = some (some a)) :
    ∃ t, f.trees.get? name = some t ∧ t ≠ .null ∧ read f.depth t = some a := by
  unfold Decoder.Fields.optional Decoder.Fields.default at h
  split at h
  · cases h
  · rename_i t ht
    by_cases null : t = .null
    · rw [null] at h
      cases h
    · rw [nullable_eq null] at h
      obtain ⟨a', ha, same⟩ := Option.map_eq_some_iff.1 h
      cases same
      exact ⟨t, ht, null, ha⟩

end Field

end Decoder

end DesignTokens.Json
