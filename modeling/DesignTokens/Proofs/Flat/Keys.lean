import DesignTokens.Proofs.Flat.Merge

/-!
# Merged trees

The tables of merged trees are finite maps: every context stands once, and every token once under its
own path.

* `merged_ofTrees`: the trees of one context are merged entries without the contradictory paths;
* `get?_ofTrees`, `keys_ofTrees`, `length_errors_ofTrees`: the token at a path, the paths in order,
  and the number of errors at a path; **`exists_entry_of_get?_ofTrees`**: where a token comes from;
* `Contexts.Keyed`, **`keyed_flatten`**: merged trees are keyed.
-/

namespace DesignTokens

theorem nodup_eraseDups {α : Type u} [BEq α] [LawfulBEq α] (l : List α) : l.eraseDups.Nodup := by
  -- the tail is shortened by a filter, so the induction is on the length
  induction h : l.length using Nat.strongRecOn generalizing l with
  | ind n ih =>
    cases l with
    | nil => simp
    | cons a rest =>
      have shorter : (rest.filter fun b => !b == a).length < n := by
        have := List.length_filter_le (fun b => !b == a) rest
        rw [List.length_cons] at h
        omega
      rw [List.eraseDups_cons, List.nodup_cons]
      refine ⟨?_, ih _ shorter _ rfl⟩
      rw [List.mem_eraseDups, List.mem_filter]
      simp

/-! ## The trees of one context -/

namespace Flat

theorem get?_settle (f : Flat) (path : String) :
    f.settle.tokens.get? path = if f.conflicted path then none else f.tokens.get? path := by
  have := Table.find?_filter (fun k => !f.conflicted k) path f.tokens.entries
  rw [show f.settle.tokens.get? path = _ from this]
  cases f.conflicted path <;> rfl

theorem keys_settle (f : Flat) :
    f.settle.tokens.keys = f.tokens.keys.filter (!f.conflicted ·) := by
  unfold settle Table.keys
  rw [List.filter_map]
  rfl

end Flat

section Trees

variable (trees : List Tree)

theorem merged_ofTrees :
    ∃ f, Merged (trees.flatMap Tree.entries) f ∧ Flat.ofTrees trees = f.settle :=
  ⟨_, merged_foldl _, rfl⟩

theorem conflicted_ofTrees (path : String) :
    (Flat.ofTrees trees).conflicted path = true ↔ Clash (trees.flatMap Tree.entries) path := by
  obtain ⟨f, merged, h⟩ := merged_ofTrees trees
  rw [h]
  exact merged.clash path

theorem get?_ofTrees_of_clash {path : String} (clash : Clash (trees.flatMap Tree.entries) path) :
    (Flat.ofTrees trees).tokens.get? path = none := by
  obtain ⟨f, merged, h⟩ := merged_ofTrees trees
  rw [h, Flat.get?_settle, if_pos ((merged.clash path).2 clash)]

theorem get?_ofTrees {path : String} (clean : ¬ Clash (trees.flatMap Tree.entries) path) :
    (Flat.ofTrees trees).tokens.get? path =
      mergedToken? (tokensOf (trees.flatMap Tree.entries) path) := by
  obtain ⟨f, merged, h⟩ := merged_ofTrees trees
  rw [h, Flat.get?_settle, if_neg (mt (merged.clash path).1 clean), merged.token path clean]

theorem keys_ofTrees :
    (Flat.ofTrees trees).tokens.keys =
      ((trees.flatMap Tree.entries).filterMap Entry.tokenPath?).eraseDups.filter
        (!(Flat.ofTrees trees).conflicted ·) := by
  obtain ⟨f, merged, h⟩ := merged_ofTrees trees
  rw [h, Flat.keys_settle]
  exact merged.order

theorem nodup_keys_ofTrees : (Flat.ofTrees trees).tokens.keys.Nodup := by
  rw [keys_ofTrees]
  exact (nodup_eraseDups _).filter _

theorem length_errors_ofTrees (path : String) :
    ((Flat.ofTrees trees).errors.filter (·.path = path)).length =
      if (Flat.ofTrees trees).conflicted path then 1 else 0 := by
  obtain ⟨f, merged, h⟩ := merged_ofTrees trees
  have count : ((f.errors.map MergeError.path).filter (· = path)).length =
      (f.errors.filter (·.path = path)).length := by
    rw [List.filter_map, List.length_map]
    rfl
  have once : ((f.errors.map MergeError.path).filter (· = path)).length =
      (f.errors.map MergeError.path).count path := by
    rw [List.count_eq_length_filter]
    rfl
  rw [h]
  show (f.errors.filter (·.path = path)).length = if f.conflicted path then 1 else 0
  rw [← count, once, merged.once.count]
  exact if_congr Flat.conflicted_eq_true_iff.symm rfl rfl

/-- **A merged token** is a token of one of the trees, except for its type. -/
theorem exists_entry_of_get?_ofTrees {path : String} {t : FlatToken}
    (h : (Flat.ofTrees trees).tokens.get? path = some t) :
    ∃ tree ∈ trees, ∃ u, .token u ∈ tree.entries ∧ u.path = path ∧ t = { u with type := t.type } := by
  by_cases clash : Clash (trees.flatMap Tree.entries) path
  · rw [get?_ofTrees_of_clash trees clash] at h
    cases h
  · rw [get?_ofTrees trees clash] at h
    obtain ⟨last, hlast, rfl⟩ := Option.map_eq_some_iff.1 h
    obtain ⟨entry, path⟩ := mem_tokensOf.1 (List.mem_of_getLast? hlast)
    obtain ⟨tree, htree, hu⟩ := List.mem_flatMap.1 entry
    exact ⟨tree, htree, last, hu, path, rfl⟩

theorem path_of_get?_ofTrees {path : String} {t : FlatToken}
    (h : (Flat.ofTrees trees).tokens.get? path = some t) : t.path = path := by
  obtain ⟨_, -, u, -, path, same⟩ := exists_entry_of_get?_ofTrees trees h
  rw [same]
  exact path

end Trees

/-! ## All contexts -/

/-- Every context stands once, and every token once under its own path. -/
structure Contexts.Keyed (all : Contexts Flat) : Prop where
  contexts : all.keys.Nodup
  paths : ∀ f ∈ all.values, f.tokens.keys.Nodup
  own : ∀ f ∈ all.values, ∀ e ∈ f.tokens.entries, e.2.path = e.1

theorem Contexts.Keyed.path_of_get? {all : Contexts Flat} (keyed : all.Keyed) {c : Context}
    {path : String} {t : FlatToken} (h : (all.get? c).bind (·.tokens.get? path) = some t) :
    t.path = path := by
  obtain ⟨f, hf, ht⟩ := Option.bind_eq_some_iff.1 h
  exact keyed.own f (Table.mem_values_of_get?_eq_some hf) _ (Table.mem_of_find?_eq_some ht)

theorem keys_flatten (trees : List Tree) : (flatten trees).keys = contextsOf trees := by
  simp [flatten, Table.keys, Function.comp_def]

theorem get?_flatten_eq_some_iff {trees : List Tree} {c : Context} {f : Flat} :
    (flatten trees).get? c = some f ↔
      c ∈ contextsOf trees ∧ f = Flat.ofTrees (trees.filter (·.context = c)) := by
  rw [Table.get?_eq_some_iff (keys_flatten trees ▸ nodup_eraseDups _)]
  constructor
  · intro h
    obtain ⟨c', hc', he⟩ := List.mem_map.1 h
    cases he
    exact ⟨hc', rfl⟩
  · rintro ⟨hc, rfl⟩
    exact List.mem_map.2 ⟨c, hc, rfl⟩

/-- **Merged trees are keyed.** -/
theorem keyed_flatten (trees : List Tree) : (flatten trees).Keyed where
  contexts := keys_flatten trees ▸ nodup_eraseDups _
  paths f hf := by
    obtain ⟨e, he, rfl⟩ := List.mem_map.1 hf
    obtain ⟨c, -, rfl⟩ := List.mem_map.1 he
    exact nodup_keys_ofTrees _
  own f hf e he := by
    obtain ⟨e', he', rfl⟩ := List.mem_map.1 hf
    obtain ⟨c, -, rfl⟩ := List.mem_map.1 he'
    exact path_of_get?_ofTrees _ ((Table.get?_eq_some_iff (nodup_keys_ofTrees _)).2 he)

end DesignTokens
