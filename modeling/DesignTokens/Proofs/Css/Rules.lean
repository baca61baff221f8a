import DesignTokens.Compile
import DesignTokens.Proofs.Css.Sheets

/-!
# Rules of a context

The rules of a context, of whatever files, declare what its tokens are converted to.

* `Compiled.rules`: the rules of a context; `rules_eq`: they are those of its files;
* **`text_of_mem_rules`**, **`mem_propertyNames_rules`**: what they declare comes from its tokens, and all
  of its tokens are declared; **`declared_of_nodup`**: all that they declare, if no property is declared
  twice;
* `rules_of_targetFile`: the rule of a context with one file.
-/

namespace DesignTokens

theorem mem_group_iff {κ α : Type} [DecidableEq κ] {l : List (κ × α)} {k : κ} {group : List α}
    (h : (k, group) ∈ (groupByKey l).entries) {a : α} : a ∈ group ↔ (k, a) ∈ l := by
  have found := get?_groupByKey l k
  rw [(Table.get?_eq_some_iff (nodup_keys_groupByKey l)).2 h] at found
  rw [show group = _ from found]
  simp

/-- The rules of a context, of all files. -/
def Compiled.rules (out : Compiled) (output : OutputSettings) (c : Context) : List CssRule :=
  match out.tokens.get? c with
  | some list => (fileRules out.modifiers output c list).map Prod.snd
  | none => []

theorem propertyNames_append (rules rules' : List CssRule) :
    propertyNames (rules ++ rules') = propertyNames rules ++ propertyNames rules' := by
  simp [propertyNames]

section Rules

variable {out : Compiled} {output : OutputSettings} {c : Context}

theorem map_snd_fileRules (modifiers : List Modifier) (output : OutputSettings) (c : Context)
    (list : List CssToken) : (fileRules modifiers output c list).map Prod.snd =
      (groupByKey (list.map fun t => (targetFile output t, t))).entries.flatMap fun g =>
        contextRules (selector modifiers output.themeAttribute c) g.2 := by
  simp only [fileRules, List.map_flatMap, List.map_map]
  exact List.flatMap_congr fun g _ => List.map_id _

theorem rules_eq {list : List CssToken} (hl : out.tokens.get? c = some list) :
    out.rules output c = (groupByKey (list.map fun t => (targetFile output t, t))).entries.flatMap
      fun g => contextRules (selector out.modifiers output.themeAttribute c) g.2 := by
  unfold Compiled.rules
  rw [hl]
  exact map_snd_fileRules out.modifiers output c list

theorem perm_files (output : OutputSettings) (list : List CssToken) :
    ((groupByKey (list.map fun t => (targetFile output t, t))).entries.flatMap Prod.snd).Perm list := by
  have perm := perm_groupByKey (list.map fun t => (targetFile output t, t))
  rwa [List.map_map, show (Prod.snd ∘ fun t => (targetFile output t, t)) = id from rfl,
    List.map_id] at perm

theorem mem_rules_iff {rule : CssRule} : rule ∈ out.rules output c ↔
    ∃ list, out.tokens.get? c = some list ∧ ∃ file group,
      (file, group) ∈ (groupByKey (list.map fun t => (targetFile output t, t))).entries ∧
      rule ∈ contextRules (selector out.modifiers output.themeAttribute c) group := by
  cases hl : out.tokens.get? c with
  | none => simp [Compiled.rules, hl]
  | some list => simp [rules_eq hl]

/-- **What a rule declares** are texts of tokens of the context, with their references as uses. -/
theorem text_of_mem_rules {rule : CssRule} (h : rule ∈ out.rules output c) {d : String × String}
    (hd : d ∈ rule.properties) : ∃ list, out.tokens.get? c = some list ∧ ∃ ct ∈ list,
      ∃ text ∈ ct.value.texts, d.2 = Name.renderReferences text := by
  obtain ⟨list, hl, file, group, hg, hr⟩ := mem_rules_iff.1 h
  have mem : ∀ ct ∈ group, ct ∈ list := by
    intro ct hct
    obtain ⟨t, ht, same⟩ := List.mem_map.1 ((mem_group_iff hg).1 hct)
    cases same
    exact ht
  refine ⟨list, hl, ?_⟩
  rcases List.mem_cons.1 hr with rfl | hr
  · obtain ⟨ct, hct, hd⟩ := List.mem_flatMap.1 hd
    refine ⟨ct, mem ct hct, ?_⟩
    unfold plainDeclarations at hd
    unfold CssValue.texts
    cases body : ct.value.body with
    | single text =>
      rw [body] at hd
      obtain rfl := List.mem_singleton.1 hd
      exact ⟨text, by simp, rfl⟩
    | entries parts =>
      rw [body] at hd
      obtain ⟨p, hp, rfl⟩ := List.mem_map.1 hd
      exact ⟨p.2, List.mem_append_left _ (List.mem_map_of_mem hp), rfl⟩
  · obtain ⟨⟨query, properties⟩, hq, rfl⟩ := List.mem_map.1 hr
    obtain ⟨ct, hct, hf⟩ := List.mem_flatMap.1 ((mem_group_iff hq).1 hd)
    obtain ⟨feature, hfeature, same⟩ := List.mem_map.1 hf
    cases same
    exact ⟨ct, mem ct hct, feature.text,
      List.mem_append_right _ (List.mem_map_of_mem hfeature), rfl⟩

/-- **Every token of a context is declared** in a rule. -/
theorem mem_propertyNames_rules {list : List CssToken} (hl : out.tokens.get? c = some list)
    {ct : CssToken} (hct : ct ∈ list) {d : String × List Fragment}
    (hd : d ∈ ct.value.body.declarations ct.path) : d.1 ∈ propertyNames (out.rules output c) := by
  have keyed : (targetFile output ct, ct) ∈ list.map fun t => (targetFile output t, t) :=
    List.mem_map_of_mem hct
  obtain ⟨group, hg⟩ := mem_entries_groupByKey keyed
  have rule : ⟨selector out.modifiers output.themeAttribute c, group.flatMap plainDeclarations, none⟩ ∈
      out.rules output c := mem_rules_iff.2 ⟨list, hl, _, group, hg, List.mem_cons_self⟩
  refine List.mem_map.2 ⟨(d.1, written d.2), List.mem_flatMap.2 ⟨_, rule, ?_⟩, rfl⟩
  refine List.mem_flatMap.2 ⟨ct, (mem_group_iff hg).2 keyed, ?_⟩
  rw [plainDeclarations_eq]
  exact List.mem_map_of_mem hd

theorem rules_of_targetFile {list : List CssToken} (hl : out.tokens.get? c = some list) (ne : list ≠ [])
    {file : Path} (target : ∀ t ∈ list, targetFile output t = file)
    (features : ∀ t ∈ list, t.value.features = []) :
    out.rules output c = [⟨selector out.modifiers output.themeAttribute c,
      list.flatMap plainDeclarations, none⟩] := by
  unfold Compiled.rules
  rw [hl]
  simp only [fileRules_of_targetFile ne target, contextRules_of_features features, List.map_singleton]

section Once

variable {list : List CssToken} (hl : out.tokens.get? c = some list)

include hl

theorem features_of_nodup
    (single : ∀ t ∈ list, t.value.features ≠ [] → ∃ text, t.value.body = .single text)
    (nodup : (propertyNames (out.rules output c)).Nodup) : ∀ t ∈ list, t.value.features = [] := by
  have perm := perm_files output list
  rw [rules_eq hl] at nodup
  intro t ht
  obtain ⟨g, hg, ht⟩ := List.mem_flatMap.1 (perm.mem_iff.2 ht)
  have once : (propertyNames
      (contextRules (selector out.modifiers output.themeAttribute c) g.2)).Nodup := by
    obtain ⟨before, after, split⟩ := List.append_of_mem hg
    rw [split, List.flatMap_append, List.flatMap_cons, propertyNames_append,
      propertyNames_append] at nodup
    exact (List.nodup_append.1 (List.nodup_append.1 nodup).2.1).1
  exact features_eq_nil_of_nodup
    (fun u hu => single u (perm.mem_iff.1 (List.mem_flatMap.2 ⟨g, hg, hu⟩))) once t ht

theorem perm_properties (features : ∀ t ∈ list, t.value.features = []) :
    ((out.rules output c).flatMap CssRule.properties).Perm
      ((declaredFragments list).map fun d => (d.1, written d.2)) := by
  have perm := perm_files output list
  have properties : (out.rules output c).flatMap CssRule.properties =
      ((groupByKey (list.map fun t => (targetFile output t, t))).entries.flatMap Prod.snd).flatMap
        plainDeclarations := by
    rw [rules_eq hl, List.flatMap_assoc, List.flatMap_assoc]
    refine List.flatMap_congr fun g hg => ?_
    have plain : ∀ t ∈ g.2, t.value.features = [] := fun t ht =>
      features t (perm.mem_iff.1 (List.mem_flatMap.2 ⟨g, hg, ht⟩))
    rw [contextRules_of_features plain, List.flatMap_singleton]
  rw [properties, ← flatMap_plainDeclarations]
  exact perm.flatMap_right plainDeclarations

/-- **Properties that are declared once**: the rules of the context declare what its tokens are converted
to, nothing is behind a query, and no two tokens declare a property of one name. -/
theorem declared_of_nodup
    (single : ∀ t ∈ list, t.value.features ≠ [] → ∃ text, t.value.body = .single text)
    (nodup : (propertyNames (out.rules output c)).Nodup) :
    (∀ t ∈ list, t.value.features = []) ∧ ((declaredFragments list).map Prod.fst).Nodup ∧
      ((out.rules output c).flatMap CssRule.properties).Perm
        ((declaredFragments list).map fun d => (d.1, written d.2)) := by
  have features := features_of_nodup hl single nodup
  refine ⟨features, ?_, perm_properties hl features⟩
  have names := ((perm_properties hl features).map Prod.fst).nodup_iff.1 nodup
  rwa [List.map_map] at names

end Once

end Rules

end DesignTokens
