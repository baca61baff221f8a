import DesignTokens.Proofs.Css.Colors
import Mathlib.Data.List.Nodup

/-!
# One stylesheet for one context

Declarations are put together by their files and by their feature queries. If there is one context and
one file, the file has the rules of that context; and if no property is declared twice, there is one
rule, without a query.

* `get?_groupByKey`, `mem_keys_groupByKey`: what is put together under a key; `perm_ungroup`,
  `perm_groupByKey`: all that is put together; `groupByKey_eq_one_iff`: a single key;
* **`sheets_eq_one_iff`**: the rules of a single file;
* `declaredFragments`: what the tokens of a context declare, with its uses; `CssValue.texts`: the texts of
  a token;
* **`forms_of_convert?`**: the forms of a converted value;
* **`rules_of_nodup`**: if no property is declared twice, that is all that is written, and no token has
  a value behind a query.
-/

namespace DesignTokens

/-! ## Things put together by a key -/

section Group

variable {κ α : Type} [DecidableEq κ]

theorem groupByKey_append_singleton (l : List (κ × α)) (e : κ × α) :
    groupByKey (l ++ [e]) = (groupByKey l).alter e.1 fun former => former.getD [] ++ [e.2] := by
  unfold groupByKey
  rw [List.foldl_append]
  rfl

theorem nodup_keys_groupByKey (l : List (κ × α)) : (groupByKey l).keys.Nodup := by
  induction l using List.reverseRecOn with
  | nil => exact List.nodup_nil
  | append_singleton l e ih =>
    rw [groupByKey_append_singleton]
    exact Table.nodup_keys_alter ih _ _

theorem mem_keys_groupByKey {l : List (κ × α)} {k : κ} :
    k ∈ (groupByKey l).keys ↔ k ∈ l.map Prod.fst := by
  induction l using List.reverseRecOn with
  | nil => exact Iff.rfl
  | append_singleton l e ih =>
    rw [groupByKey_append_singleton, Table.keys_alter, List.map_append, List.mem_append, ← ih]
    split
    · rename_i present
      refine ⟨.inl, fun h => h.elim id fun here => ?_⟩
      obtain rfl := List.mem_singleton.1 here
      exact present
    · rw [List.mem_append]
      rfl

theorem get?_groupByKey (l : List (κ × α)) (k : κ) :
    ((groupByKey l).get? k).getD [] = (l.filter (·.1 = k)).map Prod.snd := by
  induction l using List.reverseRecOn with
  | nil => rfl
  | append_singleton l e ih =>
    rw [groupByKey_append_singleton, List.filter_append, List.map_append, ← ih]
    by_cases same : e.1 = k
    · subst same
      rw [Table.get?_alter_self]
      simp
    · rw [Table.get?_alter_of_ne (Ne.symm same)]
      simp [same]

theorem mem_entries_groupByKey {l : List (κ × α)} {e : κ × α} (he : e ∈ l) :
    ∃ group, (e.1, group) ∈ (groupByKey l).entries := by
  obtain ⟨⟨k, group⟩, hg, rfl⟩ :=
    List.mem_map.1 (mem_keys_groupByKey.2 (List.mem_map_of_mem (f := Prod.fst) he))
  exact ⟨group, hg⟩

/-- Everything that is under the keys, with its key. -/
def ungroup (entries : List (κ × List α)) : List (κ × α) := entries.flatMap fun e => e.2.map (e.1, ·)

theorem perm_alterEntries (k : κ) (a : α) (l : List (κ × List α)) :
    (ungroup (Table.alterEntries k (fun former => former.getD [] ++ [a]) l)).Perm
      (ungroup l ++ [(k, a)]) := by
  induction l with
  | nil => exact .refl _
  | cons e rest ih =>
    obtain ⟨k', group⟩ := e
    unfold Table.alterEntries
    split
    · rename_i same
      subst same
      simp only [ungroup, List.flatMap_cons, Option.getD_some, List.map_append, List.append_assoc]
      exact List.perm_append_comm.append_left _
    · simp only [ungroup, List.flatMap_cons, List.append_assoc] at ih ⊢
      exact ih.append_left _

theorem perm_ungroup (l : List (κ × α)) : (ungroup (groupByKey l).entries).Perm l := by
  induction l using List.reverseRecOn with
  | nil => exact .refl _
  | append_singleton l e ih =>
    rw [groupByKey_append_singleton]
    exact (perm_alterEntries e.1 e.2 _).trans (ih.append_right [e])

theorem perm_groupByKey (l : List (κ × α)) :
    ((groupByKey l).entries.flatMap Prod.snd).Perm (l.map Prod.snd) := by
  have perm := (perm_ungroup l).map Prod.snd
  simpa [ungroup, List.map_flatMap, Function.comp_def] using perm

omit [DecidableEq κ] in
theorem entries_eq_one {t : Table κ α} (nodup : t.keys.Nodup) {e : κ × α} (here : e ∈ t.entries)
    (only : ∀ e' ∈ t.entries, e' = e) : t.entries = [e] := by
  have entries : t.entries.Nodup := .of_map _ nodup
  refine List.perm_singleton.1 ((List.perm_ext_iff_of_nodup entries (List.nodup_singleton e)).2
    fun e' => ⟨fun he => List.mem_singleton.2 (only e' he), fun he => ?_⟩)
  exact List.mem_singleton.1 he ▸ here

/-- **A single key.** -/
theorem groupByKey_eq_one_iff {l : List (κ × α)} {k : κ} {group : List α} :
    (groupByKey l).entries = [(k, group)] ↔
      l ≠ [] ∧ (∀ e ∈ l, e.1 = k) ∧ group = l.map Prod.snd := by
  have all : (∀ e ∈ l, e.1 = k) → l.filter (·.1 = k) = l := fun same =>
    List.filter_eq_self.2 fun e he => decide_eq_true (same e he)
  have found := get?_groupByKey l k
  constructor
  · intro one
    have same : ∀ e ∈ l, e.1 = k := by
      intro e he
      obtain ⟨other, ho⟩ := mem_entries_groupByKey he
      rw [one] at ho
      exact congrArg Prod.fst (List.mem_singleton.1 ho)
    rw [all same, Table.get?, one] at found
    refine ⟨?_, same, by simpa [Table.find?] using found⟩
    rintro rfl
    cases one
  · rintro ⟨ne, same, rfl⟩
    rw [all same] at found
    have only : ∀ e ∈ (groupByKey l).entries, e = (k, l.map Prod.snd) := by
      rintro ⟨k', group⟩ he
      obtain ⟨e, he', rfl⟩ := List.mem_map.1 (mem_keys_groupByKey.1 (List.mem_map_of_mem he))
      rw [same e he'] at he ⊢
      rw [(Table.get?_eq_some_iff (nodup_keys_groupByKey l)).2 he] at found
      exact congrArg (Prod.mk k) found
    obtain ⟨first, hfirst⟩ := List.exists_mem_of_ne_nil l ne
    obtain ⟨group, here⟩ := mem_entries_groupByKey hfirst
    exact entries_eq_one (nodup_keys_groupByKey l) (only _ here ▸ here) only

end Group

/-! ## A single file -/

theorem contextRules_ne_nil (selector : String) (tokens : List CssToken) :
    contextRules selector tokens ≠ [] := List.cons_ne_nil _ _

section File

variable {modifiers : List Modifier} {output : OutputSettings} {c : Context} {list : List CssToken}
  {file : Path}

theorem fileRules_of_targetFile (ne : list ≠ []) (target : ∀ t ∈ list, targetFile output t = file) :
    fileRules modifiers output c list =
      (contextRules (selector modifiers output.themeAttribute c) list).map (file, ·) := by
  have same : ∀ e ∈ list.map fun t => (targetFile output t, t), e.1 = file := by
    rintro _ he
    obtain ⟨t, ht, rfl⟩ := List.mem_map.1 he
    exact target t ht
  have one := groupByKey_eq_one_iff.2 ⟨mt List.map_eq_nil_iff.1 ne, same, rfl⟩
  simp only [fileRules]
  rw [one, List.flatMap_singleton, List.map_map]
  simp [Function.comp_def]

/-- **The rules of a single file** are those of the tokens of the only context. -/
theorem sheets_eq_one_iff {rules : List CssRule} :
    (sheets modifiers output ⟨[(c, list)]⟩).entries = [(file, rules)] ↔
      list ≠ [] ∧ (∀ t ∈ list, targetFile output t = file) ∧
        rules = contextRules (selector modifiers output.themeAttribute c) list := by
  unfold sheets
  rw [List.flatMap_singleton, groupByKey_eq_one_iff]
  constructor
  · rintro ⟨ne, same, rfl⟩
    have target : ∀ t ∈ list, targetFile output t = file := by
      intro t ht
      have keyed : (targetFile output t, t) ∈ list.map fun t => (targetFile output t, t) :=
        List.mem_map_of_mem ht
      obtain ⟨group, hg⟩ := mem_entries_groupByKey keyed
      obtain ⟨rule, hr⟩ := List.exists_mem_of_ne_nil _
        (contextRules_ne_nil (selector modifiers output.themeAttribute c) group)
      exact same (targetFile output t, rule)
        (List.mem_flatMap.2 ⟨_, hg, List.mem_map_of_mem hr⟩)
    have some : list ≠ [] := by
      rintro rfl
      exact ne rfl
    refine ⟨some, target, ?_⟩
    simp only [fileRules_of_targetFile some target, List.map_map]
    simp [Function.comp_def]
  · rintro ⟨ne, target, rfl⟩
    simp only [fileRules_of_targetFile ne target]
    exact ⟨mt List.map_eq_nil_iff.1 (contextRules_ne_nil _ _), by simp, by simp [Function.comp_def]⟩

end File

/-! ## Properties that are declared once -/

/-- What the tokens of a context declare, with its uses. -/
def declaredFragments (tokens : List CssToken) : List (String × List Fragment) :=
  tokens.flatMap fun t => t.value.body.declarations t.path

theorem flatMap_plainDeclarations (tokens : List CssToken) :
    tokens.flatMap plainDeclarations = (declaredFragments tokens).map fun d => (d.1, written d.2) := by
  unfold declaredFragments
  rw [List.map_flatMap]
  exact List.flatMap_congr fun t _ => plainDeclarations_eq t

/-- All texts of a converted value, those behind feature queries included. -/
def CssValue.texts (v : CssValue) : List String :=
  (match v.body with
    | .single text => [text]
    | .entries parts => parts.map Prod.snd) ++ v.features.map FeatureValue.text

theorem forms_of_convertColor {transforms : Transforms} {path : String} {o : Operand} {v : CssValue}
    (h : convertColor transforms path o = .ok v) :
    ∃ text features, v = ⟨.single text, features⟩ ∧ features.length ≤ 1 ∧
      ∀ f ∈ features, ∃ space, featureQuery? space = some f.query := by
  rcases convertColor_eq_ok_iff.1 h with ⟨text, -, rfl⟩ | ⟨-, space, native, -, -, written⟩
  · exact ⟨text, [], rfl, Nat.zero_le 1, fun _ hf => nomatch hf⟩
  · split at written
    · exact ⟨native, [], written, Nat.zero_le 1, fun _ hf => nomatch hf⟩
    · rename_i query behind
      obtain ⟨hex, -, rfl⟩ := written
      refine ⟨hex, _, rfl, Nat.le_refl 1, fun f hf => ⟨space, ?_⟩⟩
      rw [List.mem_singleton.1 hf]
      exact featureQuery?_of_query? behind

/-- **The two forms of a converted value**: one text, with at most one more behind the query of a color space,
or the sub-properties of a text style. -/
theorem forms_of_convert? {transforms : Transforms} {path : String} {type : TokenType} {o : Operand}
    {v : CssValue} (h : convert? transforms path type o = .ok (some v)) :
    (∃ text features, v = ⟨.single text, features⟩ ∧ features.length ≤ 1 ∧
      ∀ f ∈ features, ∃ space, featureQuery? space = some f.query) ∨
      type = .typography ∧ ∃ parts, v = ⟨.entries parts, []⟩ := by
  have plain : ∀ text, ∃ text' features, CssValue.single text = ⟨.single text', features⟩ ∧
      features.length ≤ 1 ∧ ∀ f ∈ features, ∃ space, featureQuery? space = some f.query :=
    fun text => ⟨text, [], rfl, Nat.zero_le 1, fun _ hf => nomatch hf⟩
  unfold convert? at h
  split at h
  · split at h
    · cases h
      exact .inr ⟨rfl, _, rfl⟩
    · cases h
      exact .inl (plain _)
  · cases type with
    | unknown name => cases h
    | typography =>
      obtain ⟨c, hc, some⟩ := map_eq_ok.1 h
      cases some
      obtain ⟨parts, -, hc⟩ := bind_eq_ok.1 hc
      cases hc
      exact .inr ⟨rfl, _, rfl⟩
    | color =>
      obtain ⟨c, hc, some⟩ := map_eq_ok.1 h
      cases some
      exact .inl (forms_of_convertColor hc)
    | fluidDimension | shadow | border | gradient =>
      obtain ⟨text, -, some⟩ := map_eq_ok.1 h
      cases some
      exact .inl (plain _)
    | dimension | duration | cubicBezier | number | fontFamily | fontWeight | transition
      | strokeStyle =>
      cases h
      exact .inl (plain _)

theorem exists_body_eq_single {transforms : Transforms} {path : String} {type : TokenType}
    {o : Operand} {v : CssValue} (h : convert? transforms path type o = .ok (some v))
    (ne : type ≠ .typography) : ∃ text, v.body = .single text := by
  rcases forms_of_convert? h with ⟨text, features, rfl, -⟩ | ⟨style, -⟩
  · exact ⟨text, rfl⟩
  · exact absurd style ne

theorem single_of_features {transforms : Transforms} {path : String} {type : TokenType} {o : Operand}
    {v : CssValue} (h : convert? transforms path type o = .ok (some v)) (ne : v.features ≠ []) :
    ∃ text, v.body = .single text := by
  rcases forms_of_convert? h with ⟨text, features, rfl, -⟩ | ⟨-, parts, rfl⟩
  · exact ⟨text, rfl⟩
  · exact absurd rfl ne

/-- The names of all properties that rules declare. -/
def propertyNames (rules : List CssRule) : List String :=
  (rules.flatMap CssRule.properties).map Prod.fst

section Once

variable {selector : String} {tokens : List CssToken}

theorem features_eq_nil_of_nodup
    (single : ∀ t ∈ tokens, t.value.features ≠ [] → ∃ text, t.value.body = .single text)
    (nodup : (propertyNames (contextRules selector tokens)).Nodup) :
    ∀ t ∈ tokens, t.value.features = [] := by
  intro t ht
  by_contra ne
  obtain ⟨text, body⟩ := single t ht ne
  obtain ⟨f, hf⟩ := List.exists_mem_of_ne_nil _ ne
  have plain : Name.customProperty t.path ∈ (tokens.flatMap plainDeclarations).map Prod.fst := by
    refine List.mem_map.2 ⟨(Name.customProperty t.path, Name.renderReferences text), ?_, rfl⟩
    refine List.mem_flatMap.2 ⟨t, ht, ?_⟩
    unfold plainDeclarations
    rw [body]
    exact List.mem_singleton.2 rfl
  have query : (f.query, Name.customProperty t.path, Name.renderReferences f.text) ∈
      tokens.flatMap featureDeclarations :=
    List.mem_flatMap.2 ⟨t, ht, List.mem_map.2 ⟨f, hf, rfl⟩⟩
  obtain ⟨group, hg⟩ := mem_entries_groupByKey query
  have found := get?_groupByKey (tokens.flatMap featureDeclarations) f.query
  rw [(Table.get?_eq_some_iff (nodup_keys_groupByKey _)).2 hg] at found
  have here : (Name.customProperty t.path, Name.renderReferences f.text) ∈ group := by
    rw [show group = _ from found]
    exact List.mem_map.2 ⟨_, List.mem_filter.2 ⟨query, decide_eq_true rfl⟩, rfl⟩
  unfold propertyNames contextRules at nodup
  rw [List.flatMap_cons, List.map_append, List.nodup_append] at nodup
  have queried : (⟨selector, group, some f.query⟩ : CssRule) ∈
      (groupByKey (tokens.flatMap featureDeclarations)).entries.map fun e =>
        ⟨selector, e.2, some e.1⟩ := List.mem_map.2 ⟨_, hg, rfl⟩
  refine nodup.2.2 _ plain _ (List.mem_map_of_mem (a := (Name.customProperty t.path,
    Name.renderReferences f.text)) (List.mem_flatMap.2 ⟨_, queried, here⟩)) rfl

theorem contextRules_of_features (features : ∀ t ∈ tokens, t.value.features = []) :
    contextRules selector tokens = [⟨selector, tokens.flatMap plainDeclarations, none⟩] := by
  have plain : tokens.flatMap featureDeclarations = [] := by
    refine List.flatMap_eq_nil_iff.2 fun t ht => ?_
    unfold featureDeclarations
    rw [features t ht]
    rfl
  unfold contextRules
  rw [plain]
  rfl

/-- **Properties that are declared once** are all in one rule, without a query. -/
theorem rules_of_nodup
    (single : ∀ t ∈ tokens, t.value.features ≠ [] → ∃ text, t.value.body = .single text)
    (nodup : (propertyNames (contextRules selector tokens)).Nodup) :
    contextRules selector tokens =
        [⟨selector, (declaredFragments tokens).map fun d => (d.1, written d.2), none⟩] ∧
      ((declaredFragments tokens).map Prod.fst).Nodup ∧
      ∀ t ∈ tokens, t.value.features = [] := by
  have features := features_eq_nil_of_nodup single nodup
  have rules : contextRules selector tokens =
      [⟨selector, (declaredFragments tokens).map fun d => (d.1, written d.2), none⟩] := by
    rw [contextRules_of_features features, flatMap_plainDeclarations]
  refine ⟨rules, ?_, features⟩
  rw [rules] at nodup
  simpa [propertyNames, Function.comp_def] using nodup

theorem find?_declaredFragments (nodup : ((declaredFragments tokens).map Prod.fst).Nodup)
    {t : CssToken} (ht : t ∈ tokens) {d : String × List Fragment}
    (hd : d ∈ t.value.body.declarations t.path) :
    Table.find? d.1 (declaredFragments tokens) = some d.2 :=
  Table.find?_eq_some_of_mem nodup (List.mem_flatMap.2 ⟨t, ht, hd⟩)

end Once

end DesignTokens
