import DesignTokens.Proofs.Css.Rules
import Mathlib.Data.List.Perm.Basic
import Mathlib.Data.Option.Basic

/-!
# Declarations of files

Every file has the rules of the contexts one after another: for each context with tokens in the file, one
rule without a query, and one for each query of these tokens.

* `Declaration`, `CssRule.declarations`, `CssToken.declarations`: what a rule and what a token declare;
* `declarations_of_mem_contextRules`: a rule has what the tokens declare behind its query, in their order;
  `nodup_queries_contextRules`: the queries of the rules differ;
  `perm_declarations_contextRules`: all rules together;
* `get?_groupByKey_eq`: what is put together under a key, if there is something;
* `rulesOf`, `rulesOf_of_entries`: the rules of a file, one context after another; **`get?_sheets`**,
  `mem_entries_sheets`: these are what is written;
  `perm_declarations_rulesOf`, **`perm_declarations`**: what a file declares, and what all files do.
-/

namespace DesignTokens

/-! ## Declarations -/

/-- A value of a property for the elements of a selector, perhaps behind a feature query. -/
structure Declaration where
  selector : String
  query : Option String
  property : String
  value : String
  deriving DecidableEq, Repr

/-- The declarations of a rule. -/
def CssRule.declarations (r : CssRule) : List Declaration :=
  r.properties.map fun d => ⟨r.selector, r.query, d.1, d.2⟩

/-- What a token declares: its single value or the value of each sub-property, and each of its values behind
queries. -/
def CssToken.declarations (selector : String) (t : CssToken) : List Declaration :=
  let name := Name.customProperty t.path
  (match t.value.body with
    | .single text => [⟨selector, none, name, Name.renderReferences text⟩]
    | .entries parts => parts.map fun p =>
        ⟨selector, none, name ++ "-" ++ Name.kebab p.1, Name.renderReferences p.2⟩) ++
  t.value.features.map fun f => ⟨selector, some f.query, name, Name.renderReferences f.text⟩

theorem CssToken.declarations_eq (selector : String) (t : CssToken) : t.declarations selector =
    (plainDeclarations t).map (fun d => ⟨selector, none, d.1, d.2⟩) ++
      (featureDeclarations t).map fun d => ⟨selector, some d.1, d.2.1, d.2.2⟩ := by
  unfold CssToken.declarations plainDeclarations featureDeclarations
  rw [List.map_map]
  cases t.value.body with
  | single text => rfl
  | entries parts =>
    dsimp only
    rw [List.map_map]
    rfl

/-! ## Rules of some tokens -/

section Context

variable {selector : String} {tokens : List CssToken}

theorem filter_declarations_none (t : CssToken) :
    (t.declarations selector).filter (·.query = none) =
      (plainDeclarations t).map fun d => ⟨selector, none, d.1, d.2⟩ := by
  simp [CssToken.declarations_eq, List.filter_append, List.filter_map, Function.comp_def]

theorem filter_declarations_some (t : CssToken) (query : String) :
    (t.declarations selector).filter (·.query = some query) =
      ((featureDeclarations t).filter (·.1 = query)).map fun d =>
        ⟨selector, some query, d.2.1, d.2.2⟩ := by
  rw [CssToken.declarations_eq, List.filter_append, List.filter_map, List.filter_map,
    List.filter_eq_nil_iff.2 fun d _ => by simp, List.map_nil, List.nil_append]
  refine (List.map_congr_left fun d hd => ?_).trans (congrArg _ (List.filter_congr fun d _ => ?_))
  · have same : d.1 = query := by simpa using (List.mem_filter.1 hd).2
    rw [same]
  · simp

/-- **What a rule declares**: all that the tokens declare behind its query, in their order. -/
theorem declarations_of_mem_contextRules {r : CssRule} (h : r ∈ contextRules selector tokens) :
    r.selector = selector ∧
      r.declarations = (tokens.flatMap (CssToken.declarations selector)).filter (·.query = r.query) := by
  rw [List.filter_flatMap]
  rcases List.mem_cons.1 h with rfl | h
  · refine ⟨rfl, ?_⟩
    unfold CssRule.declarations
    rw [List.map_flatMap]
    exact List.flatMap_congr fun t _ => (filter_declarations_none t).symm
  · obtain ⟨⟨query, group⟩, hg, rfl⟩ := List.mem_map.1 h
    refine ⟨rfl, ?_⟩
    have found := get?_groupByKey (tokens.flatMap featureDeclarations) query
    rw [(Table.get?_eq_some_iff (nodup_keys_groupByKey _)).2 hg] at found
    obtain rfl : group = _ := found
    unfold CssRule.declarations
    dsimp only
    rw [List.map_map, List.filter_flatMap, List.map_flatMap]
    exact List.flatMap_congr fun t _ => (filter_declarations_some t query).symm

theorem queries_contextRules : (contextRules selector tokens).map CssRule.query =
    none :: (groupByKey (tokens.flatMap featureDeclarations)).keys.map some := by
  unfold contextRules Table.keys
  rw [List.map_cons, List.map_map, List.map_map]
  rfl

theorem nodup_queries_contextRules : ((contextRules selector tokens).map CssRule.query).Nodup := by
  rw [queries_contextRules, List.nodup_cons]
  refine ⟨?_, (nodup_keys_groupByKey _).map (Option.some_injective _)⟩
  rw [List.mem_map]
  rintro ⟨query, -, none⟩
  cases none

theorem perm_declarations_contextRules : ((contextRules selector tokens).flatMap CssRule.declarations).Perm
    (tokens.flatMap (CssToken.declarations selector)) := by
  have queried : ((groupByKey (tokens.flatMap featureDeclarations)).entries.flatMap fun e =>
        CssRule.declarations ⟨selector, e.2, some e.1⟩).Perm
      ((tokens.flatMap featureDeclarations).map fun d => ⟨selector, some d.1, d.2.1, d.2.2⟩) := by
    have perm := (perm_ungroup (tokens.flatMap featureDeclarations)).map fun d =>
      (⟨selector, some d.1, d.2.1, d.2.2⟩ : Declaration)
    rw [ungroup, List.map_flatMap] at perm
    simpa [CssRule.declarations, Function.comp_def] using perm
  unfold contextRules
  rw [List.flatMap_cons, List.flatMap_map, CssRule.declarations, List.map_flatMap]
  refine (queried.append_left _).trans ?_
  rw [List.map_flatMap]
  refine (List.flatMap_append_perm _ _ _).trans (.of_eq ?_)
  exact List.flatMap_congr fun t _ => (CssToken.declarations_eq selector t).symm

end Context

/-! ## Rules of a file -/

theorem get?_groupByKey_eq {κ α : Type} [DecidableEq κ] (l : List (κ × α)) (k : κ) :
    (groupByKey l).get? k =
      let group := (l.filter (·.1 = k)).map Prod.snd
      if group.isEmpty then none else some group := by
  have found := get?_groupByKey l k
  dsimp only
  rw [← found]
  cases h : (groupByKey l).get? k with
  | none => rfl
  | some group =>
    have key : k ∈ l.map Prod.fst := mem_keys_groupByKey.1 (Table.mem_keys_of_get?_eq_some h)
    rw [h] at found
    obtain ⟨e, he, rfl⟩ := List.mem_map.1 key
    have here : e.2 ∈ group := by
      rw [show group = _ from found]
      exact List.mem_map_of_mem (List.mem_filter.2 ⟨he, decide_eq_true rfl⟩)
    rw [Option.getD_some, if_neg fun empty => by simp [List.isEmpty_iff.1 empty] at here]

section File

variable {modifiers : List Modifier} {output : OutputSettings} {converted : Contexts (List CssToken)}

/-- The rules of a context in a file: those of its tokens whose file it is, if there are such. -/
def contextRulesOf (modifiers : List Modifier) (output : OutputSettings) (file : Path)
    (e : Context × List CssToken) : List CssRule :=
  let own := e.2.filter (targetFile output · = file)
  if own.isEmpty then [] else contextRules (selector modifiers output.themeAttribute e.1) own

/-- The rules of a file: those of one context after another. -/
def rulesOf (modifiers : List Modifier) (output : OutputSettings) (converted : Contexts (List CssToken))
    (file : Path) : List CssRule :=
  converted.entries.flatMap (contextRulesOf modifiers output file)

theorem rulesOf_of_entries {file : Path} {before after : List (Context × List CssToken)}
    {e : Context × List CssToken} (split : converted.entries = before ++ e :: after) :
    rulesOf modifiers output converted file = rulesOf modifiers output ⟨before⟩ file ++
      contextRulesOf modifiers output file e ++ rulesOf modifiers output ⟨after⟩ file := by
  unfold rulesOf
  rw [split, List.flatMap_append, List.flatMap_cons, List.append_assoc]

theorem filter_fileRules (c : Context) (tokens : List CssToken) (file : Path) :
    ((fileRules modifiers output c tokens).filter (·.1 = file)).map Prod.snd =
      contextRulesOf modifiers output file (c, tokens) := by
  have own : ((tokens.map fun t => (targetFile output t, t)).filter (·.1 = file)).map Prod.snd =
      tokens.filter (targetFile output · = file) := by
    rw [List.filter_map, List.map_map]
    exact List.map_id _
  unfold fileRules contextRulesOf
  dsimp only
  rw [Table.filter_flatMap_entries (nodup_keys_groupByKey _) fun e _ r hr => by
    obtain ⟨_, -, rfl⟩ := List.mem_map.1 hr
    rfl, get?_groupByKey_eq, own]
  dsimp only
  split
  · rfl
  · rw [Option.map_some, Option.getD_some, List.map_map]
    exact List.map_id _

/-- **The rules of a file.** -/
theorem get?_sheets (file : Path) : (sheets modifiers output converted).get? file =
    let rules := rulesOf modifiers output converted file
    if rules.isEmpty then none else some rules := by
  have rules : ((converted.entries.flatMap fun e => fileRules modifiers output e.1 e.2).filter
      (·.1 = file)).map Prod.snd = rulesOf modifiers output converted file := by
    rw [List.filter_flatMap, List.map_flatMap]
    exact List.flatMap_congr fun e _ => filter_fileRules e.1 e.2 file
  rw [← rules]
  exact get?_groupByKey_eq _ file

theorem nodup_keys_sheets : (sheets modifiers output converted).keys.Nodup :=
  nodup_keys_groupByKey _

theorem mem_entries_sheets {file : Path} {rules : List CssRule} :
    (file, rules) ∈ (sheets modifiers output converted).entries ↔
      rulesOf modifiers output converted file ≠ [] ∧ rules = rulesOf modifiers output converted file := by
  rw [← Table.get?_eq_some_iff nodup_keys_sheets, get?_sheets]
  dsimp only
  split
  · rename_i empty
    simp [List.isEmpty_iff.1 empty]
  · rename_i full
    rw [List.isEmpty_iff] at full
    simp [full, eq_comm]

/-- **What a file declares**: what the tokens declare whose file it is. -/
theorem perm_declarations_rulesOf (file : Path) :
    ((rulesOf modifiers output converted file).flatMap CssRule.declarations).Perm
      (converted.entries.flatMap fun e => (e.2.filter (targetFile output · = file)).flatMap
        (CssToken.declarations (selector modifiers output.themeAttribute e.1))) := by
  unfold rulesOf
  rw [List.flatMap_assoc]
  refine List.Perm.flatMap_left _ fun e _ => ?_
  unfold contextRulesOf
  dsimp only
  split
  · rename_i empty
    rw [List.isEmpty_iff.1 empty]
    exact .refl _
  · exact perm_declarations_contextRules

theorem perm_declarations_fileRules (c : Context) (tokens : List CssToken) :
    (((fileRules modifiers output c tokens).map Prod.snd).flatMap CssRule.declarations).Perm
      (tokens.flatMap (CssToken.declarations (selector modifiers output.themeAttribute c))) := by
  rw [map_snd_fileRules, List.flatMap_assoc]
  refine (List.Perm.flatMap_left _ fun g _ => perm_declarations_contextRules).trans ?_
  rw [← List.flatMap_assoc]
  exact (perm_files output tokens).flatMap_right _

/-- **What all files declare**: what the tokens of all contexts declare. -/
theorem perm_declarations (modifiers : List Modifier) (output : OutputSettings)
    (converted : Contexts (List CssToken)) :
    ((sheets modifiers output converted).entries.flatMap fun e => e.2.flatMap CssRule.declarations).Perm
      (converted.entries.flatMap fun e =>
        e.2.flatMap (CssToken.declarations (selector modifiers output.themeAttribute e.1))) := by
  have all := (perm_groupByKey (converted.entries.flatMap fun e =>
    fileRules modifiers output e.1 e.2)).flatMap_right CssRule.declarations
  rw [List.flatMap_assoc, List.map_flatMap, List.flatMap_assoc] at all
  exact all.trans (List.Perm.flatMap_left _ fun e _ => perm_declarations_fileRules e.1 e.2)

end File

end DesignTokens
