import DesignTokens.Proofs.Compile.Slots

/-!
# Generated files

What is declared does not depend on the files: separate stylesheets have the declarations of the single one,
each token with all of its own in one file.

* `mem_generate_iff`: the generated files, each with the rules of the contexts in order;
  `exists_entries_of_convertAll`: the base is the first context of compiled trees;
* **`generate_spec`**: what the files declare, in whichever files the tokens are.
-/

namespace DesignTokens

variable {modifiers : List Modifier} {output : OutputSettings} {converted : Contexts (List CssToken)}

theorem mem_generate_iff {f : CssFile} : f ∈ generate modifiers output converted ↔
    rulesOf modifiers output converted f.path ≠ [] ∧
      f.text = Sheet.text ⟨rulesOf modifiers output converted f.path⟩ := by
  unfold generate
  rw [List.mem_map]
  constructor
  · rintro ⟨⟨path, rules⟩, he, rfl⟩
    obtain ⟨full, same⟩ := mem_entries_sheets.1 he
    exact ⟨full, congrArg (Sheet.text ⟨·⟩) same⟩
  · rintro ⟨full, same⟩
    exact ⟨_, mem_entries_sheets.2 ⟨full, rfl⟩, congrArg (CssFile.mk f.path) same.symm⟩

theorem mem_generate_of_rulesOf {file : Path} {rules : List CssRule}
    (h : rulesOf modifiers output converted file = rules) (full : rules ≠ []) :
    ⟨file, Sheet.text ⟨rules⟩⟩ ∈ generate modifiers output converted := by
  subst h
  exact mem_generate_iff.2 ⟨full, rfl⟩

theorem nodup_paths_generate : ((generate modifiers output converted).map CssFile.path).Nodup := by
  have paths : (generate modifiers output converted).map CssFile.path =
      (sheets modifiers output converted).keys := by
    unfold generate
    rw [List.map_map]
    rfl
  exact paths ▸ nodup_keys_sheets

theorem exists_entries_of_convertAll {trees : List Tree} {transforms : Transforms}
    {diagnostics : List Diagnostic}
    (h : convertAll transforms diagnostics (resolveAll (flatten trees)) = .ok converted) :
    ∃ own overlays, converted.entries = (.base, own) :: overlays ∧ ∀ e ∈ overlays, e.1 ≠ .base := by
  have keys : converted.keys = contextsOf trees := by
    rw [keys_of_convertAll h, keys_resolveAll (keyed_flatten trees), keys_flatten]
  unfold Table.keys contextsOf at keys
  rw [List.eraseDups_cons] at keys
  obtain ⟨⟨c, own⟩, overlays, entries, rfl, rest⟩ := List.map_eq_cons_iff.1 keys
  refine ⟨own, overlays, entries, fun e he => ?_⟩
  have among : e.1 ∈ _ := rest ▸ List.mem_map_of_mem (f := Prod.fst) he
  simpa using (List.mem_filter.1 (List.mem_eraseDups.1 among)).2

/-- **What the files declare.** All files together, separate or not, declare what the tokens declare. No
file comes twice, and in each the rules of a context stand behind those of the contexts before it and in
front of those of the contexts after it; the base is before the overlays for compiled trees. A file
declares what the tokens declare whose file it is, so that a token is in one file with all that it
declares. In a rule of a context are the declarations behind its query, in the order of the tokens; no
two rules of the context in the file are behind one query. -/
theorem generate_spec (modifiers : List Modifier) (output : OutputSettings)
    (converted : Contexts (List CssToken)) :
    (∀ separate, ((generate modifiers { output with separate } converted).flatMap fun f =>
        (rulesOf modifiers { output with separate } converted f.path).flatMap CssRule.declarations).Perm
      (converted.entries.flatMap fun e =>
        e.2.flatMap (CssToken.declarations (selector modifiers output.themeAttribute e.1)))) ∧
    ((generate modifiers output converted).map CssFile.path).Nodup ∧
    (∀ f, f ∈ generate modifiers output converted ↔
      rulesOf modifiers output converted f.path ≠ [] ∧
        f.text = Sheet.text ⟨rulesOf modifiers output converted f.path⟩) ∧
    (∀ file, ((rulesOf modifiers output converted file).flatMap CssRule.declarations).Perm
      (converted.entries.flatMap fun e => (e.2.filter (targetFile output · = file)).flatMap
        (CssToken.declarations (selector modifiers output.themeAttribute e.1)))) ∧
    (∀ file before e after, converted.entries = before ++ e :: after →
      rulesOf modifiers output converted file = rulesOf modifiers output ⟨before⟩ file ++
        contextRulesOf modifiers output file e ++ rulesOf modifiers output ⟨after⟩ file) ∧
    (∀ file, ∀ e ∈ converted.entries,
      ((contextRulesOf modifiers output file e).map CssRule.query).Nodup ∧
      ∀ r ∈ contextRulesOf modifiers output file e,
        r.selector = selector modifiers output.themeAttribute e.1 ∧
        r.declarations = ((e.2.filter (targetFile output · = file)).flatMap
          (CssToken.declarations r.selector)).filter (·.query = r.query)) ∧
    ∀ trees transforms diagnostics,
      convertAll transforms diagnostics (resolveAll (flatten trees)) = .ok converted →
      ∃ own overlays, converted.entries = (.base, own) :: overlays ∧ ∀ e ∈ overlays, e.1 ≠ .base := by
  refine ⟨fun separate => ?_, nodup_paths_generate, fun f => mem_generate_iff,
    perm_declarations_rulesOf, fun _ _ _ _ => rulesOf_of_entries, fun file e _ => ?_,
    fun trees transforms diagnostics => exists_entries_of_convertAll⟩
  · refine .trans (.of_eq ?_) (perm_declarations modifiers { output with separate } converted)
    unfold generate
    rw [List.flatMap_map]
    exact List.flatMap_congr fun e he => by rw [(mem_entries_sheets.1 he).2]
  · unfold contextRulesOf
    dsimp only
    split
    · exact ⟨List.nodup_nil, fun r hr => nomatch hr⟩
    · refine ⟨nodup_queries_contextRules, fun r hr => ?_⟩
      obtain ⟨same, declarations⟩ := declarations_of_mem_contextRules hr
      exact ⟨same, same ▸ declarations⟩

end DesignTokens
