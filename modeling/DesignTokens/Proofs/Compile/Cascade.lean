import DesignTokens.Proofs.Compile.Files
import DesignTokens.Proofs.Css.Cascade
import DesignTokens.Proofs.Css.Fragments

/-!
# Overlays over the base

On an element to which the selectors of the base and of one overlay apply, the overlay overrides the
base: in the only file its rules are behind those of the base, those behind feature queries included.

* `exists_convertToken?_of_mem`: where a converted token comes from; `namedApart_of_convertAll`: the
  tokens of a context that declares each name once; `mem_generate_single_iff`: the only file;
* `inEffect_overlay`: what the overlay does not declare comes from the base;
* **`inEffect_rulesOf`**: the values of the tokens on such an element.
-/

namespace DesignTokens

variable {trees : List Tree} {transforms : Transforms} {diagnostics : List Diagnostic}
  {modifiers : List Modifier} {output : OutputSettings} {converted : Contexts (List CssToken)}

theorem exists_convertToken?_of_mem
    (conv : convertAll transforms diagnostics (resolveAll (flatten trees)) = .ok converted) {c : Context}
    {list : List CssToken} (hl : converted.get? c = some list) {t : CssToken} (ht : t ∈ list) :
    ∃ rt errors paths, tokenIn? trees c t.path = some rt ∧
      convertToken? transforms errors paths rt = .ok (some t) := by
  rcases convertAll_eq_ok conv c with ⟨-, none⟩ | ⟨tokens, list', found, hl', conv⟩
  · cases none.symm.trans hl
  obtain rfl : list' = list := Option.some.inj (hl'.symm.trans hl)
  obtain ⟨rt, hrt, conv⟩ := ((filterMapM_eq_ok conv).2 t).1 ht
  exact ⟨rt, _, _, (convertToken?_eq_some conv).1 ▸ (mem_values_iff_tokenIn? found).1 hrt, conv⟩

theorem namedApart_of_convertAll
    (conv : convertAll transforms diagnostics (resolveAll (flatten trees)) = .ok converted) {c : Context}
    {list : List CssToken} (hl : converted.get? c = some list)
    (names : ((list.flatMap plainDeclarations).map Prod.fst).Nodup) : NamedApart list := by
  refine ⟨names, fun t ht f hf => ?_, fun t ht ne => ?_⟩
  · obtain ⟨_, _, _, -, value⟩ := exists_convertToken?_of_mem conv hl ht
    obtain ⟨-, -, value, -⟩ := convertToken?_eq_some_iff.1 value
    rcases forms_of_convert? value with ⟨text, features, same, one, -⟩ | ⟨-, parts, same⟩
    · rw [same] at hf ⊢
      match features, one, hf with
      | [g], _, hf => rw [List.mem_singleton.1 hf]
    · rw [same] at hf
      cases hf
  · obtain ⟨_, _, _, -, value⟩ := exists_convertToken?_of_mem conv hl ht
    exact single_of_features (convertToken?_eq_some_iff.1 value).2.2.1 ne

theorem mem_generate_single_iff (single : output.separate = false) {f : CssFile} :
    f ∈ generate modifiers output converted ↔
      rulesOf modifiers output converted output.variablesFile ≠ [] ∧
        f = ⟨output.variablesFile,
          Sheet.text ⟨rulesOf modifiers output converted output.variablesFile⟩⟩ := by
  have only : ∀ file, rulesOf modifiers output converted file ≠ [] → file = output.variablesFile := by
    intro file some
    obtain ⟨r, hr⟩ := List.exists_mem_of_ne_nil _ some
    obtain ⟨e, -, hr⟩ := List.mem_flatMap.1 hr
    by_contra ne
    have none : e.2.filter (targetFile output · = file) = [] :=
      List.filter_eq_nil_iff.2 fun t _ => by simpa [targetFile, single] using Ne.symm ne
    simp [contextRulesOf, none] at hr
  obtain ⟨path, text⟩ := f
  rw [mem_generate_iff, CssFile.mk.injEq]
  dsimp only
  constructor
  · rintro ⟨some, rfl⟩
    obtain rfl := only path some
    exact ⟨some, rfl, rfl⟩
  · rintro ⟨some, rfl, rfl⟩
    exact ⟨some, rfl⟩

/-- **What the overlay does not declare comes from the base.** -/
theorem inEffect_overlay
    (conv : convertAll transforms diagnostics (resolveAll (flatten trees)) = .ok converted)
    (single : output.separate = false)
    (selectors : ∀ k ∈ converted.keys, ∀ k' ∈ converted.keys,
      selector modifiers output.themeAttribute k = selector modifiers output.themeAttribute k' → k = k')
    {c : Context} {base own : List CssToken} (hb : converted.get? .base = some base)
    (hc : converted.get? c = some own) (overlay : c ≠ .base) (supported : String → Bool)
    (property : String) :
    inEffect supported (rulesOn [":root", selector modifiers output.themeAttribute c]
        (rulesOf modifiers output converted output.variablesFile)) property =
      (inEffect supported (contextRules (selector modifiers output.themeAttribute c) own) property).or
        (inEffect supported (contextRules ":root" base) property) := by
  have nodup := nodup_keys_of_convertAll conv
  obtain ⟨base', overlays, entries, -⟩ := exists_entries_of_convertAll conv
  have here := (Table.get?_eq_some_iff nodup).1 hc
  have first := (Table.get?_eq_some_iff nodup).2 (entries ▸ List.mem_cons_self : (_, base') ∈ _)
  obtain rfl : base' = base := Option.some.inj (first.symm.trans hb)
  rw [entries] at here
  rcases List.mem_cons.1 here with same | here
  · exact absurd (congrArg Prod.fst same) overlay
  · rw [rulesOn_rulesOf entries here nodup selectors, inEffect_append,
      inEffect_contextRulesOf single, inEffect_contextRulesOf single]
    rfl

/-- **The values on an element of the base and of one overlay.** The single values of the tokens of the
overlay hold, those behind a query that holds before the plain ones. Where the overlay declares no
property of that name, so do those of the base. What the overlay declares holds if it has no value for
it behind a query that holds: no rule of the base overrides it. -/
theorem inEffect_rulesOf
    (conv : convertAll transforms diagnostics (resolveAll (flatten trees)) = .ok converted)
    (single : output.separate = false)
    (selectors : ∀ k ∈ converted.keys, ∀ k' ∈ converted.keys,
      selector modifiers output.themeAttribute k = selector modifiers output.themeAttribute k' → k = k')
    (names : ∀ e ∈ converted.entries, ((e.2.flatMap plainDeclarations).map Prod.fst).Nodup)
    {c : Context} {base own : List CssToken} (hb : converted.get? .base = some base)
    (hc : converted.get? c = some own) (overlay : c ≠ .base) (supported : String → Bool) :
    let rules := rulesOf modifiers output converted output.variablesFile
    let value := inEffect supported (rulesOn [":root", selector modifiers output.themeAttribute c] rules)
    (∀ f, f ∈ generate modifiers output converted ↔
      rules ≠ [] ∧ f = ⟨output.variablesFile, Sheet.text ⟨rules⟩⟩) ∧
    (∀ t ∈ own, ∀ text, t.value.body = .single text →
      value (Name.customProperty t.path) = some (t.shown supported text)) ∧
    (∀ t ∈ base, ∀ text, t.value.body = .single text →
      Name.customProperty t.path ∉ (own.flatMap plainDeclarations).map Prod.fst →
      value (Name.customProperty t.path) = some (t.shown supported text)) ∧
    ∀ d ∈ own.flatMap plainDeclarations,
      (∀ t ∈ own, Name.customProperty t.path = d.1 →
        ∀ f ∈ t.value.features, supported f.query = false) →
      value d.1 = some d.2 := by
  have layers := inEffect_overlay conv single selectors hb hc overlay supported
  have ofBase := namedApart_of_convertAll conv hb (names _ (Table.mem_of_find?_eq_some hb))
  have ofOwn := namedApart_of_convertAll conv hc (names _ (Table.mem_of_find?_eq_some hc))
  refine ⟨fun f => mem_generate_single_iff single, fun t ht text body => ?_,
    fun t ht text body absent => ?_, fun d hd none => ?_⟩
  · rw [layers, inEffect_contextRules ofOwn ht body, Option.some_or]
  · rw [layers, inEffect_of_notMem ofOwn absent, Option.none_or, inEffect_contextRules ofBase ht body]
  · rw [layers, inEffect_plain ofOwn hd none, Option.some_or]

/-! ## A glow at night -/

/-- A color that not every browser knows, and its stand-in. -/
def glowColor : Json :=
  .obj [("colorSpace", .str "oklch"), ("components", .arr (List.replicate 3 (.num (.integer 0)))),
    ("hex", .str "#111")]

/-- Two such colors, and a plain one at night. -/
def glowTrees (name : String) : List Tree :=
  [⟨.base, ⟨.empty, [("glow", .token ⟨glowColor, some .color, none, none, none⟩),
      ("halo", .token ⟨glowColor, some .color, none, none, none⟩)]⟩, ⟨"base.json"⟩⟩,
    ⟨nightContext, ⟨.empty, [(name, .token ⟨.str "#000", some .color, none, none, none⟩)]⟩,
      ⟨"night.json"⟩⟩]

/-- The name of a color of the base, and another one that becomes the same property. -/
def glowNames : List String := ["glow", "Glow"]

/-- The color behind the query. -/
def glowText : String :=
  let zero := formatNumber (Number.integer 0).toFloat
  let alpha := ""
  s!"oklch({zero} {zero} {zero}{alpha})"

/-- A converted color of the base. -/
def glowCss (path : String) : CssToken :=
  ⟨path, .color, ⟨⟨"base.json"⟩, .base⟩,
    ⟨.single "#111", [⟨"@supports (color: oklch(0 0 0))", glowText⟩]⟩⟩

/-- The converted colors. -/
def glowTokens (name : String) : Contexts (List CssToken) :=
  ⟨[(.base, [glowCss "glow", glowCss "halo"]),
    (nightContext, [inkCss nightContext "night.json" name "#000"])]⟩

/-- A hexadecimal color in place of what not every browser knows. -/
def polyfill : Transforms := { Transforms.standard with colorFallback := .polyfill }

theorem convertAll_glowTrees : ∀ name ∈ glowNames,
    convertAll polyfill [] (resolveAll (flatten (glowTrees name))) = .ok (glowTokens name) := by
  have plain : ∀ name ∈ glowNames, ∀ f ∈ (flatten (glowTrees name)).values, ∀ t ∈ f.tokens.values,
      t.value.references = [] := by
    decide
  intro name hname
  rw [resolveAll_of_no_references (keyed_flatten _) fun c t ht => by
    obtain ⟨f, hf, ht⟩ := mem_declared_iff.1 ht
    exact plain name hname f (Table.mem_values_of_get?_eq_some hf) t ht]
  simp only [glowNames, List.mem_cons, List.not_mem_nil, or_false] at hname
  rcases hname with rfl | rfl
  · rfl
  · rfl

theorem selectors_glowTokens (name : String) : ∀ k ∈ (glowTokens name).keys,
    ∀ k' ∈ (glowTokens name).keys,
      selector [] OutputSettings.standard.themeAttribute k =
        selector [] OutputSettings.standard.themeAttribute k' → k = k' :=
  show ∀ k ∈ [Context.base, nightContext], ∀ k' ∈ [Context.base, nightContext],
    selector [] "data-theme" k = selector [] "data-theme" k' → k = k' by decide

theorem names_glowTokens : ∀ name ∈ glowNames, ∀ e ∈ (glowTokens name).entries,
    ((e.2.flatMap plainDeclarations).map Prod.fst).Nodup := by
  have base : (([glowCss "glow", glowCss "halo"].flatMap plainDeclarations).map Prod.fst).Nodup := by
    decide
  intro name _ e he
  rcases List.mem_cons.1 he with rfl | he
  · exact base
  · rw [List.mem_singleton.1 he]
    exact List.nodup_singleton _

/-- The plain color of the night holds for the glow also where its query does, and the halo has the
color behind the query then. -/
theorem inEffect_glowTrees :
    (convertAll polyfill [] (resolveAll (flatten (glowTrees "glow"))) = .ok (glowTokens "glow") ∧
      (∀ k ∈ (glowTokens "glow").keys, ∀ k' ∈ (glowTokens "glow").keys,
        selector [] OutputSettings.standard.themeAttribute k =
          selector [] OutputSettings.standard.themeAttribute k' → k = k') ∧
      ∀ e ∈ (glowTokens "glow").entries, ((e.2.flatMap plainDeclarations).map Prod.fst).Nodup) ∧
    let value := inEffect (fun _ => true) (rulesOn [":root", "[data-theme=\"night\"]"]
      (rulesOf [] OutputSettings.standard (glowTokens "glow") OutputSettings.standard.variablesFile))
    value "--glow" = some "#000" ∧ value "--halo" = some (Name.renderReferences glowText) := by
  have conv := convertAll_glowTrees "glow" (by decide)
  have names := names_glowTokens "glow" (by decide)
  refine ⟨⟨conv, selectors_glowTokens "glow", names⟩, ?_⟩
  obtain ⟨-, ofOwn, ofBase, -⟩ := inEffect_rulesOf conv
    (show OutputSettings.standard.separate = false from rfl) (selectors_glowTokens "glow") names
    (c := nightContext) rfl rfl (by decide) fun _ => true
  have night : (inkCss nightContext "night.json" "glow" "#000").shown (fun _ => true) "#000" = "#000" :=
    renderReferences_of_braceFree (by decide)
  have glow : Name.customProperty "glow" = "--glow" := rfl
  have halo : Name.customProperty "halo" = "--halo" := rfl
  have own := ofOwn (inkCss nightContext "night.json" "glow" "#000") (List.mem_singleton_self _) "#000" rfl
  have base := ofBase (glowCss "halo") (by simp) "#111" rfl (by decide)
  exact ⟨by rw [← glow, ← night]; exact own, by rw [← halo]; exact base⟩

/-- A color of another name that becomes the same property stands in for the glow, which is not converted at
night. -/
theorem overridden_glowTrees :
    ¬ ∀ (trees : List Tree) (transforms : Transforms) (diagnostics : List Diagnostic)
      (modifiers : List Modifier) (output : OutputSettings) (converted : Contexts (List CssToken))
      (c : Context) (base own : List CssToken) (supported : String → Bool),
      convertAll transforms diagnostics (resolveAll (flatten trees)) = .ok converted →
      output.separate = false →
      (∀ k ∈ converted.keys, ∀ k' ∈ converted.keys,
        selector modifiers output.themeAttribute k = selector modifiers output.themeAttribute k' → k = k') →
      (∀ e ∈ converted.entries, ((e.2.flatMap plainDeclarations).map Prod.fst).Nodup) →
      converted.get? .base = some base → converted.get? c = some own → c ≠ .base →
      ∀ t ∈ base, ∀ text, t.value.body = .single text → t.path ∉ own.map CssToken.path →
        inEffect supported (rulesOn [":root", selector modifiers output.themeAttribute c]
          (rulesOf modifiers output converted output.variablesFile)) (Name.customProperty t.path) =
            some (t.shown supported text) := by
  intro claim
  have conv := convertAll_glowTrees "Glow" (by decide)
  have names := names_glowTokens "Glow" (by decide)
  have base := claim _ _ _ [] .standard _ nightContext _ _ (fun _ => false) conv rfl
    (selectors_glowTokens "Glow") names rfl rfl (by decide) (glowCss "glow") (by simp) "#111" rfl (by decide)
  have glow : Name.customProperty "glow" = "--glow" := rfl
  have plain : (glowCss "glow").shown (fun _ => false) "#111" = "#111" :=
    renderReferences_of_braceFree (by decide)
  have ofOwn : NamedApart [inkCss nightContext "night.json" "Glow" "#000"] :=
    namedApart_of_convertAll conv (c := nightContext) rfl (names (nightContext, _) (by simp [glowTokens]))
  have night : inEffect (fun _ => false)
      (contextRules (selector [] OutputSettings.standard.themeAttribute nightContext)
        [inkCss nightContext "night.json" "Glow" "#000"]) "--glow" = some "#000" :=
    (inEffect_contextRules ofOwn (List.mem_singleton_self _) rfl).trans
      (congrArg some (renderReferences_of_braceFree (by decide)))
  rw [inEffect_overlay conv rfl (selectors_glowTokens "Glow") (c := nightContext) rfl rfl (by decide),
    show (glowCss "glow").path = "glow" from rfl, glow, plain, night, Option.some_or] at base
  exact absurd base (by decide)

end DesignTokens
