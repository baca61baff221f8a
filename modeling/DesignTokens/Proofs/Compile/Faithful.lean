import DesignTokens.Proofs.Css.Evaluation

/-!
# References in compiled stylesheets

Trees of the base alone are compiled to one rule, if no property is declared twice. A reference that is
kept there as the use of a custom property is right where converters carry it through, and these are
all places but two: the number of an amount, and the families in a list.

* `contextsOf_base`, `convertAll_base`: what is resolved and converted of the base;
* `writtenOnce_of_compile`: the rule of a compilation;
* **`compile_faithful`**: a token of a compiled stylesheet comes to what would be written for its
  resolved value exactly if it is spelled out;
* `fontTree`: families of which one is a reference in a list.
-/

namespace DesignTokens

open Relation

/-! ## The base -/

theorem contextsOf_base {trees : List Tree} (base : ∀ t ∈ trees, t.context = .base) :
    contextsOf trees = [.base] := by
  have none : ((trees.map Tree.context).filter fun c => !c == .base) = [] := by
    refine List.filter_eq_nil_iff.2 fun c hc => ?_
    obtain ⟨t, ht, rfl⟩ := List.mem_map.1 hc
    rw [base t ht]
    decide
  unfold contextsOf
  rw [List.eraseDups_cons, none]
  rfl

theorem entries_resolveAll_base {trees : List Tree} (base : ∀ t ∈ trees, t.context = .base) :
    ∃ tokens, (resolveAll (flatten trees)).contexts.entries = [(.base, tokens)] := by
  have keys := keys_resolveAll (keyed_flatten trees)
  rw [keys_flatten, contextsOf_base base] at keys
  obtain ⟨⟨c, tokens⟩, entries, rfl⟩ := List.map_eq_singleton_iff.1 keys
  exact ⟨tokens, entries⟩

theorem convertAll_base {transforms : Transforms} {diagnostics : List Diagnostic} {r : Resolution}
    {tokens : Table String ResolvedToken} (entries : r.contexts.entries = [(.base, tokens)])
    {converted : Contexts (List CssToken)} (h : convertAll transforms diagnostics r = .ok converted) :
    ∃ list, converted.entries = [(.base, list)] := by
  unfold convertAll at h
  rw [entries] at h
  obtain ⟨converted, each, same⟩ := bind_eq_ok.1 h
  cases same
  obtain ⟨_, _, he, hrest, rfl⟩ := List.forall₂_cons_left_iff.1 (mapM_eq_ok.1 each)
  obtain rfl := List.forall₂_nil_left_iff.1 hrest
  obtain ⟨list, -, same⟩ := bind_eq_ok.1 he
  cases same
  exact ⟨list, rfl⟩

theorem writtenOnce_of_converted {trees : List Tree} {transforms : Transforms}
    {list : List CssToken} (conv : Converted transforms trees .base list)
    (features : ∀ ct ∈ list, ct.value.features = [])
    (nodup : ((declaredFragments list).map Prod.fst).Nodup) : WrittenOnce transforms trees list := by
  obtain ⟨mem, declared⟩ := conv
  rw [← basePaths_eq_pathsOf] at mem declared
  exact ⟨mem, declared, features, nodup⟩

/-- **The rule of a compilation** of the base to one file in which no property is declared twice. -/
theorem writtenOnce_of_compile {trees : List Tree} {modifiers : List Modifier} {settings : Settings}
    {out : Compiled} (base : ∀ t ∈ trees, t.context = .base)
    (h : compile trees modifiers settings = .ok out) {file : Path} {rules : List CssRule}
    (one : (sheets modifiers settings.output out.tokens).entries = [(file, rules)])
    (distinct : (propertyNames rules).Nodup) :
    ∃ list, out.tokens.entries = [(.base, list)] ∧
      WrittenOnce settings.transforms trees list ∧
      rules = [⟨selector modifiers settings.output.themeAttribute .base,
        (declaredFragments list).map fun d => (d.1, written d.2), none⟩] := by
  obtain ⟨-, converted, -⟩ := compile_eq_ok h
  obtain ⟨tokens, entries⟩ := entries_resolveAll_base base
  obtain ⟨list, hlist⟩ := convertAll_base entries converted
  have conv : Converted settings.transforms trees .base list := by
    refine converted_of_compile h ?_
    unfold Table.get?
    rw [hlist]
    rfl
  have single : ∀ ct ∈ list, ct.value.features ≠ [] → ∃ text, ct.value.body = .single text := by
    intro ct hct
    obtain ⟨rt, -, hct⟩ := (conv.mem ct).1 hct
    exact single_of_features (convertToken?_eq_some_iff.1 hct).2.2.1
  rw [show out.tokens = ⟨[(.base, list)]⟩ from congrArg Table.mk hlist] at one
  have rules' := (sheets_eq_one_iff.1 one).2.2
  rw [rules'] at distinct ⊢
  obtain ⟨rule, nodup, features⟩ := rules_of_nodup single distinct
  exact ⟨list, hlist, writtenOnce_of_converted conv features nodup, rule⟩

/-- **References in compiled stylesheets.** In trees of the base alone, whose strings have no braces but
those of references, compiled to one file in which no property is declared twice: a token without
references comes to what would be written for its resolved value, and one with references, of another
type than a gradient, does so exactly if it is spelled out, as long as it has the shape of its type and
all that it keeps references to is well spelled. So all tokens do so exactly if all are spelled out. -/
theorem compile_faithful {trees : List Tree} (parsed : ∀ t ∈ trees, t.Parsed)
    (base : ∀ t ∈ trees, t.context = .base)
    (exact : ∀ t ∈ trees, ∀ path token, t.token? path = some token → token.value.Exact)
    {modifiers : List Modifier} {settings : Settings} {out : Compiled}
    (h : compile trees modifiers settings = .ok out) {file : Path} {rules : List CssRule}
    (one : (sheets modifiers settings.output out.tokens).entries = [(file, rules)])
    (distinct : (propertyNames rules).Nodup) :
    ∃ list, out.tokens.entries = [(.base, list)] ∧ out.files = [⟨file, Sheet.text ⟨rules⟩⟩] ∧
      rules = [⟨selector modifiers settings.output.themeAttribute .base,
        (declaredFragments list).map fun d => (d.1, written d.2), none⟩] ∧
      (∀ ct ∈ list, ct.type ≠ .gradient → ∃ rt, baseToken? trees ct.path = some rt ∧
        ((writtenValue trees rt).references = [] →
          Faithful settings.transforms trees list rt ct) ∧
        ((∀ u, TransGen (Keeps trees) rt u → WellSpelled trees u) → Shaped ct.type rt.value →
          (SpelledOut ct.type (writtenValue trees rt) →
            Faithful settings.transforms trees list rt ct) ∧
          ((writtenValue trees rt).Quotable → Faithful settings.transforms trees list rt ct →
            SpelledOut ct.type (writtenValue trees rt)))) ∧
      ((∀ ct ∈ list, ∀ rt, baseToken? trees ct.path = some rt →
          Shaped ct.type rt.value ∧ (writtenValue trees rt).Quotable) →
        ((∀ ct ∈ list, ct.type ≠ .gradient → ∀ rt, baseToken? trees ct.path = some rt →
            Faithful settings.transforms trees list rt ct) ↔
          ∀ ct ∈ list, ∀ rt, baseToken? trees ct.path = some rt →
            SpelledOut ct.type (writtenValue trees rt))) := by
  obtain ⟨list, entries, once, rule⟩ := writtenOnce_of_compile base h one distinct
  obtain ⟨-, -, files, -⟩ := compile_eq_ok h
  refine ⟨list, entries, ?_, rule, fun ct hct ne => ?_, once.all_faithful_iff parsed exact⟩
  · unfold generate at files
    rw [files, one]
    rfl
  · obtain ⟨rt, h, faithful⟩ := once.faithful parsed exact hct ne
    exact ⟨rt, h, once.faithful_of_references_eq_nil hct h, faithful⟩

/-! ## Font families in a list -/

/-- A font family, a token that is nothing but a reference to it, and a list of families with a
reference to it. -/
def fontTree : Tree where
  context := .base
  tokens := ⟨.empty, [
    ("sans", .token ⟨.str "Inter", some .fontFamily, none, none, some ⟨"fonts.json"⟩⟩),
    ("body", .token ⟨.str "\x7bsans\x7d", some .fontFamily, none, none, some ⟨"fonts.json"⟩⟩),
    ("stack", .token ⟨.arr [.str "\x7bsans\x7d", .str "serif"], some .fontFamily, none, none,
      some ⟨"fonts.json"⟩⟩)]⟩
  file := ⟨"fonts.json"⟩

/-- The document of these families. -/
def fontDocument : Json := .obj [
  ("sans", .obj [("$type", .str "fontFamily"), ("$value", .str "Inter")]),
  ("body", .obj [("$type", .str "fontFamily"), ("$value", .str "\x7bsans\x7d")]),
  ("stack", .obj [("$type", .str "fontFamily"),
    ("$value", .arr [.str "\x7bsans\x7d", .str "serif"])])]

theorem parsed_fontTree : fontTree.Parsed := by
  refine ⟨⟨"fonts.json"⟩, fontDocument, ?_, rfl⟩
  simp [fontDocument, Json.Distinct, Json.MembersDistinct, Json.ItemsDistinct]

/-- A merged family. -/
def fontToken (path : String) (value : Json) : FlatToken :=
  ⟨path, [path], value, some .fontFamily, none, none, ⟨⟨"fonts.json"⟩, .base⟩⟩

/-- The values of these tokens, as written and as resolved. -/
def fontValues : List (String × Json × Json) := [
  ("sans", .str "Inter", .str "Inter"),
  ("body", .str "\x7bsans\x7d", .str "Inter"),
  ("stack", .arr [.str "\x7bsans\x7d", .str "serif"], .arr [.str "Inter", .str "serif"])]

theorem resolveAll_fontTree : resolveAll (flatten [fontTree]) =
    ⟨⟨[(.base, ⟨fontValues.map fun (path, value, resolved) =>
      (path, ⟨fontToken path value, resolved⟩)⟩)]⟩, []⟩ :=
  resolveAll_of_within 2 rfl

/-- These tokens as they are converted. -/
def fontList : List CssToken := fontValues.map fun (path, value, _) =>
  ⟨path, .fontFamily, ⟨⟨"fonts.json"⟩, .base⟩, .single (familyText value)⟩

theorem diagnose_fontTree : diagnose (flatten [fontTree]) (resolveAll (flatten [fontTree])) = [] := by
  rw [resolveAll_fontTree]
  decide

theorem convertAll_fontTree : convertAll .standard [] (resolveAll (flatten [fontTree])) =
    .ok ⟨[(.base, fontList)]⟩ := by
  rw [resolveAll_fontTree]
  rfl

theorem compile_fontTree : ∃ out, compile [fontTree] [] .standard = .ok out ∧
    out.tokens = ⟨[(.base, fontList)]⟩ ∧ ∃ file rules,
      (sheets [] Settings.standard.output out.tokens).entries = [(file, rules)] ∧
        (propertyNames rules).Nodup := by
  refine ⟨⟨generate [] Settings.standard.output ⟨[(.base, fontList)]⟩, [], [], ⟨[(.base, fontList)]⟩⟩,
    ?_, rfl, _, _, sheets_eq_one_iff.2 ⟨by decide, fun _ _ => rfl, rfl⟩, by decide +kernel⟩
  exact compile_of_convertAll (by decide) diagnose_fontTree convertAll_fontTree

theorem exact_fontTree : ∀ t ∈ [fontTree], ∀ path token, t.token? path = some token →
    token.value.Exact := by
  intro t ht
  obtain rfl := List.mem_singleton.1 ht
  exact exact_of_entries parsed_fontTree (by decide)

theorem basePaths_fontTree : basePaths [fontTree] = ["sans", "body", "stack"] := by
  unfold basePaths baseErrors
  rw [diagnose_fontTree, resolveAll_fontTree]
  rfl

/-- A resolved family. -/
def fontResolved (e : String × Json × Json) : ResolvedToken := ⟨fontToken e.1 e.2.1, e.2.2⟩

theorem baseToken?_fontTree : ∀ e ∈ fontValues,
    baseToken? [fontTree] e.1 = some (fontResolved e) := by
  unfold baseToken?
  rw [resolveAll_fontTree]
  intro e he
  simp only [fontValues, List.mem_cons, List.not_mem_nil, or_false] at he
  rcases he with rfl | rfl | rfl <;> rfl

theorem wellSpelled_fontTree {e : String × Json × Json} (he : e ∈ fontValues) {u : ResolvedToken}
    (reaches : TransGen (Keeps [fontTree]) (fontResolved e) u) : WellSpelled [fontTree] u := by
  have keeps : ∀ e ∈ fontValues, ∀ r ∈ (writtenValue [fontTree] (fontResolved e)).references,
      r = ⟨"sans"⟩ ∧ e.1 ≠ "sans" := by
    unfold writtenValue
    rw [basePaths_fontTree]
    decide
  have sans := baseToken?_fontTree ("sans", .str "Inter", .str "Inter") List.mem_cons_self
  have first : ∀ e ∈ fontValues, ∀ w, Keeps [fontTree] (fontResolved e) w →
      e.1 ≠ "sans" ∧ w = fontResolved ("sans", .str "Inter", .str "Inter") := by
    rintro e he w ⟨r, hr, hw⟩
    obtain ⟨rfl, ne⟩ := keeps e he r hr
    exact ⟨ne, (Option.some.inj (sans.symm.trans hw)).symm⟩
  obtain ⟨w, hw, rest⟩ := TransGen.head'_iff.1 reaches
  obtain ⟨-, rfl⟩ := first e he w hw
  rcases rest.cases_head with rfl | ⟨w, hw, -⟩
  · intro type htype
    cases htype
    exact ⟨.inl trivial, spelledOut_str _⟩
  · exact absurd rfl (first _ List.mem_cons_self w hw).1

/-- A family that is nothing but a reference comes to the one that it refers to. -/
theorem compile_faithful_fontTree : (∀ t ∈ [fontTree], t.Parsed) ∧
    (∀ t ∈ [fontTree], t.context = .base) ∧
    (∀ t ∈ [fontTree], ∀ path token, t.token? path = some token → token.value.Exact) ∧
    ∃ out file rules, compile [fontTree] [] .standard = .ok out ∧
      (sheets [] Settings.standard.output out.tokens).entries = [(file, rules)] ∧
      (propertyNames rules).Nodup ∧ ∃ list, out.tokens.entries = [(.base, list)] ∧
        ∃ ct ∈ list, ct.path = "body" ∧ ∃ rt, baseToken? [fontTree] "body" = some rt ∧
          rt.value = .str "Inter" ∧ Faithful .standard [fontTree] list rt ct := by
  have parsed : ∀ t ∈ [fontTree], t.Parsed := by simpa using parsed_fontTree
  have base : ∀ t ∈ [fontTree], t.context = .base := by simp [fontTree]
  obtain ⟨out, h, tokens, file, rules, one, distinct⟩ := compile_fontTree
  obtain ⟨list, entries, -, -, faithful, -⟩ :=
    compile_faithful parsed base exact_fontTree h one distinct
  rw [tokens] at entries
  cases entries
  have value : fontValues[1] ∈ fontValues := by simp [fontValues]
  have hct : (⟨"body", .fontFamily, ⟨⟨"fonts.json"⟩, .base⟩,
      .single (familyText (.str "\x7bsans\x7d"))⟩ : CssToken) ∈ fontList :=
    List.mem_map_of_mem value
  obtain ⟨rt, hrt, -, faithful⟩ := faithful _ hct (by simp)
  obtain rfl : rt = fontResolved fontValues[1] :=
    Option.some.inj (hrt.symm.trans (baseToken?_fontTree _ value))
  refine ⟨parsed, base, exact_fontTree, out, file, rules, h, one, distinct, fontList, by rw [tokens],
    _, hct, rfl, _, hrt, rfl, ?_⟩
  refine (faithful (fun u => wellSpelled_fontTree value) (.inl trivial)).1 ?_
  unfold writtenValue
  rw [basePaths_fontTree]
  exact spelledOut_str _

theorem renderReferences_fontTree : Name.renderReferences
    (familyText (.arr [.str "\x7bsans\x7d", .str "serif"])) = "\"var(--sans)\", serif" := by
  have text : familyText (.arr [.str "\x7bsans\x7d", .str "serif"]) =
      "\"" ++ (Reference.text ⟨"sans"⟩ ++ "\", serif") := by decide +kernel
  rw [← written_fragments, text, fragments_append_of_braceFree (by decide),
    fragments_reference_append (by decide), fragments_of_braceFree (by decide)]
  decide +kernel

/-- **The families in a list have a reference in quotes**: what is declared never comes to what would be
written for the value. -/
theorem not_faithful_fontTree : (∀ t ∈ [fontTree], t.Parsed) ∧ (∀ t ∈ [fontTree], t.context = .base) ∧
    (∀ t ∈ [fontTree], ∀ path token, t.token? path = some token → token.value.Exact) ∧
    ∃ out file rules, compile [fontTree] [] .standard = .ok out ∧
      (sheets [] Settings.standard.output out.tokens).entries = [(file, rules)] ∧
      (propertyNames rules).Nodup ∧ ∃ list, out.tokens.entries = [(.base, list)] ∧
        ∃ ct ∈ list, ct.type ≠ .gradient ∧
          plainDeclarations ct = [("--stack", "\"var(--sans)\", serif")] ∧
          ∃ rt, baseToken? [fontTree] ct.path = some rt ∧ rt.value = .arr [.str "Inter", .str "serif"] ∧
            ¬ Faithful .standard [fontTree] list rt ct := by
  have parsed : ∀ t ∈ [fontTree], t.Parsed := by simpa using parsed_fontTree
  have base : ∀ t ∈ [fontTree], t.context = .base := by simp [fontTree]
  obtain ⟨out, h, tokens, file, rules, one, distinct⟩ := compile_fontTree
  obtain ⟨list, entries, once, -⟩ := writtenOnce_of_compile base h one distinct
  rw [tokens] at entries
  cases entries
  have value : fontValues[2] ∈ fontValues := by simp [fontValues]
  have hct : (⟨"stack", .fontFamily, ⟨⟨"fonts.json"⟩, .base⟩,
      .single (familyText (.arr [.str "\x7bsans\x7d", .str "serif"]))⟩ : CssToken) ∈ fontList :=
    List.mem_map_of_mem value
  have stack := baseToken?_fontTree _ value
  obtain ⟨rt, hrt, faithful⟩ := once.faithful parsed exact_fontTree hct (by simp)
  obtain rfl : rt = fontResolved fontValues[2] := Option.some.inj (hrt.symm.trans stack)
  have written : writtenValue [fontTree] (fontResolved fontValues[2]) =
      .arr [.str "\x7bsans\x7d", .str "serif"] := by
    unfold writtenValue
    rw [basePaths_fontTree]
    rfl
  refine ⟨parsed, base, exact_fontTree, out, file, rules, h, one, distinct, fontList, by rw [tokens],
    _, hct, by simp, ?_, _, stack, rfl, fun faith => ?_⟩
  · unfold plainDeclarations
    rw [show Name.customProperty "stack" = "--stack" by decide +kernel]
    exact congrArg (fun text => [("--stack", text)]) renderReferences_fontTree
  · have quotable : (Json.arr [.str "\x7bsans\x7d", .str "serif"]).Quotable := by
      refine ⟨⟨?_, ?_⟩, ⟨?_, ?_⟩, trivial⟩ <;> decide
    have spelled := (faithful (fun u => wellSpelled_fontTree value)
      (.inr ⟨_, rfl, by simp [Json.IsScalar]⟩)).2 (written ▸ quotable) faith
    rw [written] at spelled
    have name := spelled.2 _ List.mem_cons_self _ rfl (.str "\x7bsans\x7d") List.mem_cons_self
    revert name
    decide

end DesignTokens
