import DesignTokens.Proofs.Css.Files
import Mathlib.Data.List.Nodup

/-!
# Rules that override each other

Of the rules that apply to an element, the last one that declares a property decides on its value. A rule
behind a feature query applies if the query holds.

* `inEffect`: the value of a property under some rules; `inEffect_append`: later rules override earlier ones;
* `CssToken.shown`: the value of a token where some queries hold;
* **`inEffect_contextRules`**: under the rules of a context that declares each name once, tokens have these
  values; `inEffect_plain`: a declaration holds where its token has no value behind a query that holds;
* `rulesOn`: the rules of some selectors in order; `rulesOn_rulesOf`: of a file, for the base and one overlay;
  `inEffect_contextRulesOf`: the only file has all rules of a context.
-/

namespace DesignTokens

/-! ## The last declaration -/

/-- Whether a rule applies where some feature queries hold. -/
def CssRule.applies (supported : String → Bool) (r : CssRule) : Bool := r.query.all supported

/-- The value of a property under rules in order: the last declaration, of the rules that apply. -/
def inEffect (supported : String → Bool) (rules : List CssRule) (property : String) : Option String :=
  Table.find? property ((rules.filter (·.applies supported)).flatMap CssRule.properties).reverse

variable {supported : String → Bool}

/-- **Later rules override earlier ones.** -/
theorem inEffect_append (rules rules' : List CssRule) (property : String) :
    inEffect supported (rules ++ rules') property =
      (inEffect supported rules' property).or (inEffect supported rules property) := by
  unfold inEffect
  rw [List.filter_append, List.flatMap_append, List.reverse_append, Table.find?_append]

theorem inEffect_eq_none_iff {rules : List CssRule} {property : String} :
    inEffect supported rules property = none ↔
      ∀ r ∈ rules, r.applies supported = true → ∀ d ∈ r.properties, d.1 ≠ property := by
  unfold inEffect
  rw [Table.find?_eq_none_iff, List.mem_map]
  simp only [List.mem_reverse, List.mem_flatMap, List.mem_filter]
  constructor
  · rintro none r hr applies d hd rfl
    exact none ⟨d, ⟨r, ⟨hr, applies⟩, hd⟩, rfl⟩
  · rintro none ⟨d, ⟨r, ⟨hr, applies⟩, hd⟩, same⟩
    exact none r hr applies d hd same

theorem inEffect_eq_some {rules : List CssRule} {r : CssRule} {d : String × String} (hr : r ∈ rules)
    (applies : r.applies supported = true) (hd : d ∈ r.properties)
    (only : ∀ r ∈ rules, r.applies supported = true → ∀ e ∈ r.properties, e.1 = d.1 → e.2 = d.2) :
    inEffect supported rules d.1 = some d.2 := by
  cases found : inEffect supported rules d.1 with
  | none => exact absurd rfl (inEffect_eq_none_iff.1 found r hr applies d hd)
  | some value =>
    have here := List.mem_reverse.1 (Table.mem_of_find?_eq_some found)
    obtain ⟨r', hr', he⟩ := List.mem_flatMap.1 here
    obtain ⟨hr', applies'⟩ := List.mem_filter.1 hr'
    rw [show value = d.2 from only r' hr' applies' _ he rfl]

/-! ## The rules of a context -/

theorem mem_plainDeclarations_of_single {t : CssToken} {text : String} (body : t.value.body = .single text) :
    (Name.customProperty t.path, Name.renderReferences text) ∈ plainDeclarations t := by
  unfold plainDeclarations
  rw [body]
  exact List.mem_singleton_self _

/-- The value of a token where some queries hold: that behind such a query, else its plain one. -/
def CssToken.shown (supported : String → Bool) (t : CssToken) (text : String) : String :=
  Name.renderReferences
    (((t.value.features.find? (supported ·.query)).map FeatureValue.text).getD text)

section Context

variable {selector : String} {tokens : List CssToken}

theorem exists_queried (selector : String) (tokens : List CssToken) : ∃ queried,
    contextRules selector tokens = ⟨selector, tokens.flatMap plainDeclarations, none⟩ :: queried ∧
    (∀ r ∈ queried, ∃ query, r.query = some query) ∧
    ∀ query d, (∃ r ∈ queried, r.query = some query ∧ d ∈ r.properties) ↔
      ∃ t ∈ tokens, ∃ f ∈ t.value.features, f.query = query ∧
        d = (Name.customProperty t.path, Name.renderReferences f.text) := by
  refine ⟨_, rfl, fun r hr => ?_, fun query d => ?_⟩
  · obtain ⟨⟨query, group⟩, -, rfl⟩ := List.mem_map.1 hr
    exact ⟨query, rfl⟩
  · constructor
    · rintro ⟨r, hr, queried, hd⟩
      obtain ⟨⟨query', group⟩, hg, rfl⟩ := List.mem_map.1 hr
      cases queried
      obtain ⟨t, ht, hf⟩ := List.mem_flatMap.1 ((mem_group_iff hg).1 hd)
      obtain ⟨f, value, same⟩ := List.mem_map.1 hf
      cases same
      exact ⟨t, ht, f, value, rfl, rfl⟩
    · rintro ⟨t, ht, f, hf, rfl, rfl⟩
      have here : (f.query, Name.customProperty t.path, Name.renderReferences f.text) ∈
          tokens.flatMap featureDeclarations :=
        List.mem_flatMap.2 ⟨t, ht, List.mem_map_of_mem (f := fun f => (f.query, _, _)) hf⟩
      obtain ⟨group, hg⟩ := mem_entries_groupByKey here
      exact ⟨_, List.mem_map_of_mem hg, rfl, (mem_group_iff hg).2 here⟩

/-- Tokens that declare each name once outside of queries, and of which each has at most one value behind a
query, besides a single plain one. -/
structure NamedApart (tokens : List CssToken) : Prop where
  names : ((tokens.flatMap plainDeclarations).map Prod.fst).Nodup
  one : ∀ t ∈ tokens, ∀ f ∈ t.value.features, t.value.features = [f]
  single : ∀ t ∈ tokens, t.value.features ≠ [] → ∃ text, t.value.body = .single text

namespace NamedApart

variable (apart : NamedApart tokens) {t u : CssToken} (ht : t ∈ tokens) (hu : u ∈ tokens)

include apart in
theorem value_eq {d e : String × String} (hd : d ∈ tokens.flatMap plainDeclarations)
    (he : e ∈ tokens.flatMap plainDeclarations) (same : e.1 = d.1) : e.2 = d.2 :=
  congrArg Prod.snd (List.inj_on_of_nodup_map apart.names he hd same)

include apart ht hu in
theorem eq_of_name {d e : String × String} (hd : d ∈ plainDeclarations t) (he : e ∈ plainDeclarations u)
    (same : e.1 = d.1) : u = t := by
  have names : ((tokens.flatMap fun t => (plainDeclarations t).map fun d => (t, d.1)).map
      Prod.snd).Nodup := by
    simpa [List.map_flatMap, Function.comp_def] using apart.names
  have owned : ∀ {v : CssToken} {x : String × String}, v ∈ tokens → x ∈ plainDeclarations v →
      (v, x.1) ∈ tokens.flatMap fun t => (plainDeclarations t).map fun d => (t, d.1) :=
    fun hv hx => List.mem_flatMap.2 ⟨_, hv, List.mem_map_of_mem hx⟩
  exact congrArg Prod.fst (List.inj_on_of_nodup_map names (owned hu he) (owned ht hd) same)

include apart ht hu in
theorem eq_of_feature {f : FeatureValue} (hf : f ∈ u.value.features) {d : String × String}
    (hd : d ∈ plainDeclarations t) (same : Name.customProperty u.path = d.1) : u = t := by
  obtain ⟨text, body⟩ := apart.single u hu (List.ne_nil_of_mem hf)
  exact apart.eq_of_name ht hu hd (mem_plainDeclarations_of_single body) same

end NamedApart

/-- **A plain declaration holds** where its name has no value behind a query that holds. -/
theorem inEffect_plain (apart : NamedApart tokens) {d : String × String}
    (hd : d ∈ tokens.flatMap plainDeclarations)
    (none : ∀ t ∈ tokens, Name.customProperty t.path = d.1 →
      ∀ f ∈ t.value.features, supported f.query = false) :
    inEffect supported (contextRules selector tokens) d.1 = some d.2 := by
  obtain ⟨queried, rules, query, values⟩ := exists_queried selector tokens
  have behind : inEffect supported queried d.1 = Option.none := by
    refine inEffect_eq_none_iff.2 fun r hr applies e he same => ?_
    obtain ⟨q, hq⟩ := query r hr
    obtain ⟨t, ht, f, hf, rfl, rfl⟩ := (values q e).1 ⟨r, hr, hq, he⟩
    have fails := none t ht same f hf
    simp [CssRule.applies, hq, fails] at applies
  rw [rules, ← List.singleton_append, inEffect_append, behind, Option.none_or]
  refine inEffect_eq_some (List.mem_singleton_self _) rfl hd ?_
  rintro r hr - e he same
  obtain rfl := List.mem_singleton.1 hr
  exact apart.value_eq hd he same

theorem inEffect_feature (apart : NamedApart tokens) {t : CssToken} (ht : t ∈ tokens) {f : FeatureValue}
    (hf : f ∈ t.value.features) (holds : supported f.query = true) :
    inEffect supported (contextRules selector tokens) (Name.customProperty t.path) =
      some (Name.renderReferences f.text) := by
  obtain ⟨queried, rules, query, values⟩ := exists_queried selector tokens
  obtain ⟨text, body⟩ := apart.single t ht (List.ne_nil_of_mem hf)
  have plain := mem_plainDeclarations_of_single body
  have behind : inEffect supported queried (Name.customProperty t.path) =
      some (Name.renderReferences f.text) := by
    obtain ⟨r, hr, hq, hd⟩ := (values f.query _).2 ⟨t, ht, f, hf, rfl, rfl⟩
    refine inEffect_eq_some hr (by simp [CssRule.applies, hq, holds]) hd fun r' hr' _ e he same => ?_
    obtain ⟨q, hq'⟩ := query r' hr'
    obtain ⟨u, hu, g, hg, -, rfl⟩ := (values q e).1 ⟨r', hr', hq', he⟩
    obtain rfl := apart.eq_of_feature ht hu hg plain same
    rw [apart.one u ht f hf, List.mem_singleton] at hg
    rw [hg]
  rw [rules, ← List.singleton_append, inEffect_append, behind, Option.some_or]

/-- **The value of a token** under the rules of its context. -/
theorem inEffect_contextRules (apart : NamedApart tokens) {t : CssToken} (ht : t ∈ tokens) {text : String}
    (body : t.value.body = .single text) :
    inEffect supported (contextRules selector tokens) (Name.customProperty t.path) =
      some (t.shown supported text) := by
  have plain := mem_plainDeclarations_of_single body
  unfold CssToken.shown
  cases found : t.value.features.find? (supported ·.query) with
  | some f =>
    have holds : supported f.query = true := by simpa using List.find?_some found
    exact inEffect_feature apart ht (List.mem_of_find?_eq_some found) holds
  | none =>
    refine inEffect_plain apart (List.mem_flatMap.2 ⟨t, ht, plain⟩) fun u hu same f hf => ?_
    obtain rfl := apart.eq_of_feature ht hu hf plain same
    simpa using List.find?_eq_none.1 found f hf

theorem inEffect_of_notMem (apart : NamedApart tokens) {property : String}
    (notMem : property ∉ (tokens.flatMap plainDeclarations).map Prod.fst) :
    inEffect supported (contextRules selector tokens) property = none := by
  obtain ⟨queried, rules, query, values⟩ := exists_queried selector tokens
  refine inEffect_eq_none_iff.2 fun r hr _ d hd same => notMem (same ▸ ?_)
  rw [rules] at hr
  rcases List.mem_cons.1 hr with rfl | hr
  · exact List.mem_map_of_mem hd
  · obtain ⟨q, hq⟩ := query r hr
    obtain ⟨t, ht, f, hf, -, rfl⟩ := (values q d).1 ⟨r, hr, hq, hd⟩
    obtain ⟨text, body⟩ := apart.single t ht (List.ne_nil_of_mem hf)
    exact List.mem_map.2 ⟨_, List.mem_flatMap.2 ⟨t, ht, mem_plainDeclarations_of_single body⟩, rfl⟩

end Context

/-! ## Elements of two contexts -/

section File

variable {modifiers : List Modifier} {output : OutputSettings} {converted : Contexts (List CssToken)}

/-- The rules for an element of which these are the selectors that match it. -/
def rulesOn (selectors : List String) (rules : List CssRule) : List CssRule :=
  rules.filter (·.selector ∈ selectors)

theorem selector_of_mem_contextRulesOf {file : Path} {e : Context × List CssToken} {r : CssRule}
    (h : r ∈ contextRulesOf modifiers output file e) :
    r.selector = selector modifiers output.themeAttribute e.1 := by
  unfold contextRulesOf at h
  dsimp only at h
  split at h
  · cases h
  · exact (declarations_of_mem_contextRules h).1

theorem rulesOn_of_mem {selectors : List String} {e : Context × List CssToken} {file : Path}
    (among : selector modifiers output.themeAttribute e.1 ∈ selectors) :
    rulesOn selectors (contextRulesOf modifiers output file e) = contextRulesOf modifiers output file e :=
  List.filter_eq_self.2 fun _ hr => decide_eq_true (selector_of_mem_contextRulesOf hr ▸ among)

theorem rulesOn_of_notMem {selectors : List String} {l : List (Context × List CssToken)} {file : Path}
    (none : ∀ e ∈ l, selector modifiers output.themeAttribute e.1 ∉ selectors) :
    rulesOn selectors (l.flatMap (contextRulesOf modifiers output file)) = [] := by
  refine List.filter_eq_nil_iff.2 fun r hr among => ?_
  obtain ⟨e, he, hr⟩ := List.mem_flatMap.1 hr
  exact none e he (selector_of_mem_contextRulesOf hr ▸ of_decide_eq_true among)

/-- **The rules for an element of the base and of one overlay**: those of the base, then those of the
overlay. -/
theorem rulesOn_rulesOf {base own : List CssToken} {overlays : List (Context × List CssToken)}
    (entries : converted.entries = (.base, base) :: overlays) {c : Context} (hc : (c, own) ∈ overlays)
    (nodup : converted.keys.Nodup)
    (selectors : ∀ k ∈ converted.keys, ∀ k' ∈ converted.keys,
      selector modifiers output.themeAttribute k = selector modifiers output.themeAttribute k' → k = k')
    (file : Path) :
    rulesOn [":root", selector modifiers output.themeAttribute c] (rulesOf modifiers output converted file) =
      contextRulesOf modifiers output file (.base, base) ++
        contextRulesOf modifiers output file (c, own) := by
  obtain ⟨former, latter, rfl⟩ := List.append_of_mem hc
  have keys : converted.keys = .base :: (former.map Prod.fst ++ c :: latter.map Prod.fst) := by
    unfold Table.keys
    rw [entries]
    simp
  have first : .base ∈ converted.keys := keys ▸ List.mem_cons_self
  have here : c ∈ converted.keys := by simp [keys]
  obtain ⟨notBase, nodup⟩ := List.nodup_cons.1 (keys ▸ nodup)
  have notOwn := (List.nodup_cons.1 (List.nodup_middle.1 nodup)).1
  -- a context between or behind the two has a selector of its own
  have other : ∀ l, l = former ∨ l = latter →
      rulesOn [":root", selector modifiers output.themeAttribute c]
        (l.flatMap (contextRulesOf modifiers output file)) = [] := by
    refine fun l hl => rulesOn_of_notMem fun e he among => ?_
    have key : e.1 ∈ former.map Prod.fst ++ latter.map Prod.fst := by
      rcases hl with rfl | rfl <;> simp [List.mem_map_of_mem (f := Prod.fst) he]
    have known : e.1 ∈ converted.keys := by
      rw [keys]
      exact List.mem_cons_of_mem _ (List.perm_middle.mem_iff.2 (List.mem_cons_of_mem c key))
    rcases List.mem_cons.1 among with same | same
    · rw [selectors _ known _ first same] at key
      exact notBase (List.perm_middle.mem_iff.2 (List.mem_cons_of_mem c key))
    · exact notOwn (selectors _ known _ here (List.mem_singleton.1 same) ▸ key)
  have append : ∀ rules rules', rulesOn [":root", selector modifiers output.themeAttribute c]
      (rules ++ rules') = rulesOn _ rules ++ rulesOn _ rules' := List.filter_append
  have ofBase : rulesOn [":root", selector modifiers output.themeAttribute c]
      (contextRulesOf modifiers output file (.base, base)) =
        contextRulesOf modifiers output file (.base, base) := rulesOn_of_mem List.mem_cons_self
  have ofOwn : rulesOn [":root", selector modifiers output.themeAttribute c]
      (contextRulesOf modifiers output file (c, own)) = contextRulesOf modifiers output file (c, own) :=
    rulesOn_of_mem (List.mem_cons_of_mem _ (List.mem_singleton_self _))
  unfold rulesOf
  rw [entries, List.flatMap_cons, List.flatMap_append, List.flatMap_cons, append, append, append,
    other former (.inl rfl), other latter (.inr rfl), ofBase, ofOwn, List.nil_append, List.append_nil]

theorem inEffect_contextRulesOf (single : output.separate = false) (e : Context × List CssToken)
    (property : String) :
    inEffect supported (contextRulesOf modifiers output output.variablesFile e) property =
      inEffect supported (contextRules (selector modifiers output.themeAttribute e.1) e.2) property := by
  have all : e.2.filter (targetFile output · = output.variablesFile) = e.2 :=
    List.filter_eq_self.2 fun t _ => by simp [targetFile, single]
  unfold contextRulesOf
  rw [all]
  dsimp only
  split
  · rename_i empty
    rw [List.isEmpty_iff.1 empty]
    rfl
  · rfl

end File

end DesignTokens
