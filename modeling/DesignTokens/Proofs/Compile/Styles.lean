import DesignTokens.Proofs.Compile.Cascade
import DesignTokens.Proofs.Compile.Failures
import DesignTokens.Proofs.Compile.Uses

/-!
# Text styles of the base and of an overlay

A text style is declared by its sub-properties, and an overlay overrides each of them for itself. What
the base declares of a style and the overlay does not stays in effect.

* `exists_style`: a converted style has the sub-properties of its value; `names_style`: their names;
  `namedApart_of_paths`: where no two tokens of a context declare one name, each name is declared once;
* `Holds`: what is in effect of the properties of some tokens; `holds_append_iff`: of one of the base
  and one of an overlay;
* **`holds_styles`**: of a style of both, the sub-properties of the overlay, and those of the base that
  the overlay does not have; the overlay replaces the style exactly if there are none of these;
* `bodyTrees`: a style of which the overlay has other sub-properties.
-/

namespace DesignTokens

/-! ## Sub-properties -/

section Convert

variable {trees : List Tree} {transforms : Transforms} {diagnostics : List Diagnostic}
  {converted : Contexts (List CssToken)}
  (conv : convertAll transforms diagnostics (resolveAll (flatten trees)) = .ok converted)
  {c : Context} {list : List CssToken} (hl : converted.get? c = some list)

include conv hl

theorem nodup_paths_of_convertAll : (list.map CssToken.path).Nodup := by
  rcases convertAll_eq_ok conv c with ⟨-, none⟩ | ⟨tokens, list', found, hl', conv⟩
  · cases none.symm.trans hl
  · obtain rfl : list' = list := Option.some.inj (hl'.symm.trans hl)
    exact nodup_paths_of_convertContext found conv

/-- **A converted text style has the sub-properties of its value.** -/
theorem exists_style {t : CssToken} (ht : t ∈ list) (style : t.type = .typography) :
    ∃ rt parts, tokenIn? trees c t.path = some rt ∧ t.value = ⟨.entries parts, []⟩ ∧
      parts.map Prod.fst =
        (typographyProperties.filter fun kp => rt.value.hasMember kp.1).map Prod.snd := by
  obtain ⟨rt, errors, paths, here, conv⟩ := exists_convertToken?_of_mem conv hl ht
  obtain ⟨-, -, value, -⟩ := convertToken?_eq_some_iff.1 conv
  obtain ⟨σ, replaced⟩ := exists_substitute_of_token? here
  obtain ⟨j, τ, same, final⟩ := exists_operand_eq replaced paths
  rw [style, same] at value
  obtain ⟨parts, entries, keys⟩ := keys_of_typography_operand value
  exact ⟨rt, parts, here, entries, final ▸ keys⟩

end Convert

/-- The name of a sub-property. -/
def partName (path property : String) : String := Name.customProperty path ++ "-" ++ Name.kebab property

theorem partName_inj {path : String} {kp kp' : String × String} (hkp : kp ∈ typographyProperties)
    (hkp' : kp' ∈ typographyProperties) (same : partName path kp.2 = partName path kp'.2) : kp = kp' := by
  have kebab : ∀ kp ∈ typographyProperties, ∀ kp' ∈ typographyProperties,
      Name.kebab kp.2 = Name.kebab kp'.2 → kp = kp' := by decide
  exact kebab kp hkp kp' hkp' ((String.append_right_inj _).1 same)

/-- **The names of a style** are those of its sub-properties. -/
theorem names_style {t : CssToken} {v : Json} {parts : List (String × String)}
    (value : t.value = ⟨.entries parts, []⟩)
    (keys : parts.map Prod.fst = (typographyProperties.filter fun kp => v.hasMember kp.1).map Prod.snd) :
    (plainDeclarations t).map Prod.fst =
      (typographyProperties.filter fun kp => v.hasMember kp.1).map fun kp => partName t.path kp.2 := by
  have each := congrArg (List.map (partName t.path)) keys
  rw [List.map_map, List.map_map] at each
  unfold plainDeclarations
  rw [value, List.map_map]
  exact each

section Names

variable {trees : List Tree} {transforms : Transforms} {diagnostics : List Diagnostic}
  {converted : Contexts (List CssToken)}
  (conv : convertAll transforms diagnostics (resolveAll (flatten trees)) = .ok converted)
  {c : Context} {list : List CssToken} (hl : converted.get? c = some list)

include conv hl

theorem nodup_names_of_mem {t : CssToken} (ht : t ∈ list) : ((plainDeclarations t).map Prod.fst).Nodup := by
  by_cases style : t.type = .typography
  · obtain ⟨rt, parts, -, value, keys⟩ := exists_style conv hl ht style
    have distinct : typographyProperties.Nodup := by decide
    rw [names_style value keys]
    exact (distinct.filter _).map_on fun kp hkp kp' hkp' =>
      partName_inj (List.mem_of_mem_filter hkp) (List.mem_of_mem_filter hkp')
  · obtain ⟨rt, errors, paths, -, own⟩ := exists_convertToken?_of_mem conv hl ht
    obtain ⟨text, single⟩ := exists_body_eq_single (convertToken?_eq_some_iff.1 own).2.2.1 style
    unfold plainDeclarations
    rw [single]
    exact List.nodup_singleton _

/-- **The tokens of a context are named apart** if they declare no names of each other. -/
theorem namedApart_of_paths (apart : ∀ t ∈ list, ∀ u ∈ list, ∀ d ∈ plainDeclarations t,
    ∀ e ∈ plainDeclarations u, d.1 = e.1 → t.path = u.path) : NamedApart list := by
  refine namedApart_of_convertAll conv hl ?_
  rw [List.map_flatMap]
  refine List.nodup_flatMap.2 ⟨fun t ht => nodup_names_of_mem conv hl ht, ?_⟩
  refine (List.pairwise_map.1 (nodup_paths_of_convertAll conv hl)).imp_of_mem ?_
  intro t u ht hu ne name former latter
  obtain ⟨d, hd, rfl⟩ := List.mem_map.1 former
  obtain ⟨e, he, same⟩ := List.mem_map.1 latter
  exact ne (apart t ht u hu d hd e he same.symm)

end Names

/-! ## Styles in effect -/

/-- A declaration in effect, of a property that some tokens declare. -/
def Holds (supported : String → Bool) (rules : List CssRule) (tokens : List CssToken)
    (d : String × String) : Prop :=
  d.1 ∈ (tokens.flatMap plainDeclarations).map Prod.fst ∧ inEffect supported rules d.1 = some d.2

theorem inEffect_of_mem {supported : String → Bool} {selector : String} {tokens : List CssToken}
    (named : NamedApart tokens) {t : CssToken} (ht : t ∈ tokens) (none : t.value.features = [])
    {d : String × String} (hd : d ∈ plainDeclarations t) :
    inEffect supported (contextRules selector tokens) d.1 = some d.2 := by
  refine inEffect_plain named (List.mem_flatMap.2 ⟨t, ht, hd⟩) fun u hu same f hf => ?_
  rw [named.eq_of_feature ht hu hf hd same, none] at hf
  cases hf

section Overlay

variable {base own : List CssToken} {former latter : CssToken} {supported : String → Bool}
  {ofBase ofOwn : String}

/-- **A token of the base and of an overlay** that has no values behind queries: in effect is what the overlay
declares, and what the base declares under names that the overlay does not. -/
theorem holds_append_iff (namedBase : NamedApart base) (namedOwn : NamedApart own)
    (hf : former ∈ base) (hl : latter ∈ own) (none : former.value.features = [])
    (none' : latter.value.features = [])
    (alone : ∀ u ∈ own, ∀ d ∈ plainDeclarations former, ∀ e ∈ plainDeclarations u, e.1 = d.1 → u = latter)
    (d : String × String) :
    Holds supported (contextRules ofBase base ++ contextRules ofOwn own) [former, latter] d ↔
      d ∈ plainDeclarations latter ∨
        d ∈ plainDeclarations former ∧ d.1 ∉ (plainDeclarations latter).map Prod.fst := by
  have above : ∀ e ∈ plainDeclarations latter,
      inEffect supported (contextRules ofBase base ++ contextRules ofOwn own) e.1 = some e.2 := by
    intro e he
    rw [inEffect_append, inEffect_of_mem namedOwn hl none' he, Option.some_or]
  have below : ∀ e ∈ plainDeclarations former, e.1 ∉ (plainDeclarations latter).map Prod.fst →
      inEffect supported (contextRules ofBase base ++ contextRules ofOwn own) e.1 = some e.2 := by
    intro e he notMem
    -- what the overlay declares under such a name could only be its own version
    have absent : e.1 ∉ (own.flatMap plainDeclarations).map Prod.fst := by
      intro among
      obtain ⟨g, hg, same⟩ := List.mem_map.1 among
      obtain ⟨u, hu, hg⟩ := List.mem_flatMap.1 hg
      obtain rfl := alone u hu e he g hg same
      exact notMem (same ▸ List.mem_map_of_mem hg)
    rw [inEffect_append, inEffect_of_notMem namedOwn absent, Option.none_or,
      inEffect_of_mem namedBase hf none he]
  constructor
  · rintro ⟨name, holds⟩
    by_cases among : d.1 ∈ (plainDeclarations latter).map Prod.fst
    · obtain ⟨e, he, same⟩ := List.mem_map.1 among
      have value : e.2 = d.2 := Option.some.inj ((above e he).symm.trans (same ▸ holds))
      exact .inl (Prod.ext same value ▸ he)
    · have name : d.1 ∈ (plainDeclarations former).map Prod.fst := by
        simpa [List.map_append, among] using name
      obtain ⟨e, he, same⟩ := List.mem_map.1 name
      have value : e.2 = d.2 := Option.some.inj ((below e he (same ▸ among)).symm.trans (same ▸ holds))
      exact .inr ⟨Prod.ext same value ▸ he, among⟩
  · rintro (hd | ⟨hd, among⟩)
    · exact ⟨List.mem_map_of_mem (List.mem_flatMap.2 ⟨latter, by simp, hd⟩), above d hd⟩
    · exact ⟨List.mem_map_of_mem (List.mem_flatMap.2 ⟨former, by simp, hd⟩), below d hd among⟩

theorem names_subset_iff {v v' : Json} {parts parts' : List (String × String)}
    (path : former.path = latter.path) (value : former.value = ⟨.entries parts, []⟩)
    (keys : parts.map Prod.fst = (typographyProperties.filter fun kp => v.hasMember kp.1).map Prod.snd)
    (value' : latter.value = ⟨.entries parts', []⟩)
    (keys' : parts'.map Prod.fst =
      (typographyProperties.filter fun kp => v'.hasMember kp.1).map Prod.snd) :
    (∀ d ∈ plainDeclarations former, d.1 ∈ (plainDeclarations latter).map Prod.fst) ↔
      ∀ kp ∈ typographyProperties, v.hasMember kp.1 = true → v'.hasMember kp.1 = true := by
  rw [← List.forall_mem_map (P := (· ∈ (plainDeclarations latter).map Prod.fst)), names_style value keys,
    names_style value' keys', List.forall_mem_map]
  simp only [List.mem_filter, List.mem_map, and_imp, path]
  refine forall₃_congr fun kp hkp _ => ⟨?_, fun has => ⟨kp, ⟨hkp, has⟩, rfl⟩⟩
  rintro ⟨kp', ⟨hkp', has⟩, same⟩
  exact partName_inj hkp' hkp same ▸ has

end Overlay

/-- **A style of the base and of an overlay.** Under the rules of both, where no two tokens declare one name,
what is in effect of the style is what the overlay declares, and what the base declares of the sub-properties
that the overlay does not have. So the overlay replaces the style exactly if its value has every sub-property
that the one of the base has. -/
theorem holds_styles {trees : List Tree} {transforms : Transforms} {diagnostics : List Diagnostic}
    {converted : Contexts (List CssToken)}
    (conv : convertAll transforms diagnostics (resolveAll (flatten trees)) = .ok converted)
    {c : Context} {base own : List CssToken} (hb : converted.get? .base = some base)
    (hc : converted.get? c = some own)
    (apart : ∀ t ∈ base ++ own, ∀ u ∈ base ++ own, ∀ d ∈ plainDeclarations t,
      ∀ e ∈ plainDeclarations u, d.1 = e.1 → t.path = u.path)
    {former latter : CssToken} (hf : former ∈ base) (hl : latter ∈ own) (path : former.path = latter.path)
    (style : former.type = .typography) (style' : latter.type = .typography)
    (modifiers : List Modifier) (theme : String) (supported : String → Bool) :
    let rules := contextRules (selector modifiers theme .base) base ++
      contextRules (selector modifiers theme c) own
    (∀ d, Holds supported rules [former, latter] d ↔ d ∈ plainDeclarations latter ∨
      d ∈ plainDeclarations former ∧ d.1 ∉ (plainDeclarations latter).map Prod.fst) ∧
    ∃ rt rt', tokenIn? trees .base former.path = some rt ∧ tokenIn? trees c latter.path = some rt' ∧
      ((∀ d, Holds supported rules [former, latter] d ↔ d ∈ plainDeclarations latter) ↔
        ∀ kp ∈ typographyProperties, rt.value.hasMember kp.1 = true → rt'.value.hasMember kp.1 = true) := by
  intro rules
  have inBase : ∀ {t : CssToken}, t ∈ base → t ∈ base ++ own := List.mem_append_left _
  have inOwn : ∀ {t : CssToken}, t ∈ own → t ∈ base ++ own := List.mem_append_right _
  have namedBase := namedApart_of_paths conv hb fun t ht u hu => apart t (inBase ht) u (inBase hu)
  have namedOwn := namedApart_of_paths conv hc fun t ht u hu => apart t (inOwn ht) u (inOwn hu)
  obtain ⟨rt, parts, hrt, value, keys⟩ := exists_style conv hb hf style
  obtain ⟨rt', parts', hrt', value', keys'⟩ := exists_style conv hc hl style'
  have alone : ∀ u ∈ own, ∀ d ∈ plainDeclarations former, ∀ e ∈ plainDeclarations u, e.1 = d.1 →
      u = latter := by
    intro u hu d hd e he same
    have owner := (apart u (inOwn hu) former (inBase hf) e he d hd same).trans path
    exact List.inj_on_of_nodup_map (nodup_paths_of_convertAll conv hc) hu hl owner
  have all : ∀ d, Holds supported rules [former, latter] d ↔ d ∈ plainDeclarations latter ∨
      d ∈ plainDeclarations former ∧ d.1 ∉ (plainDeclarations latter).map Prod.fst :=
    holds_append_iff namedBase namedOwn hf hl (congrArg CssValue.features value)
      (congrArg CssValue.features value') alone
  refine ⟨all, rt, rt', hrt, hrt', ?_⟩
  rw [← names_subset_iff path value keys value' keys']
  constructor
  · intro replaced d hd
    by_contra notMem
    exact notMem (List.mem_map_of_mem ((replaced d).1 ((all d).2 (.inr ⟨hd, notMem⟩))))
  · intro covered d
    rw [all d, or_iff_left]
    exact fun ⟨hd, notMem⟩ => notMem (covered d hd)

/-! ## A style at night -/

/-- A text style of the base, and the one of the same name at night. -/
def bodyTrees (day night : Json) : List Tree :=
  [⟨.base, ⟨.empty, [("body", .token ⟨day, some .typography, none, none, none⟩)]⟩, ⟨"base.json"⟩⟩,
    ⟨nightContext, ⟨.empty, [("body", .token ⟨night, some .typography, none, none, none⟩)]⟩,
      ⟨"night.json"⟩⟩]

/-- The style without a weight and the one with it, in both orders. -/
def bodyPairs : List (Json × Json) := [(lightBody, boldBody), (boldBody, lightBody)]

/-- A style with or without a weight as it is converted. -/
def bodyCss (c : Context) (file : String) (value : Json) : CssToken :=
  ⟨"body", .typography, ⟨⟨file⟩, c⟩,
    ⟨.entries (bodyParts ++ if value.hasMember "fontWeight" then [("font-weight", weightText (.str "bold"))]
      else []), []⟩⟩

theorem weightText_bold : weightText (.str "bold") = "700" := by
  have keyword : Text.lowerAscii "bold" = "bold" :=
    String.toList_injective (String.toList_map.trans (by decide))
  simp only [weightText, fontWeight?, keyword]
  rfl

/-- The converted styles. -/
def bodyTokens (day night : Json) : Contexts (List CssToken) :=
  ⟨[(.base, [bodyCss .base "base.json" day]), (nightContext, [bodyCss nightContext "night.json" night])]⟩

theorem convertAll_bodyTrees : ∀ pair ∈ bodyPairs,
    convertAll .standard [] (resolveAll (flatten (bodyTrees pair.1 pair.2))) =
      .ok (bodyTokens pair.1 pair.2) := by
  have values : ∀ day night, (flatten (bodyTrees day night)).values.flatMap
      (fun f => f.tokens.values.map FlatToken.value) = [day, night] := fun _ _ => rfl
  have plain : ∀ pair ∈ bodyPairs, ∀ v ∈ [pair.1, pair.2], v.references = [] := by decide
  intro pair hpair
  rw [resolveAll_of_no_references (keyed_flatten _) fun c t ht => by
    obtain ⟨f, hf, ht⟩ := mem_declared_iff.1 ht
    refine plain pair hpair _ ?_
    rw [← values]
    exact List.mem_flatMap.2 ⟨f, Table.mem_values_of_get?_eq_some hf, List.mem_map_of_mem ht⟩]
  simp only [bodyPairs, List.mem_cons, List.not_mem_nil, or_false] at hpair
  rcases hpair with rfl | rfl
  · rfl
  · rfl

theorem apart_bodyTokens (day night : Json) :
    ∀ t ∈ [bodyCss .base "base.json" day] ++ [bodyCss nightContext "night.json" night],
      ∀ u ∈ [bodyCss .base "base.json" day] ++ [bodyCss nightContext "night.json" night],
      ∀ d ∈ plainDeclarations t, ∀ e ∈ plainDeclarations u, d.1 = e.1 → t.path = u.path := by
  have path : ∀ t ∈ [bodyCss .base "base.json" day] ++ [bodyCss nightContext "night.json" night],
      t.path = "body" := by
    simp [bodyCss]
  exact fun t ht u hu _ _ _ _ _ => (path t ht).trans (path u hu).symm

/-- A style with a weight at night replaces the one of the base, which has none. -/
theorem holds_bodyTrees : ∃ base own former latter,
    convertAll .standard [] (resolveAll (flatten (bodyTrees lightBody boldBody))) =
      .ok ⟨[(.base, base), (nightContext, own)]⟩ ∧
    (former ∈ base ∧ latter ∈ own ∧ former.path = latter.path ∧ former.type = .typography ∧
      latter.type = .typography) ∧
    (∀ t ∈ base ++ own, ∀ u ∈ base ++ own, ∀ d ∈ plainDeclarations t,
      ∀ e ∈ plainDeclarations u, d.1 = e.1 → t.path = u.path) ∧
    ∀ d, Holds (fun _ => true) (contextRules ":root" base ++ contextRules "[data-theme=\"night\"]" own)
      [former, latter] d ↔ d ∈ plainDeclarations latter := by
  have conv := convertAll_bodyTrees (lightBody, boldBody) (by simp [bodyPairs])
  have apart := apart_bodyTokens lightBody boldBody
  refine ⟨_, _, _, _, conv, ⟨List.mem_singleton_self _, List.mem_singleton_self _, rfl, rfl, rfl⟩, apart, ?_⟩
  obtain ⟨all, -⟩ := holds_styles conv (c := nightContext) rfl rfl apart (List.mem_singleton_self _)
    (List.mem_singleton_self _) rfl rfl rfl [] "data-theme" fun _ => true
  obtain ⟨weight, more⟩ : ∃ weight, plainDeclarations (bodyCss nightContext "night.json" boldBody) =
      plainDeclarations (bodyCss .base "base.json" lightBody) ++ [weight] := ⟨_, rfl⟩
  refine fun d => (all d).trans (or_iff_left fun ⟨hd, notMem⟩ => notMem ?_)
  rw [more]
  exact List.mem_map_of_mem (List.mem_append_left _ hd)

/-- **A weight that stays**: the style at night has none, and that of the base is in effect with it. -/
theorem stays_bodyTrees : ∃ base own former latter,
    convertAll .standard [] (resolveAll (flatten (bodyTrees boldBody lightBody))) =
      .ok ⟨[(.base, base), (nightContext, own)]⟩ ∧
    (former ∈ base ∧ latter ∈ own ∧ former.path = latter.path ∧ former.type = .typography ∧
      latter.type = .typography) ∧
    (∀ t ∈ base ++ own, ∀ u ∈ base ++ own, ∀ d ∈ plainDeclarations t,
      ∀ e ∈ plainDeclarations u, d.1 = e.1 → t.path = u.path) ∧
    Holds (fun _ => true) (contextRules ":root" base ++ contextRules "[data-theme=\"night\"]" own)
      [former, latter] ("--body-font-weight", "700") ∧
    "--body-font-weight" ∉ (plainDeclarations latter).map Prod.fst := by
  have conv := convertAll_bodyTrees (boldBody, lightBody) (by simp [bodyPairs])
  have apart := apart_bodyTokens boldBody lightBody
  have namedBase : NamedApart [bodyCss .base "base.json" boldBody] :=
    namedApart_of_paths conv (c := .base) rfl fun t ht u hu =>
      apart t (List.mem_append_left _ ht) u (List.mem_append_left _ hu)
  have namedOwn : NamedApart [bodyCss nightContext "night.json" lightBody] :=
    namedApart_of_paths conv (c := nightContext) rfl fun t ht u hu =>
      apart t (List.mem_append_right _ ht) u (List.mem_append_right _ hu)
  have bold : Name.renderReferences (weightText (.str "bold")) = "700" := by
    rw [weightText_bold, renderReferences_of_braceFree (by decide)]
  have weight : ("--body-font-weight", "700") ∈ plainDeclarations (bodyCss .base "base.json" boldBody) :=
    List.mem_map.2 ⟨_, List.mem_append_right _ (List.mem_singleton_self _), Prod.ext rfl bold⟩
  have absent : "--body-font-weight" ∉
      (plainDeclarations (bodyCss nightContext "night.json" lightBody)).map Prod.fst := by
    decide
  refine ⟨_, _, _, _, conv, ⟨List.mem_singleton_self _, List.mem_singleton_self _, rfl, rfl, rfl⟩, apart,
    ?_, absent⟩
  refine (holds_append_iff namedBase namedOwn (List.mem_singleton_self _) (List.mem_singleton_self _) rfl rfl
    ?_ _).2 (.inr ⟨weight, absent⟩)
  exact fun u hu _ _ _ _ _ => List.mem_singleton.1 hu

end DesignTokens
