import DesignTokens.Proofs.Css.Slots
import DesignTokens.Proofs.Css.Styles
import DesignTokens.Proofs.Document.Trees
import DesignTokens.Proofs.Compile.Isolation

/-!
# Declarations that overwrite each other

The declarations of compiled trees come each from its own site: no token, no sub-property and no feature
query is declared twice in one context. Two of them are at one slot exactly if the words of their names
are the same and their contexts are of the same elements.

* `keys_of_convertAll`, `nodup_keys_of_convertAll`, `nodup_paths_of_convertContext`: the contexts and
  the tokens that are converted; `keys_of_convert?`: the entries of a text style;
  `nodup_subProperties_of_convert?`, `nodup_sites_of_convertToken?`: the sites of a token;
  **`nodup_sites`**: all sites;
* `attributes_loadResolver`: modifiers of documents have the attributes of their names;
* **`compile_slots`**: which declarations overwrite each other.
-/

namespace DesignTokens

/-! ## Sites of compiled trees -/

theorem nodup_flatMap_of_key {α β κ : Type} {l : List α} {items : α → List β} (key : α → κ)
    (own : β → κ) (nodup : (l.map key).Nodup) (each : ∀ a ∈ l, (items a).Nodup)
    (owned : ∀ a ∈ l, ∀ b ∈ items a, own b = key a) : (l.flatMap items).Nodup := by
  refine List.nodup_flatMap.2 ⟨each, (List.pairwise_map.1 nodup).imp_of_mem ?_⟩
  intro a a' ha ha' ne b hb hb'
  exact ne ((owned a ha b hb).symm.trans (owned a' ha' b hb'))

theorem keys_of_convertAll {transforms : Transforms} {diagnostics : List Diagnostic} {r : Resolution}
    {converted : Contexts (List CssToken)} (h : convertAll transforms diagnostics r = .ok converted) :
    converted.keys = r.contexts.keys := by
  obtain ⟨entries, he, h⟩ := bind_eq_ok.1 h
  cases h
  unfold Table.keys
  rw [← List.forall₂_eq_eq_eq, List.forall₂_map_left_iff, List.forall₂_map_right_iff]
  refine (mapM_eq_ok.1 he).flip.imp fun e e' h => ?_
  obtain ⟨list, -, same⟩ := bind_eq_ok.1 h
  cases same
  rfl

theorem nodup_keys_of_convertAll {trees : List Tree} {transforms : Transforms}
    {diagnostics : List Diagnostic} {converted : Contexts (List CssToken)}
    (h : convertAll transforms diagnostics (resolveAll (flatten trees)) = .ok converted) :
    converted.keys.Nodup := by
  rw [keys_of_convertAll h, keys_resolveAll (keyed_flatten trees)]
  exact (keyed_flatten trees).contexts

theorem keys_of_convert? {transforms : Transforms} {path : String} {type : TokenType}
    {o : Operand} {v : CssValue} (h : convert? transforms path type o = .ok (some v))
    {parts : List (String × String)} (body : v.body = .entries parts) :
    ∃ p : String × String → Bool, parts.map Prod.fst = (typographyProperties.filter p).map Prod.snd := by
  by_cases style : type = .typography
  · subst style
    obtain ⟨parts', rfl, keys⟩ := keys_of_typography h
    cases body
    exact ⟨_, keys⟩
  · obtain ⟨text, single⟩ := exists_body_eq_single h style
    cases single.symm.trans body

theorem nodup_subProperties_of_convert? {transforms : Transforms} {path : String} {type : TokenType}
    {o : Operand} {v : CssValue} (h : convert? transforms path type o = .ok (some v)) :
    v.body.subProperties.Nodup := by
  cases body : v.body with
  | single text => exact List.nodup_singleton _
  | entries parts =>
    obtain ⟨p, keys⟩ := keys_of_convert? h body
    have distinct : (typographyProperties.map fun kp => some kp.2).Nodup := by decide
    have some := congrArg (List.map Option.some) keys
    rw [List.map_map, List.map_map] at some
    show (parts.map (Option.some ∘ Prod.fst)).Nodup
    rw [some]
    exact distinct.sublist (List.filter_sublist.map _)

theorem nodup_sites_of_convertToken? {transforms : Transforms} {errors : List Diagnostic}
    {paths : List String} {t : ResolvedToken} {ct : CssToken}
    (h : convertToken? transforms errors paths t = .ok (some ct)) (c : Context) : (ct.sites c).Nodup := by
  obtain ⟨-, -, conv, -, -⟩ := convertToken?_eq_some_iff.1 h
  have plain := (nodup_subProperties_of_convert? conv).map
    (f := fun part => (⟨c, ct.path, part, none⟩ : Site)) fun _ _ same => congrArg Site.part same
  have queries : (ct.value.features.map fun f => (⟨c, ct.path, none, some f.query⟩ : Site)).Nodup := by
    rcases forms_of_convert? conv with ⟨text, features, value, one, -⟩ | ⟨-, parts, value⟩
    · rw [value]
      match features, one with
      | [], _ => exact List.nodup_nil
      | [f], _ => exact List.nodup_singleton _
    · rw [value]
      exact List.nodup_nil
  refine List.nodup_append.2 ⟨plain, queries, fun x hx y hy same => ?_⟩
  obtain ⟨part, -, rfl⟩ := List.mem_map.1 hx
  obtain ⟨f, -, rfl⟩ := List.mem_map.1 hy
  cases same

theorem nodup_paths_of_convertContext {trees : List Tree} {c : Context}
    {tokens : Table String ResolvedToken}
    (found : (resolveAll (flatten trees)).contexts.get? c = some tokens) {transforms : Transforms}
    {errors : List Diagnostic} {paths : List String} {list : List CssToken}
    (conv : convertContext transforms errors paths tokens = .ok list) :
    (list.map CssToken.path).Nodup := by
  obtain ⟨nodup, own⟩ := keyed_of_get?_resolveAll (keyed_flatten trees) found
  have paths : tokens.values.map ResolvedToken.path = tokens.keys := by
    unfold Table.values Table.keys
    rw [List.map_map]
    exact List.map_congr_left own
  refine (paths ▸ nodup).sublist (sublist_of_filterMapM (fun h => ?_) conv)
  exact (convertToken?_eq_some h).1

section Compile

variable {trees : List Tree} {modifiers : List Modifier} {settings : Settings} {out : Compiled}
  (h : compile trees modifiers settings = .ok out)

include h

/-- **No site comes twice.** -/
theorem nodup_sites : out.sites.Nodup := by
  obtain ⟨-, converted, -⟩ := compile_eq_ok h
  have keys := nodup_keys_of_convertAll converted
  refine nodup_flatMap_of_key Prod.fst Site.context keys (fun e he => ?_) fun e _ x hx => ?_
  · obtain ⟨c, list⟩ := e
    have hl : out.tokens.get? c = some list := (Table.get?_eq_some_iff keys).2 he
    rcases convertAll_eq_ok converted c with ⟨-, none⟩ | ⟨tokens, list', found, hl', conv⟩
    · cases none.symm.trans hl
    obtain rfl : list' = list := Option.some.inj (hl'.symm.trans hl)
    refine nodup_flatMap_of_key CssToken.path Site.path ?_ (fun ct hct => ?_) fun ct _ x hx => ?_
    · exact nodup_paths_of_convertContext found conv
    · obtain ⟨t, -, ht⟩ := ((filterMapM_eq_ok conv).2 ct).1 hct
      exact nodup_sites_of_convertToken? ht c
    · exact (own_of_mem_sites hx).2
  · obtain ⟨t, -, hx⟩ := List.mem_flatMap.1 hx
    exact (own_of_mem_sites hx).1

end Compile

/-! ## Modifiers of documents -/

theorem Setting.attributes_expand (s : Setting) :
    ∀ m ∈ s.expand.modifiers, m.dataAttribute = Modifier.attributeOf m.name := by
  cases ok : s.expand.isOk with
  | false =>
    rw [expand_eq_failed ok]
    exact fun m hm => nomatch hm
  | true =>
    obtain ⟨fine, parts, each⟩ := exists_parts_of_isOk ok
    rw [expand_of_contributes fine each]
    intro m hm
    obtain ⟨part, hpart, hm⟩ := List.mem_flatMap.1 hm
    obtain ⟨item, entry, -, adds⟩ := exists_forall₂_iff.1 ⟨_, each.flip⟩ part hpart
    cases adds with
    | set _ => cases hm
    | file _ => cases hm
    | modifier _ _ =>
      rw [List.mem_singleton.1 hm]

theorem attributes_loadResolver (fs : FileSystem) (file : Path) (selections : Table String String) :
    ∀ m ∈ (loadResolver fs file selections).modifiers, m.dataAttribute = Modifier.attributeOf m.name := by
  unfold loadResolver
  split
  · exact fun m hm => nomatch hm
  · exact Setting.attributes_expand _

/-! ## Slots of compiled trees -/

/-- **Which declarations overwrite each other.** The declarations of compiled trees, with modifiers such as
documents have, are those of the sites, and each site has one. Two contexts have one selector exactly if they
are of the same elements, and two sites one slot exactly if their contexts are, their queries are the same and
so are the words of their paths and sub-properties. So nothing is overwritten exactly if no two sites agree in
these. -/
theorem compile_slots {trees : List Tree} {modifiers : List Modifier} {settings : Settings}
    {out : Compiled} (attributes : ∀ m ∈ modifiers, m.dataAttribute = Modifier.attributeOf m.name)
    (h : compile trees modifiers settings = .ok out) :
    out.files = (sheets out.modifiers settings.output out.tokens).entries.map
        (fun e => ⟨e.1, Sheet.text ⟨e.2⟩⟩) ∧
      (out.slots settings.output).Perm
        (out.sites.map (Site.slot modifiers settings.output.themeAttribute)) ∧
      out.sites.Nodup ∧
      (∀ c c', selector modifiers settings.output.themeAttribute c =
          selector modifiers settings.output.themeAttribute c' ↔
        SameElements settings.output.themeAttribute c c') ∧
      (∀ x ∈ out.sites, ∀ y ∈ out.sites,
        x.slot modifiers settings.output.themeAttribute = y.slot modifiers settings.output.themeAttribute ↔
          x.query = y.query ∧ x.words = y.words ∧
            SameElements settings.output.themeAttribute x.context y.context) ∧
      ((out.slots settings.output).Nodup ↔ ∀ x ∈ out.sites, ∀ y ∈ out.sites, x.query = y.query →
        x.words = y.words → SameElements settings.output.themeAttribute x.context y.context → x = y) := by
  obtain ⟨-, -, files, own⟩ := compile_eq_ok h
  have perm := perm_slots out settings.output
  rw [own] at perm
  have once := nodup_sites h
  refine ⟨?_, perm, once, fun c c' => selector_eq_iff attributes,
    fun x _ y _ => slot_eq_iff attributes, ?_⟩
  · rw [files, own]
    rfl
  · rw [perm.nodup_iff, List.nodup_map_iff_inj_on once]
    refine forall₂_congr fun x _ => forall₂_congr fun y _ => ?_
    rw [slot_eq_iff attributes]
    tauto

/-! ## Two shades -/

/-- The context of a modifier. -/
def darkContext : Context := .variant (some "mode") "dark"

/-- The modifier. -/
def shadeModifiers : List Modifier := [⟨"mode", "data-mode", some "light", "light", ["dark"]⟩]

/-- Two colors, the second with a name of its own, and one of them in the dark. -/
def shadeTrees (name : String) : List Tree :=
  [⟨.base, ⟨.empty, [("inkDark", .token ⟨.str "#000", some .color, none, none, none⟩),
      (name, .token ⟨.str "#222", some .color, none, none, none⟩)]⟩, ⟨"shades.json"⟩⟩,
    ⟨darkContext, ⟨.empty, [("inkDark", .token ⟨.str "#fff", some .color, none, none, none⟩)]⟩,
      ⟨"dark.json"⟩⟩]

/-- A name of other words than the first color, and one of the same. -/
def shadeNames : List String := ["inkLight", "ink-dark"]

theorem resolveAll_shadeTrees : ∀ name ∈ shadeNames, resolveAll (flatten (shadeTrees name)) = ⟨⟨[
    inkTokens .base "shades.json"
      [("inkDark", some .color, "#000", "#000"), (name, some .color, "#222", "#222")],
    inkTokens darkContext "dark.json" [("inkDark", some .color, "#fff", "#fff")]]⟩, []⟩ := by
  simp only [shadeNames, List.forall_mem_cons, List.not_mem_nil, false_imp_iff, implies_true, and_true]
  exact ⟨resolveAll_of_within 1 rfl, resolveAll_of_within 1 rfl⟩

/-- The converted colors. -/
def shadeTokens (name : String) : Contexts (List CssToken) :=
  ⟨[(.base, [inkCss .base "shades.json" "inkDark" "#000", inkCss .base "shades.json" name "#222"]),
    (darkContext, [inkCss darkContext "dark.json" "inkDark" "#fff"])]⟩

theorem compile_shadeTrees : ∀ name ∈ shadeNames, compile (shadeTrees name) shadeModifiers .standard =
    .ok ⟨generate shadeModifiers Settings.standard.output (shadeTokens name), [], shadeModifiers,
      shadeTokens name⟩ := by
  intro name hname
  have resolved := resolveAll_shadeTrees name hname
  refine compile_of_convertAll (by decide) ?_ ?_
  · rw [resolved]
    simp only [shadeNames, List.mem_cons, List.not_mem_nil, or_false] at hname
    rcases hname with rfl | rfl <;> decide +kernel
  · rw [resolved]
    simp only [shadeNames, List.mem_cons, List.not_mem_nil, or_false] at hname
    rcases hname with rfl | rfl <;> rfl

/-- The site of a color. -/
def shadeSite (c : Context) (name : String) : Site := ⟨c, name, none, none⟩

theorem attributes_shadeModifiers :
    ∀ m ∈ shadeModifiers, m.dataAttribute = Modifier.attributeOf m.name := by
  decide +kernel

/-- Colors of different words do not overwrite each other, and the dark one is not in their place. -/
theorem compile_slots_shadeTrees : ∃ out, ((∀ m ∈ shadeModifiers,
      m.dataAttribute = Modifier.attributeOf m.name) ∧
    compile (shadeTrees "inkLight") shadeModifiers .standard = .ok out) ∧
    out.sites = [shadeSite .base "inkDark", shadeSite .base "inkLight", shadeSite darkContext "inkDark"] ∧
    (out.slots Settings.standard.output).Nodup := by
  have h := compile_shadeTrees "inkLight" (by decide)
  obtain ⟨-, -, -, -, -, distinct⟩ := compile_slots attributes_shadeModifiers h
  refine ⟨_, ⟨attributes_shadeModifiers, h⟩, rfl, distinct.2 fun x hx y hy _ words same => ?_⟩
  have dark : (shadeSite .base "inkDark").words ≠ (shadeSite .base "inkLight").words := by
    decide +kernel
  replace hx : x ∈ [shadeSite .base "inkDark", shadeSite .base "inkLight",
    shadeSite darkContext "inkDark"] := hx
  replace hy : y ∈ [shadeSite .base "inkDark", shadeSite .base "inkLight",
    shadeSite darkContext "inkDark"] := hy
  simp only [List.mem_cons, List.not_mem_nil, or_false] at hx hy
  rcases hx with rfl | rfl | rfl
  · rcases hy with rfl | rfl | rfl
    · rfl
    · exact absurd words dark
    · exact absurd same id
  · rcases hy with rfl | rfl | rfl
    · exact absurd words.symm dark
    · rfl
    · exact absurd same id
  · rcases hy with rfl | rfl | rfl
    · exact absurd same id
    · exact absurd same id
    · rfl

/-- Two colors whose names have the same words are declared under one name. -/
theorem overwritten_shadeTrees : ∃ out x y,
    (∀ m ∈ shadeModifiers, m.dataAttribute = Modifier.attributeOf m.name) ∧
    compile (shadeTrees "ink-dark") shadeModifiers .standard = .ok out ∧
    x ∈ out.sites ∧ y ∈ out.sites ∧ x.context = y.context ∧ x.path ≠ y.path ∧
    x.slot shadeModifiers Settings.standard.output.themeAttribute =
      y.slot shadeModifiers Settings.standard.output.themeAttribute ∧
    ¬ (out.slots Settings.standard.output).Nodup := by
  refine ⟨_, shadeSite .base "inkDark", shadeSite .base "ink-dark", attributes_shadeModifiers,
    compile_shadeTrees "ink-dark" (by decide), by decide, by decide, rfl, by decide, by decide +kernel, ?_⟩
  rw [(perm_slots _ _).nodup_iff]
  decide +kernel

end DesignTokens
