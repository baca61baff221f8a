import DesignTokens.Proofs.Compile.Files
import DesignTokens.Proofs.Compile.Interpolation
import DesignTokens.Proofs.Compile.Overlays
import DesignTokens.Proofs.Css.Contained
import DesignTokens.Proofs.Resolution.Names

/-!
# Stylesheets that are read back

Names, texts and the names of contexts are put into stylesheets as they are. What is written is read back as
the rules that were meant exactly if every selector, name and value of them is whole, and so it is if each of
the texts keeps to itself.

* `mem_declarations`, `query_of_mem_contextRules`: where the parts of a rule come from;
* `Tidy`: a token whose name and texts keep to themselves; `contained_text`, **`clean_of_tidy`**: what it
  declares; `tidy_of_plainString`: a token with plain strings;
* `braces_of_tokenIn?`, `braces_of_mem_declarations`: names never have braces;
* `parts_of_mem_rulesOf`: the tokens behind a rule of a file;
* **`compile_read`**: what the files of a compilation are read as;
* `inkTrees`: these colors are read back; `spillTree`: a color that ends its declaration is not.
-/

namespace DesignTokens

/-! ## Parts of rules -/

theorem mem_declarations {ct : CssToken} {sel : String} {d : Declaration}
    (h : d ∈ ct.declarations sel) :
    (d.property = Name.customProperty ct.path ∨ ∃ parts, ct.value.body = .entries parts ∧
      ∃ p ∈ parts, d.property = Name.customProperty ct.path ++ "-" ++ Name.kebab p.1) ∧
    ∃ text ∈ ct.value.texts, d.value = Name.renderReferences text := by
  unfold CssToken.declarations at h
  unfold CssValue.texts
  rcases List.mem_append.1 h with h | h
  · cases body : ct.value.body with
    | single text =>
      rw [body] at h
      rw [List.mem_singleton.1 h]
      exact ⟨.inl rfl, text, by simp, rfl⟩
    | entries parts =>
      rw [body] at h
      obtain ⟨p, hp, rfl⟩ := List.mem_map.1 h
      exact ⟨.inr ⟨parts, rfl, p, hp, rfl⟩, p.2,
        List.mem_append_left _ (List.mem_map_of_mem hp), rfl⟩
  · obtain ⟨f, hf, rfl⟩ := List.mem_map.1 h
    exact ⟨.inl rfl, f.text, List.mem_append_right _ (List.mem_map_of_mem hf), rfl⟩

theorem query_of_mem_contextRules {sel : String} {tokens : List CssToken} {r : CssRule}
    (h : r ∈ contextRules sel tokens) {q : String} (hq : r.query = some q) :
    ∃ ct ∈ tokens, ∃ f ∈ ct.value.features, f.query = q := by
  have among : some q ∈ (contextRules sel tokens).map CssRule.query := hq ▸ List.mem_map_of_mem h
  rw [queries_contextRules, List.mem_cons] at among
  obtain ⟨key, hkey, same⟩ := List.mem_map.1 (among.resolve_left fun none => nomatch none)
  cases same
  obtain ⟨d, hd, rfl⟩ := List.mem_map.1 (mem_keys_groupByKey.1 hkey)
  obtain ⟨ct, hct, hd⟩ := List.mem_flatMap.1 hd
  obtain ⟨f, hf, rfl⟩ := List.mem_map.1 hd
  exact ⟨ct, hct, f, hf, rfl⟩

/-! ## Tokens -/

/-- The path of the token and those that it refers to are plain, and what its value brings along to its texts
keeps to itself. -/
structure Tidy (trees : List Tree) (c : Context) (rt : ResolvedToken) (ct : CssToken) : Prop where
  path : PlainPath ct.path
  targets : ∀ r ∈ (writtenIn trees c rt).references, PlainPath r.path
  texts : ∀ text ∈ ct.value.texts, ∀ s, (operand (pathsOf trees c) rt).Brings s →
    s.toList <:+: text.toList → Contained s

section Trees

variable {trees : List Tree} {modifiers : List Modifier} {settings : Settings} {out : Compiled}
  {c : Context} {path : String} {rt : ResolvedToken} {ct : CssToken}

/-- **Every text of a tidy token** keeps to itself. -/
theorem contained_text {transforms : Transforms} {errors : List Diagnostic}
    (conv : convertToken? transforms errors (pathsOf trees c) rt = .ok (some ct))
    (tidy : Tidy trees c rt ct) {text : String} (ht : text ∈ ct.value.texts) : Contained text := by
  rcases part_or_composed conv ht with ⟨target, kp, whole, known, -, rfl⟩ | composed
  · have plain := tidy.targets target (by simp [Json.references_of_reference whole])
    exact contained_reference (isPath_part (ofJson?_eq_some_iff.1 whole).2 known)
      (plain.append (plainPath_property kp known))
  · exact contained_of_composed composed (tidy.texts text ht)

/-- **A token with plain strings** is tidy, unless the JSON text of a list or an object in its value stands in
one of its texts. -/
theorem tidy_of_plainString (path : PlainPath ct.path)
    (strings : ∀ s, rt.raw.Holds s ∨ rt.value.Holds s → PlainString s)
    (json : ∀ j : Json, j.Inside rt.raw ∨ j.Inside rt.value → ¬ j.IsScalar →
      ∀ text ∈ ct.value.texts, ¬ j.compact.toList <:+: text.toList) : Tidy trees c rt ct := by
  have written : writtenIn trees c rt = rt.raw ∨ writtenIn trees c rt = rt.value := by
    unfold writtenIn operand
    split
    · exact .inl rfl
    · exact .inr rfl
  have held {s : String} (h : (writtenIn trees c rt).Holds s) : PlainString s := by
    rcases written with same | same
    · exact strings s (.inl (same ▸ h))
    · exact strings s (.inr (same ▸ h))
  refine ⟨path, fun r hr => ?_, fun text ht s brings part => ?_⟩
  · obtain ⟨s, hs, parsed⟩ := Json.mem_references_iff.1 hr
    exact (held hs).plainPath parsed
  · cases brings with
    | string h =>
      rw [resolved_operand] at h
      exact (contained_of_plainString (h.elim held fun h => strings s (.inr h))).1
    | family h => exact (contained_of_plainString (held h)).2
    | @json j inside kind =>
      have inside : j.Inside (writtenIn trees c rt) := inside
      rcases written with same | same
      · exact absurd part (json j (.inl (same ▸ inside)) kind text ht)
      · exact absurd part (json j (.inr (same ▸ inside)) kind text ht)

theorem tidy_of_str (path : PlainPath ct.path) {s v : String} (raw : rt.raw = .str s)
    (value : rt.value = .str v) (hs : PlainString s) (hv : PlainString v) : Tidy trees c rt ct := by
  refine tidy_of_plainString path (fun t held => ?_) fun j inside kind => ?_
  · rw [raw, value] at held
    rcases held with held | held
    · cases held
      exact hs
    · cases held
      exact hv
  · rw [raw, value] at inside
    rcases inside with inside | inside
    · cases inside
      exact absurd trivial kind
    · cases inside
      exact absurd trivial kind

theorem property_of_mem_declarations {transforms : Transforms} {errors : List Diagnostic}
    (conv : convertToken? transforms errors (pathsOf trees c) rt = .ok (some ct))
    {sel : String} {d : Declaration} (hd : d ∈ ct.declarations sel) :
    d.property = Name.customProperty ct.path ∨
      ∃ kp ∈ typographyProperties, d.property = Name.customProperty (ct.path ++ "." ++ kp.2) := by
  obtain ⟨-, -, value, -, -⟩ := convertToken?_eq_some_iff.1 conv
  refine (mem_declarations hd).1.imp_right ?_
  rintro ⟨parts, body, p, hp, name⟩
  obtain ⟨known, keys⟩ := keys_of_convert? value body
  have key : p.1 ∈ (typographyProperties.filter known).map Prod.snd := keys ▸ List.mem_map_of_mem hp
  obtain ⟨kp, hkp, same⟩ := List.mem_map.1 key
  have hkp := (List.mem_filter.1 hkp).1
  exact ⟨kp, hkp, by rw [name, ← same, customProperty_append (isPath_property kp hkp).1]⟩

theorem space_of_mem_features {transforms : Transforms} {errors : List Diagnostic}
    (conv : convertToken? transforms errors (pathsOf trees c) rt = .ok (some ct)) {f : FeatureValue}
    (hf : f ∈ ct.value.features) : ∃ space, featureQuery? space = some f.query := by
  obtain ⟨-, -, value, -, -⟩ := convertToken?_eq_some_iff.1 conv
  rcases forms_of_convert? value with ⟨text, features, same, -, queries⟩ | ⟨-, parts, same⟩
  · rw [same] at hf
    exact queries f hf
  · rw [same] at hf
    cases hf

/-- **What a tidy token declares** is clean. -/
theorem clean_of_tidy {transforms : Transforms} {errors : List Diagnostic}
    (conv : convertToken? transforms errors (pathsOf trees c) rt = .ok (some ct))
    (tidy : Tidy trees c rt ct) {sel : String} {d : Declaration} (hd : d ∈ ct.declarations sel) :
    isPropertyName d.property.toList = true ∧ isWhole valueStops d.value.toList = true := by
  constructor
  · rcases property_of_mem_declarations conv hd with name | ⟨kp, hkp, name⟩
    · exact name ▸ isPropertyName_customProperty tidy.path
    · exact name ▸ isPropertyName_customProperty (tidy.path.append (plainPath_property kp hkp))
  · obtain ⟨text, ht, value⟩ := (mem_declarations hd).2
    exact value ▸ (contained_text conv tidy ht).neutral.isWhole

theorem braces_of_tokenIn? (parsed : ∀ t ∈ trees, t.Parsed) (h : tokenIn? trees c path = some rt) :
    ∀ ch ∈ ['\x7b', '\x7d'], ch ∉ path.toList := by
  obtain ⟨t, ht, rfl, -⟩ := denotes_of_token? (keyed_flatten trees) h
  obtain ⟨tree, htree, token, found, -⟩ := exists_token?_of_mem_declared parsed ht
  have names := names_of_token? (parsed tree htree) found
  have free : t.path.toList.all (· ∉ ['\x7b', '\x7d']) = true := by
    refine (all_splitOn_iff (show decide ('.' ∉ ['\x7b', '\x7d']) = true by decide)).2 fun name hn c hc => ?_
    obtain ⟨opening, closing, -⟩ := (names name hn).2 c hc
    simp [opening, closing]
  exact fun ch hch mem => of_decide_eq_true (List.all_eq_true.1 free ch mem) hch

theorem braces_of_mem_declarations {transforms : Transforms} {errors : List Diagnostic}
    (conv : convertToken? transforms errors (pathsOf trees c) rt = .ok (some ct))
    (braces : ∀ ch ∈ ['\x7b', '\x7d'], ch ∉ ct.path.toList)
    {sel : String} {d : Declaration} (hd : d ∈ ct.declarations sel) :
    ∀ ch ∈ ['\x7b', '\x7d'], ch ∉ d.property.toList := by
  have others : ∀ ch ∈ ['\x7b', '\x7d'], ch ≠ '-' ∧ ¬ Name.IsLetterBeyond ch ∧
      ∀ kp ∈ typographyProperties, ch ∉ ("." ++ kp.2).toList := List.all_iff_forall_prop.1 (by decide)
  intro ch hch
  obtain ⟨hyphen, letter, parts⟩ := others ch hch
  rcases property_of_mem_declarations conv hd with name | ⟨kp, hkp, name⟩
  · exact name ▸ Name.notMem_customProperty hyphen letter (braces ch hch)
  · refine name ▸ Name.notMem_customProperty hyphen letter fun mem => ?_
    rw [String.append_assoc, String.toList_append, List.mem_append] at mem
    exact mem.elim (braces ch hch) (parts kp hkp)

/-! ## Files -/

theorem parts_of_mem_rulesOf (h : compile trees modifiers settings = .ok out) {file : Path} {r : CssRule}
    (hr : r ∈ rulesOf modifiers settings.output out.tokens file) :
    ∃ c list, out.tokens.get? c = some list ∧
      r.selector = selector modifiers settings.output.themeAttribute c ∧
      (∃ ct ∈ list, targetFile settings.output ct = file) ∧
      (∀ q ∈ r.query, ∃ space, featureQuery? space = some q) ∧
      ∀ d ∈ r.properties, ∃ ct ∈ list, targetFile settings.output ct = file ∧
        ∃ rt, tokenIn? trees c ct.path = some rt ∧
          convertToken? settings.transforms (errorsOf trees c) (pathsOf trees c) rt = .ok (some ct) ∧
          ⟨r.selector, r.query, d.1, d.2⟩ ∈ ct.declarations r.selector := by
  obtain ⟨-, converted, -⟩ := compile_eq_ok h
  obtain ⟨⟨c, list⟩, he, hr⟩ := List.mem_flatMap.1 hr
  have hl : out.tokens.get? c = some list :=
    (Table.get?_eq_some_iff (nodup_keys_of_convertAll converted)).2 he
  have tokens := (converted_of_compile h hl).mem
  unfold contextRulesOf at hr
  dsimp only at hr
  split at hr
  · cases hr
  · rename_i full
    have own {ct : CssToken} (hct : ct ∈ list.filter (targetFile settings.output · = file)) :
        ct ∈ list ∧ targetFile settings.output ct = file := by
      simpa using List.mem_filter.1 hct
    obtain ⟨same, declarations⟩ := declarations_of_mem_contextRules hr
    refine ⟨c, list, hl, same, ?_, fun q hq => ?_, fun d hd => ?_⟩
    · obtain ⟨ct, hct⟩ := List.exists_mem_of_ne_nil _ fun none => full (List.isEmpty_iff.2 none)
      exact ⟨ct, own hct⟩
    · obtain ⟨ct, hct, feature, hfeature, rfl⟩ := query_of_mem_contextRules hr hq
      obtain ⟨rt, -, conv⟩ := (tokens ct).1 (own hct).1
      exact space_of_mem_features conv hfeature
    · have mem : ⟨r.selector, r.query, d.1, d.2⟩ ∈ r.declarations :=
        List.mem_map_of_mem (f := fun d : String × String => Declaration.mk _ _ d.1 d.2) hd
      rw [declarations] at mem
      obtain ⟨ct, hct, mem⟩ := List.mem_flatMap.1 (List.mem_filter.1 mem).1
      obtain ⟨rt, hrt, conv⟩ := (tokens ct).1 (own hct).1
      exact ⟨ct, (own hct).1, (own hct).2, rt, hrt, conv, same ▸ mem⟩

/-- **What the files of a compilation are read as.** The text of a file is read as the rules that were
meant exactly if all of them are clean: their selectors, queries, names and values are whole. Queries
always are, and so is the selector of a context whose attribute and name may stand in it; no name has a
brace. A string of most simple types is the value as it is, with uses in the place of references. The
name and the value of a declaration are whole if its token is tidy, whatever the others are. So the file
is read back if the contexts with tokens in it may stand in selectors and these tokens are tidy. -/
theorem compile_read (parsed : ∀ t ∈ trees, t.Parsed) (h : compile trees modifiers settings = .ok out)
    {f : CssFile} (hf : f ∈ out.files) :
    ∃ rules, rules = rulesOf modifiers settings.output out.tokens f.path ∧ f.text = Sheet.text ⟨rules⟩ ∧
      (Sheet.read? f.text = some rules ↔ ∀ r ∈ rules, r.isClean = true) ∧
      (∀ r ∈ rules, (∀ q ∈ r.query, isPrelude true q.toList = true) ∧
        ∃ c list, out.tokens.get? c = some list ∧
          r.selector = selector modifiers settings.output.themeAttribute c ∧
          (Addressable modifiers settings.output.themeAttribute c →
            isPrelude false r.selector.toList = true) ∧
          ∀ d ∈ r.properties, '{' ∉ d.1.toList ∧ '}' ∉ d.1.toList ∧
            ∃ ct ∈ list, ∃ rt, tokenIn? trees c ct.path = some rt ∧
              (ct.type.isVerbatim = true → ∀ s, writtenIn trees c rt = .str s →
                d.2 = Name.renderReferences s) ∧
              (Tidy trees c rt ct →
                isPropertyName d.1.toList = true ∧ isWhole valueStops d.2.toList = true)) ∧
      ((∀ c list, out.tokens.get? c = some list → ∀ ct ∈ list, targetFile settings.output ct = f.path →
          Addressable modifiers settings.output.themeAttribute c ∧
          ∀ rt, tokenIn? trees c ct.path = some rt → Tidy trees c rt ct) →
        Sheet.read? f.text = some rules) := by
  have text : f.text = Sheet.text ⟨rulesOf modifiers settings.output out.tokens f.path⟩ := by
    rw [(compile_eq_ok h).2.2.1] at hf
    exact (mem_generate_iff.1 hf).2
  refine ⟨_, rfl, text, text ▸ read?_text_iff, fun r hr => ?_, fun tidy => ?_⟩
  · obtain ⟨c, list, hl, same, -, queries, parts⟩ := parts_of_mem_rulesOf h hr
    refine ⟨fun q hq => (queries q hq).elim fun _ => isPrelude_query, c, list, hl, same,
      fun fine => same ▸ isPrelude_selector fine, fun d hd => ?_⟩
    obtain ⟨ct, hct, -, rt, hrt, conv, mem⟩ := parts d hd
    have braces := braces_of_mem_declarations conv (braces_of_tokenIn? parsed hrt) mem
    refine ⟨braces _ (by decide), braces _ (by decide), ct, hct, rt, hrt, fun verbatim s written => ?_,
      fun tidy => clean_of_tidy conv tidy mem⟩
    obtain ⟨text, ht, value⟩ := (mem_declarations mem).2
    exact eq_of_mem_texts conv verbatim written ht ▸ value
  · rw [text, read?_text_iff]
    intro r hr
    obtain ⟨c, list, hl, same, ⟨ct, hct, target⟩, queries, parts⟩ := parts_of_mem_rulesOf h hr
    have fine := (tidy c list hl ct hct target).1
    simp only [CssRule.isClean, Bool.and_eq_true, List.all_eq_true]
    refine ⟨⟨same ▸ isPrelude_selector fine, ?_⟩, fun d hd => ?_⟩
    · cases hq : r.query with
      | none => rfl
      | some q => exact (queries q hq).elim fun _ => isPrelude_query
    · obtain ⟨ct, hct, target, rt, hrt, conv, mem⟩ := parts d hd
      exact clean_of_tidy conv ((tidy c list hl ct hct target).2 rt hrt) mem

end Trees

/-! ## Colors that are read back -/

theorem tokenIn?_inkTrees : ∀ p ∈ [(Context.base, "base.json", "ink", "#000", "#000"),
    (.base, "base.json", "text", "\x7bink\x7d", "#000"), (nightContext, "night.json", "ink", "#fff", "#fff"),
    (nightContext, "night.json", "title", "\x7btext\x7d", "#fff")],
    tokenIn? (inkTrees (some .color)) p.1 p.2.2.1 =
      some (inkResolved p.1 p.2.1 p.2.2.1 p.2.2.2.1 p.2.2.2.2) := by
  unfold tokenIn?
  rw [resolveAll_inkTrees _ List.mem_cons_self]
  simp only [List.forall_mem_cons, List.not_mem_nil, false_imp_iff, implies_true, and_true]
  exact ⟨rfl, rfl, rfl, rfl⟩

theorem plainString_inkTrees : ∀ s ∈ ["#000", "#fff", "\x7bink\x7d", "\x7btext\x7d"], PlainString s := by
  simp only [List.forall_mem_cons, List.not_mem_nil, false_imp_iff, implies_true, and_true]
  exact ⟨.inl (List.all_iff_forall_prop.1 (by decide)), .inl (List.all_iff_forall_prop.1 (by decide)),
    .inr ⟨⟨"ink"⟩, by decide, by decide⟩, .inr ⟨⟨"text"⟩, by decide, by decide⟩⟩

theorem tidy_inkTrees {c : Context} {list : List CssToken}
    (hl : (inkOutput (some .color)).tokens.get? c = some list) {ct : CssToken} (hct : ct ∈ list)
    {rt : ResolvedToken} (hrt : tokenIn? (inkTrees (some .color)) c ct.path = some rt) :
    Tidy (inkTrees (some .color)) c rt ct := by
  have plain := plainString_inkTrees
  simp only [List.forall_mem_cons, List.not_mem_nil, false_imp_iff, implies_true, and_true] at plain
  obtain ⟨black, white, toInk, toText⟩ := plain
  have keys : (inkOutput (some .color)).tokens.keys.Nodup := show [Context.base, nightContext].Nodup by decide
  have entry : (c, list) ∈ [(Context.base, inkBase (some .color)), (nightContext, inkNight)] :=
    (Table.get?_eq_some_iff keys).1 hl
  have found := tokenIn?_inkTrees
  simp only [List.forall_mem_cons, List.not_mem_nil, false_imp_iff, implies_true, and_true] at found
  obtain ⟨ink, text, night, title⟩ := found
  simp only [List.mem_cons, List.not_mem_nil, or_false, Prod.mk.injEq] at entry
  rcases entry with ⟨rfl, rfl⟩ | ⟨rfl, rfl⟩
  · simp only [inkBase, List.mem_cons, List.not_mem_nil, or_false] at hct
    rcases hct with rfl | rfl
    · cases ink.symm.trans hrt
      exact tidy_of_str (by decide) rfl rfl black black
    · cases text.symm.trans hrt
      exact tidy_of_str (by decide) rfl rfl toInk black
  · simp only [inkNight, List.mem_cons, List.not_mem_nil, or_false] at hct
    rcases hct with rfl | rfl
    · cases night.symm.trans hrt
      exact tidy_of_str (by decide) rfl rfl white white
    · cases title.symm.trans hrt
      exact tidy_of_str (by decide) rfl rfl toText white

/-- The two colors, in the base and at night, are read back. -/
theorem compile_read_inkTrees : (∀ t ∈ inkTrees (some .color), t.Parsed) ∧
    compile (inkTrees (some .color)) [] .standard = .ok (inkOutput (some .color)) ∧
    ∃ f ∈ (inkOutput (some .color)).files, Sheet.read? f.text =
      some (rulesOf [] Settings.standard.output (inkOutput (some .color)).tokens f.path) := by
  have typed : some TokenType.color ∈ inkTypes := List.mem_cons_self
  have compiled := compile_inkTrees _ typed
  have file : ⟨Settings.standard.output.variablesFile, _⟩ ∈ (inkOutput (some .color)).files :=
    mem_generate_of_rulesOf rfl (by decide +kernel)
  refine ⟨parsed_inkTrees _ typed, compiled, _, file, ?_⟩
  obtain ⟨rules, rfl, -, -, -, reads⟩ := compile_read (parsed_inkTrees _ typed) compiled file
  refine reads fun c list hl ct hct _ => ⟨?_, fun rt hrt => tidy_inkTrees hl hct hrt⟩
  have among : c ∈ [Context.base, nightContext] := Table.mem_keys_of_get?_eq_some hl
  rcases List.mem_cons.1 among with rfl | among
  · exact fun _ none => nomatch none
  · obtain rfl := List.mem_singleton.1 among
    intro p same
    cases same
    exact ⟨List.all_iff_forall_prop.1 (by decide), List.all_iff_forall_prop.1 (by decide)⟩

/-! ## A color that ends its declaration -/

/-- A color with a semicolon, and what looks like another declaration. -/
def spillTree : Tree :=
  ⟨.base, ⟨.empty, [
    ("ink", .token ⟨.str "red; --x: blue", some .color, none, none, some ⟨"t.json"⟩⟩)]⟩, ⟨"t.json"⟩⟩

/-- The document of the color. -/
def spillDocument : Json :=
  .obj [("ink", .obj [("$type", .str "color"), ("$value", .str "red; --x: blue")])]

theorem parsed_spillTree : ∀ t ∈ [spillTree], t.Parsed := by
  rw [List.forall_mem_singleton]
  refine ⟨⟨"t.json"⟩, spillDocument, ?_, rfl⟩
  simp [spillDocument, Json.Distinct, Json.MembersDistinct]

/-- The merged color. -/
def spillToken : FlatToken :=
  ⟨"ink", ["ink"], .str "red; --x: blue", some .color, none, none, ⟨⟨"t.json"⟩, .base⟩⟩

theorem resolveAll_spillTree : resolveAll (flatten [spillTree]) =
    ⟨⟨[(.base, ⟨[("ink", ⟨spillToken, .str "red; --x: blue"⟩)]⟩)]⟩, []⟩ :=
  resolveAll_of_within 1 rfl

/-- The finding about the color, which is no error. -/
def spillWarning : Diagnostic :=
  ⟨.warning, "valid-color", "'red; --x: blue' is not a hex color or color object and is passed through as-is",
    "ink", ⟨⟨"t.json"⟩, .base⟩, none⟩

theorem diagnose_spillTree :
    diagnose (flatten [spillTree]) (resolveAll (flatten [spillTree])) = [spillWarning] := by
  rw [resolveAll_spillTree]
  decide +kernel

/-- The converted color. -/
def spillCss : CssToken := ⟨"ink", .color, ⟨⟨"t.json"⟩, .base⟩, .single "red; --x: blue"⟩

/-- The compiled color. -/
def spillOutput : Compiled :=
  ⟨generate [] Settings.standard.output ⟨[(.base, [spillCss])]⟩, [spillWarning], [], ⟨[(.base, [spillCss])]⟩⟩

theorem compile_spillTree : compile [spillTree] [] .standard = .ok spillOutput := by
  refine compile_of_convertAll (by decide) diagnose_spillTree ?_
  rw [resolveAll_spillTree]
  rfl

/-- **A color that ends its declaration**: the one declaration of the only rule is read as two. -/
theorem spilled_spillTree : (∀ t ∈ [spillTree], t.Parsed) ∧ ∃ out,
    compile [spillTree] [] .standard = .ok out ∧ out.hasErrors = false ∧ ∃ f ∈ out.files,
      rulesOf [] Settings.standard.output out.tokens f.path =
        [⟨":root", [("--ink", "red; --x: blue")], none⟩] ∧
      Sheet.read? f.text = some [⟨":root", [("--ink", "red"), ("--x", "blue")], none⟩] := by
  have rules : rulesOf [] Settings.standard.output spillOutput.tokens
      Settings.standard.output.variablesFile = [⟨":root", [("--ink", "red; --x: blue")], none⟩] := by
    decide +kernel
  refine ⟨parsed_spillTree, spillOutput, compile_spillTree, by decide, _,
    mem_generate_of_rulesOf rules (List.cons_ne_nil _ _), rules, ?_⟩
  decide +kernel

end DesignTokens
