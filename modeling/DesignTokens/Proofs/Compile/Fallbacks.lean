import DesignTokens.Proofs.Compile.Gradients
import DesignTokens.Proofs.Compile.Slots
import DesignTokens.Proofs.Compile.Strays

/-!
# Colors with and without stand-ins

The same trees compiled twice: once every color is written as it is, and once those that not every browser
knows are behind a query, with a stand-in for the others. Of a color object the color space and the stand-in
may be references; what counts is the text that they stand for.

* `GivesText`, `HasText`: the text of a property of a value, read through a reference if it is one;
  **`hasText_writtenIn_iff`**: it is the text of this property of the resolved value;
* `CssValue.preferred`: what is seen where the queries hold;
* `Polyfilled`: one color in both compilations; **`polyfilled_of_convert?`**;
* `convert?_native_eq_polyfill`: the types of which no value depends on how colors are written;
* `Settings.withFallback`, `ConvertedTwice`: one token in both compilations;
* **`compile_fallbacks`**: the findings, contexts and tokens of both compilations;
* **`queried_seaTree`**: a query for a color object that names its color space by a reference.
-/

namespace DesignTokens

/-! ## Texts of properties -/

section Texts

variable (trees : List Tree) (c : Context)

/-- The text that a part of a value gives: its own, or, where it is a reference, that of the token at its path
as seen from the context. -/
def GivesText (part : Json) (text : String) : Prop :=
  match Reference.ofJson? part with
  | some r => ∃ R, Sees trees c r.path R ∧ R.value = .str text
  | none => part = .str text

/-- A value has a property that gives this text. -/
def HasText (key : String) (w : Json) (text : String) : Prop :=
  ∃ part, w.member? key = some part ∧ GivesText trees c part text

variable {trees c} {path : String} {rt : ResolvedToken}

theorem substitute_eq_str_iff {σ : Reference → Json} {j : Json} (whole : Reference.ofJson? j = none)
    {s : String} : j.substitute σ = .str s ↔ j = .str s := by
  by_cases text : ∃ t, j = .str t
  · obtain ⟨t, rfl⟩ := text
    rw [Json.substitute_str σ whole]
  · refine iff_of_false (substitute_ne_str (fun t h => text ⟨t, h⟩) s) fun h => text ⟨s, h⟩

/-- **The texts of what is written** are those of the resolved value. -/
theorem hasText_writtenIn_iff (hrt : tokenIn? trees c path = some rt)
    (whole : Reference.ofJson? (writtenIn trees c rt) = none) {key text : String} :
    HasText trees c key (writtenIn trees c rt) text ↔ rt.value.member? key = some (.str text) := by
  obtain ⟨found, operands, denoted⟩ := exists_operandIn hrt
  have resolved : (writtenIn trees c rt).substitute (fun r => (found r).value) = rt.value := by
    rw [← resolved_operand (pathsOf trees c) rt, operands]
    rfl
  rw [← resolved, Json.member?_substitute _ whole]
  unfold HasText
  cases hpart : (writtenIn trees c rt).member? key with
  | none => simp
  | some part =>
    simp only [Option.some.injEq, exists_eq_left', Option.map_some]
    unfold GivesText
    cases refers : Reference.ofJson? part with
    | none => exact (substitute_eq_str_iff refers).symm
    | some r =>
      have used : ⟨r, some key⟩ ∈ (writtenIn trees c rt).uses none :=
        Json.mem_uses_of_member? hpart none (by simp [Json.uses_of_reference refers])
      obtain ⟨u, seen, denotes, -⟩ := denoted _ used
      rw [Json.substitute_reference _ refers]
      constructor
      · rintro ⟨R, ⟨u', seen', denotes'⟩, text⟩
        obtain rfl : u = u' := Option.some.inj (seen.symm.trans seen')
        exact denotes.unique denotes' ▸ text
      · exact fun text => ⟨found r, ⟨u, seen, denotes⟩, text⟩

end Texts

/-! ## Colors -/

/-- What is seen of a value where its queries hold. -/
def CssValue.preferred (v : CssValue) : CssValue :=
  match v.features with
  | [] => v
  | f :: _ => .single f.text

theorem isSome_featureQuery?_iff {space : String} :
    (featureQuery? space).isSome = true ↔ space ∈ ["oklch", "display-p3"] := by
  unfold featureQuery?
  split
  · simp [*]
  · split <;> simp [*]

/-! ## One color twice -/

/-- A color as it is handed over in a context, in both compilations: the one without queries is what is
seen of the other one where its queries hold. There is at most one query, exactly for an object whose
color space is one that not every browser knows; with it goes the stand-in of the color. -/
structure Polyfilled (trees : List Tree) (c : Context) (w : Json) (native polyfill : CssValue) : Prop where
  preferred : native = polyfill.preferred
  atMostOne : polyfill.features.length ≤ 1
  queried : polyfill.features ≠ [] ↔ ∃ space ∈ ["oklch", "display-p3"], HasText trees c "colorSpace" w space
  standIn : polyfill.features ≠ [] →
    ∃ hex, HasText trees c "hex" w hex ∧ polyfill.body = .single hex

section Color

variable {trees : List Tree} {c : Context} {viewports : Viewports} {path : String} {o : Operand}
  {native polyfill : CssValue}

theorem polyfilled_text {s : String} (text : String) :
    Polyfilled trees c (.str s) (.single text) (.single text) where
  preferred := rfl
  atMostOne := Nat.zero_le _
  queried := iff_of_false (fun h => h rfl) fun ⟨_, _, _, h, _⟩ => nomatch h
  standIn h := absurd rfl h

theorem polyfilled_of_convertColor (structured : ∀ s, o.raw ≠ .str s)
    (texts : ∀ key text, HasText trees c key o.raw text ↔ o.resolved.member? key = some (.str text))
    (hn : convertColor ⟨viewports, .native⟩ path o = .ok native)
    (hp : convertColor ⟨viewports, .polyfill⟩ path o = .ok polyfill) :
    Polyfilled trees c o.raw native polyfill := by
  obtain ⟨-, space, text, hspace, htext, rfl⟩ :=
    (convertColor_eq_ok_iff.1 hn).resolve_left fun ⟨s, raw, _⟩ => structured s raw
  obtain ⟨-, space', text', hspace', htext', hp⟩ :=
    (convertColor_eq_ok_iff.1 hp).resolve_left fun ⟨s, raw, _⟩ => structured s raw
  obtain rfl : space = space' := Json.str.inj (Option.some.inj (hspace.symm.trans hspace'))
  obtain rfl : text = text' := Except.ok.inj (htext.symm.trans htext')
  have wide : (∃ space ∈ ["oklch", "display-p3"], HasText trees c "colorSpace" o.raw space) ↔
      (featureQuery? space).isSome = true := by
    rw [isSome_featureQuery?_iff]
    constructor
    · rintro ⟨space', wide, h⟩
      obtain rfl : space = space' :=
        Json.str.inj (Option.some.inj (hspace.symm.trans ((texts _ _).1 h)))
      exact wide
    · exact fun h => ⟨space, h, (texts _ _).2 hspace⟩
  have behind : Transforms.query? ⟨viewports, .polyfill⟩ space = featureQuery? space := rfl
  cases query : featureQuery? space with
  | none =>
    rw [query] at wide
    rw [behind, query] at hp
    obtain rfl := hp
    exact {
      preferred := rfl
      atMostOne := Nat.zero_le _
      queried := iff_of_false (fun h => h rfl) fun h => nomatch wide.1 h
      standIn := fun h => absurd rfl h }
  | some query =>
    rw [query] at wide
    rw [behind, query] at hp
    obtain ⟨hex, hhex, rfl⟩ := hp
    exact {
      preferred := rfl
      atMostOne := le_rfl
      queried := iff_of_true (List.cons_ne_nil _ _) (wide.2 rfl)
      standIn := fun _ => ⟨hex, (texts _ _).2 hhex, rfl⟩ }

/-- **A color in both compilations.** -/
theorem polyfilled_of_convert?
    (texts : Reference.ofJson? o.raw = none → ∀ key text,
      HasText trees c key o.raw text ↔ o.resolved.member? key = some (.str text))
    (hn : convert? ⟨viewports, .native⟩ path .color o = .ok (some native))
    (hp : convert? ⟨viewports, .polyfill⟩ path .color o = .ok (some polyfill)) :
    Polyfilled trees c o.raw native polyfill := by
  cases whole : Reference.ofJson? o.raw with
  | some r =>
    rw [convert?_of_whole whole (by simp)] at hn hp
    cases hn
    cases hp
    obtain ⟨same, -⟩ := ofJson?_eq_some_iff.1 whole
    rw [same]
    exact polyfilled_text r.text
  | none =>
    rw [convert?_color whole] at hn hp
    obtain ⟨_, hn, same⟩ := map_eq_ok.1 hn
    cases same
    obtain ⟨_, hp, same⟩ := map_eq_ok.1 hp
    cases same
    by_cases text : ∃ s, o.raw = .str s
    · obtain ⟨s, raw⟩ := text
      unfold convertColor at hn hp
      rw [raw] at hn hp ⊢
      cases hn
      cases hp
      exact polyfilled_text s
    · exact polyfilled_of_convertColor (fun s h => text ⟨s, h⟩) (texts whole) hn hp

end Color

/-! ## Other values -/

theorem convert?_native_eq_polyfill {viewports : Viewports} {path : String} {type : TokenType}
    (other : type ∉ [.color, .border, .shadow, .gradient]) (o : Operand) :
    convert? ⟨viewports, .native⟩ path type o = convert? ⟨viewports, .polyfill⟩ path type o := by
  cases type with
  | color | border | shadow | gradient => simp at other
  | dimension | fluidDimension | duration | cubicBezier | number | fontFamily | fontWeight | typography
  | transition | strokeStyle | unknown _ => rfl

/-! ## Whole compilations -/

/-- The same settings with colors written in another way. -/
def Settings.withFallback (s : Settings) (fallback : ColorFallback) : Settings :=
  { s with transforms := { s.transforms with colorFallback := fallback } }

/-- One token of a context in both compilations. -/
structure ConvertedTwice (trees : List Tree) (c : Context) (native polyfill : CssToken) : Prop where
  path : native.path = polyfill.path
  type : native.type = polyfill.type
  origin : native.origin = polyfill.origin
  other : native.type ∉ [.color, .border, .shadow, .gradient] → native.value = polyfill.value
  color : native.type = .color → ∃ rt, tokenIn? trees c native.path = some rt ∧
    Polyfilled trees c (writtenIn trees c rt) native.value polyfill.value

section Trees

variable {trees : List Tree} {c : Context} {viewports : Viewports} {rt : ResolvedToken}

theorem convertedTwice_of_convertToken? (hrt : tokenIn? trees c rt.path = some rt)
    {native polyfill : CssToken}
    (hn : convertToken? ⟨viewports, .native⟩ (errorsOf trees c) (pathsOf trees c) rt =
      .ok (some native))
    (hp : convertToken? ⟨viewports, .polyfill⟩ (errorsOf trees c) (pathsOf trees c) rt =
      .ok (some polyfill)) : ConvertedTwice trees c native polyfill := by
  obtain ⟨-, type, value, path, origin⟩ := convertToken?_eq_some_iff.1 hn
  obtain ⟨-, type', value', path', origin'⟩ := convertToken?_eq_some_iff.1 hp
  have same : native.type = polyfill.type := Option.some.inj (type.symm.trans type')
  rw [← same] at value'
  refine ⟨path.trans path'.symm, same, origin.trans origin'.symm, fun other => ?_, fun color => ?_⟩
  · rw [convert?_native_eq_polyfill other] at value
    exact Option.some.inj (Except.ok.inj (value.symm.trans value'))
  · rw [color] at value value'
    refine ⟨rt, path ▸ hrt, polyfilled_of_convert? (fun whole key text => ?_) value value'⟩
    rw [resolved_operand]
    exact hasText_writtenIn_iff hrt whole

end Trees

/-- **The two ways to write colors.** Trees compiled with settings that differ in nothing else have the
same findings, the same contexts, and in every context the same tokens at the same paths. No value outside
colors, borders, shadows and gradients differs, and every color without queries is what is seen of the
other one where its queries hold. -/
theorem compile_fallbacks {trees : List Tree} {modifiers : List Modifier} {settings : Settings}
    {native polyfill : Compiled}
    (hn : compile trees modifiers (settings.withFallback .native) = .ok native)
    (hp : compile trees modifiers (settings.withFallback .polyfill) = .ok polyfill) :
    native.diagnostics = polyfill.diagnostics ∧ native.tokens.keys = polyfill.tokens.keys ∧
      ∀ c own own', native.tokens.get? c = some own → polyfill.tokens.get? c = some own' →
        List.Forall₂ (ConvertedTwice trees c) own own' := by
  obtain ⟨found, converted, -⟩ := compile_eq_ok hn
  obtain ⟨found', converted', -⟩ := compile_eq_ok hp
  refine ⟨found.trans found'.symm,
    (keys_of_convertAll converted).trans (keys_of_convertAll converted').symm, ?_⟩
  intro c own own' hown hown'
  obtain ⟨tokens, htokens, hn⟩ := convertContext_of_compile hn hown
  obtain ⟨tokens', htokens', hp⟩ := convertContext_of_compile hp hown'
  obtain rfl : tokens = tokens' := Option.some.inj (htokens.symm.trans htokens')
  have leftOut : ∀ t ∈ tokens.values, ∀ o o',
      convertToken? (settings.withFallback .native).transforms (errorsOf trees c) (pathsOf trees c) t =
        .ok o →
      convertToken? (settings.withFallback .polyfill).transforms (errorsOf trees c) (pathsOf trees c) t =
        .ok o' → o.isSome = o'.isSome := fun t _ o o' ho ho' =>
    Bool.eq_iff_iff.2 ((isSome_convertToken?_iff ho).trans (isSome_convertToken?_iff ho').symm)
  refine (forall₂_of_filterMapM leftOut hn hp).imp ?_
  rintro ct ct' ⟨rt, hrt, hct, hct'⟩
  exact convertedTwice_of_convertToken? ((mem_values_iff_tokenIn? htokens).1 hrt) hct hct'

/-! ## A sea and its crest -/

/-- A color object with three numbers. -/
def seaValue (space hex : String) : Json := .obj [("colorSpace", .str space),
  ("components", .arr [.num (.integer 1), .num (.integer 0), .num (.integer 0)]), ("hex", .str hex)]

/-- The tokens of the sea with their types and values, as written and as resolved: a text that names a
color space, a color, a color that not every browser knows, another name for it, and the same color with
references in place of its color space and its stand-in. -/
def seaValues : List (String × TokenType × Json × Json) := [
  ("tone", .fontFamily, .str "oklch", .str "oklch"),
  ("foam", .color, .str "#ffffff", .str "#ffffff"),
  ("sea", .color, seaValue "oklch" "#ffffff", seaValue "oklch" "#ffffff"),
  ("wave", .color, .str "\x7bsea\x7d", seaValue "oklch" "#ffffff"),
  ("crest", .color, seaValue "\x7btone\x7d" "\x7bfoam\x7d", seaValue "oklch" "#ffffff")]

/-- These tokens in a tree. -/
def seaTree : Tree where
  context := .base
  tokens := ⟨.empty, seaValues.map fun (name, type, value, _) =>
    (name, .token ⟨value, some type, none, none, some ⟨"sea.json"⟩⟩)⟩
  file := ⟨"sea.json"⟩

/-- One of these tokens with its value. -/
def seaToken (path : String) (type : TokenType) (value resolved : Json) : ResolvedToken :=
  ⟨⟨path, [path], value, some type, none, none, ⟨⟨"sea.json"⟩, .base⟩⟩, resolved⟩

theorem resolveAll_seaTree : resolveAll (flatten [seaTree]) =
    ⟨⟨[(.base, ⟨seaValues.map fun (path, type, value, resolved) =>
      (path, seaToken path type value resolved)⟩)]⟩, []⟩ :=
  resolveAll_of_within 2 rfl

theorem diagnose_seaTree : diagnose (flatten [seaTree]) (resolveAll (flatten [seaTree])) = [] := by
  rw [resolveAll_seaTree]
  decide +kernel

/-- The notation of the color. -/
def seaText : String := (colorText "sea" (seaValue "oklch" "#ffffff")).toOption.getD ""

/-- The color behind a query. -/
def seaPolyfill : CssValue := ⟨.single "#ffffff", [⟨"@supports (color: oklch(0 0 0))", seaText⟩]⟩

/-- The converted tokens, with the value of the color. -/
def seaCss (sea : CssValue) : List CssToken :=
  [("tone", .fontFamily, .single (familyText (.str "oklch"))), ("foam", .color, .single "#ffffff"),
    ("sea", .color, sea), ("wave", .color, .single "\x7bsea\x7d"), ("crest", .color, sea)].map
      fun (path, type, value) => ⟨path, type, ⟨⟨"sea.json"⟩, .base⟩, value⟩

theorem convertAll_seaTree :
    convertAll ⟨.standard, .native⟩ [] (resolveAll (flatten [seaTree])) =
      .ok ⟨[(.base, seaCss (.single seaText))]⟩ ∧
    convertAll ⟨.standard, .polyfill⟩ [] (resolveAll (flatten [seaTree])) =
      .ok ⟨[(.base, seaCss seaPolyfill)]⟩ := by
  rw [resolveAll_seaTree]
  exact ⟨rfl, rfl⟩

/-- What is compiled of these tokens, with the value of the color. -/
def seaOutput (sea : CssValue) : Compiled :=
  ⟨generate [] Settings.standard.output ⟨[(.base, seaCss sea)]⟩, [], [], ⟨[(.base, seaCss sea)]⟩⟩

theorem compile_seaTree :
    compile [seaTree] [] (Settings.standard.withFallback .native) = .ok (seaOutput (.single seaText)) ∧
    compile [seaTree] [] (Settings.standard.withFallback .polyfill) = .ok (seaOutput seaPolyfill) := by
  obtain ⟨hn, hp⟩ := convertAll_seaTree
  exact ⟨compile_of_convertAll (by decide) diagnose_seaTree hn,
    compile_of_convertAll (by decide) diagnose_seaTree hp⟩

/-- The color differs in the two compilations, and its other name does not. -/
theorem compile_fallbacks_seaTree :
    compile [seaTree] [] (Settings.standard.withFallback .native) = .ok (seaOutput (.single seaText)) ∧
    compile [seaTree] [] (Settings.standard.withFallback .polyfill) = .ok (seaOutput seaPolyfill) ∧
    List.Forall₂ (ConvertedTwice [seaTree] .base) (seaCss (.single seaText)) (seaCss seaPolyfill) := by
  obtain ⟨native, polyfill⟩ := compile_seaTree
  obtain ⟨-, -, tokens⟩ := compile_fallbacks native polyfill
  exact ⟨native, polyfill, tokens .base _ _ rfl rfl⟩

/-- The last token: its color space and its stand-in are references. -/
def seaCrest : ResolvedToken :=
  seaToken "crest" .color (seaValue "\x7btone\x7d" "\x7bfoam\x7d") (seaValue "oklch" "#ffffff")

theorem writtenIn_seaCrest :
    writtenIn [seaTree] .base seaCrest = seaValue "\x7btone\x7d" "\x7bfoam\x7d" := by
  unfold writtenIn pathsOf errorsOf
  rw [diagnose_seaTree, resolveAll_seaTree]
  rfl

/-- A color object that names one of the color spaces with a query itself. -/
def Json.IsWide (color : Json) : Prop :=
  ∃ space ∈ ["oklch", "display-p3"], color.member? "colorSpace" = some (.str space)

/-- **A query for a color space behind a reference**: the last token is handed over with its references,
so that the text of its color space is none of the two; still it has a query, and its primary value is
not the text of its stand-in but what this text refers to. -/
theorem queried_seaTree : ∃ ct,
    compile [seaTree] [] (Settings.standard.withFallback .native) = .ok (seaOutput (.single seaText)) ∧
    compile [seaTree] [] (Settings.standard.withFallback .polyfill) = .ok (seaOutput seaPolyfill) ∧
    tokenIn? [seaTree] .base "crest" = some seaCrest ∧ ct ∈ seaCss seaPolyfill ∧
    ct.path = "crest" ∧ ct.type = .color ∧
    ¬ (writtenIn [seaTree] .base seaCrest).IsWide ∧ ct.value.features ≠ [] ∧
    (writtenIn [seaTree] .base seaCrest).member? "hex" = some (.str "\x7bfoam\x7d") ∧
    ct.value.body = .single "#ffffff" := by
  have found : tokenIn? [seaTree] .base "crest" = some seaCrest := by
    unfold tokenIn?
    rw [resolveAll_seaTree]
    rfl
  refine ⟨⟨"crest", .color, ⟨⟨"sea.json"⟩, .base⟩, seaPolyfill⟩, compile_seaTree.1, compile_seaTree.2,
    found, by simp [seaCss], rfl, rfl, ?_, List.cons_ne_nil _ _, ?_, rfl⟩
  · rw [writtenIn_seaCrest]
    rintro ⟨space, wide, h⟩
    obtain rfl : "\x7btone\x7d" = space := Json.str.inj (Option.some.inj h)
    revert wide
    decide
  · rw [writtenIn_seaCrest]
    rfl

end DesignTokens
