import DesignTokens.Proofs.Css.Layers
import DesignTokens.Proofs.Css.Rules
import DesignTokens.Proofs.Resolution.Settled

/-!
# Aliases in overlays

A token of an overlay may be an alias of one that only the base declares, and that one may lead back to a
token that the overlay declares anew. Its custom property comes to the value as seen from the overlay if
everything on the way is written with its references; but a declaration of the base in which a reference
was replaced stays what it is in the base.

* `declaredOnce_of_compile`: what the rules of a context declare;
* **`compile_overlays`**: an alias of a context comes to what would be written for its value as seen from
  there, if all that it leads to follows the context; and an alias that comes to a token which is written
  without references does so exactly if that one is written alike;
* `inkTrees`: a color that a context declares anew, with an alias in the base and an alias of that one.
-/

namespace DesignTokens

open Relation

section Compile

variable {trees : List Tree} {modifiers : List Modifier} {settings : Settings} {out : Compiled}
  (h : compile trees modifiers settings = .ok out)

include h

theorem exists_list_of_base : ∃ list, out.tokens.get? .base = some list := by
  obtain ⟨-, converted, -⟩ := compile_eq_ok h
  rcases convertAll_eq_ok converted .base with ⟨none, -⟩ | ⟨_, list, -, hl, -⟩
  · have keyed := keyed_flatten trees
    rw [Table.get?_eq_none_iff, keys_resolveAll keyed, keys_flatten] at none
    exact absurd (List.mem_eraseDups.2 List.mem_cons_self) none
  · exact ⟨list, hl⟩

/-- **The rules of a context** in which no property is declared twice declare what its tokens are
converted to. -/
theorem declaredOnce_of_compile {c : Context} {list : List CssToken}
    (hl : out.tokens.get? c = some list)
    (once : (propertyNames (out.rules settings.output c)).Nodup) :
    DeclaredOnce settings.transforms trees c list ∧
      ((out.rules settings.output c).flatMap CssRule.properties).Perm
        ((declaredFragments list).map fun d => (d.1, written d.2)) := by
  have conv := converted_of_compile h hl
  have single : ∀ ct ∈ list, ct.value.features ≠ [] → ∃ text, ct.value.body = .single text := by
    intro ct hct
    obtain ⟨rt, -, hct⟩ := (conv.mem ct).1 hct
    exact single_of_features (convertToken?_eq_some_iff.1 hct).2.2.1
  obtain ⟨features, nodup, properties⟩ := declared_of_nodup hl single once
  exact ⟨⟨conv, features, nodup⟩, properties⟩

end Compile

/-- **Aliases in overlays.** In trees of documents whose strings have no braces but those of references,
with a context and a base whose rules declare no property twice, these rules declare what the tokens are
converted to. An alias of the context that is no gradient, its uses being replaced by what the context
declares and else by what the base declares, comes to what would be written for its value as seen from the
context if all that it leads to follows the context. If it is kept and comes, along aliases, to a token
that is written without references, it does so exactly if the value of that one is written alike where it
is declared. -/
theorem compile_overlays {trees : List Tree} (parsed : ∀ t ∈ trees, t.Parsed)
    (exact : ∀ t ∈ trees, ∀ path token, t.token? path = some token → token.value.Exact)
    {modifiers : List Modifier} {settings : Settings} {out : Compiled}
    (h : compile trees modifiers settings = .ok out) (c : Context) {own : List CssToken}
    (hl : out.tokens.get? c = some own)
    (once : (propertyNames (out.rules settings.output c)).Nodup)
    (onceBase : (propertyNames (out.rules settings.output .base)).Nodup) :
    ∃ base, out.tokens.get? .base = some base ∧
      (∀ e ∈ [(c, own), (.base, base)],
        ((out.rules settings.output e.1).flatMap CssRule.properties).Perm
          ((declaredFragments e.2).map fun d => (d.1, written d.2))) ∧
      ∀ ct ∈ own, ct.type ≠ .gradient → ∃ rt, tokenIn? trees c ct.path = some rt ∧
        ∀ r, Reference.ofJson? rt.raw = some r →
          ((∀ y, TransGen (Leads trees c) (c, rt) y → Follows settings.transforms trees c
              ((declaredFragments own).map Prod.fst) y) →
            FaithfulIn settings.transforms trees c (layers own base) rt ct) ∧
          (ct.type ≠ .typography → writtenIn trees c rt = rt.raw → ∀ y,
            ComesTo settings.transforms trees c ((declaredFragments own).map Prod.fst) r.path y →
            y.2.type = rt.type → Shaped ct.type rt.value → Shaped ct.type y.2.value →
            (FaithfulIn settings.transforms trees c (layers own base) rt ct ↔
              WrittenAlike settings.transforms ct.type rt.value y.2.value)) := by
  obtain ⟨base, hb⟩ := exists_list_of_base h
  obtain ⟨declared, properties⟩ := declaredOnce_of_compile h hl once
  obtain ⟨declaredBase, propertiesBase⟩ := declaredOnce_of_compile h hb onceBase
  have supplies := supplies_layers declared declaredBase
  refine ⟨base, hb, by simp [properties, propertiesBase], fun ct hct ne => ?_⟩
  obtain ⟨rt, hrt, conv⟩ := (declared.mem ct).1 hct
  have features := declared.features ct hct
  refine ⟨rt, hrt, fun r whole => ⟨?_, ?_⟩⟩
  · exact faithfulIn_of_alias conv hrt features parsed exact supplies ne whole
  · intro style kept y comes type shaped shaped'
    exact faithfulIn_iff_written_alike conv hrt parsed exact supplies ne style (kept ▸ whole) comes
      type shaped shaped'

/-! ## Ink at night -/

/-- A color in the base, of which the type may be missing, and an alias of it; at night, the color once
more, and an alias of the alias. -/
def inkTrees (type : Option TokenType) : List Tree :=
  [⟨.base, ⟨.empty, [
      ("ink", .token ⟨.str "#000", type, none, none, some ⟨"base.json"⟩⟩),
      ("text", .token ⟨.str "\x7bink\x7d", some .color, none, none, some ⟨"base.json"⟩⟩)]⟩,
      ⟨"base.json"⟩⟩,
    ⟨nightContext, ⟨.empty, [
      ("ink", .token ⟨.str "#fff", some .color, none, none, some ⟨"night.json"⟩⟩),
      ("title", .token ⟨.str "\x7btext\x7d", some .color, none, none, some ⟨"night.json"⟩⟩)]⟩,
      ⟨"night.json"⟩⟩]

/-- The type of the color in the base. -/
def inkTypes : List (Option TokenType) := [some .color, none]

/-- The document of two colors, the first one with these properties. -/
def inkDocument (ink : List (String × Json)) (name target : String) : Json := .obj [
  ("ink", .obj ink),
  (name, .obj [("$type", .str "color"), ("$value", .str target)])]

theorem parsed_inkTrees : ∀ type ∈ inkTypes, ∀ t ∈ inkTrees type, t.Parsed := by
  simp only [inkTypes, inkTrees, List.forall_mem_cons, List.not_mem_nil, false_imp_iff, implies_true,
    and_true]
  refine ⟨⟨?_, ?_⟩, ?_, ?_⟩
  · refine ⟨⟨"base.json"⟩, inkDocument [("$type", .str "color"), ("$value", .str "#000")] "text"
      "\x7bink\x7d", ?_, rfl⟩
    simp [inkDocument, Json.Distinct, Json.MembersDistinct]
  · refine ⟨⟨"night.json"⟩, inkDocument [("$type", .str "color"), ("$value", .str "#fff")] "title"
      "\x7btext\x7d", ?_, rfl⟩
    simp [inkDocument, Json.Distinct, Json.MembersDistinct]
  · refine ⟨⟨"base.json"⟩, inkDocument [("$value", .str "#000")] "text" "\x7bink\x7d", ?_, rfl⟩
    simp [inkDocument, Json.Distinct, Json.MembersDistinct]
  · refine ⟨⟨"night.json"⟩, inkDocument [("$type", .str "color"), ("$value", .str "#fff")] "title"
      "\x7btext\x7d", ?_, rfl⟩
    simp [inkDocument, Json.Distinct, Json.MembersDistinct]

theorem exact_inkTrees : ∀ type ∈ inkTypes, ∀ t ∈ inkTrees type, ∀ path token,
    t.token? path = some token → token.value.Exact := by
  intro type htype t ht
  refine exact_of_entries (parsed_inkTrees type htype t ht) ?_
  revert type t
  decide

/-- A merged color of these trees. -/
def inkToken (path value : String) (type : Option TokenType) (origin : Origin) : FlatToken :=
  ⟨path, [path], .str value, type, none, none, origin⟩

/-- The resolved colors of a context. -/
def inkTokens (c : Context) (file : String)
    (values : List (String × Option TokenType × String × String)) :
    Context × Table String ResolvedToken :=
  (c, ⟨values.map fun (path, type, value, resolved) =>
    (path, ⟨inkToken path value type ⟨⟨file⟩, c⟩, .str resolved⟩)⟩)

theorem flatten_inkTrees : ∀ type ∈ inkTypes, flatten (inkTrees type) =
    ⟨[(.base, ⟨⟨[("ink", inkToken "ink" "#000" type ⟨⟨"base.json"⟩, .base⟩),
        ("text", inkToken "text" "\x7bink\x7d" (some .color) ⟨⟨"base.json"⟩, .base⟩)]⟩, .empty, []⟩),
      (nightContext, ⟨⟨[("ink", inkToken "ink" "#fff" (some .color) ⟨⟨"night.json"⟩, nightContext⟩),
        ("title", inkToken "title" "\x7btext\x7d" (some .color) ⟨⟨"night.json"⟩, nightContext⟩)]⟩,
        .empty, []⟩)]⟩ := by
  simp only [inkTypes, List.forall_mem_cons, List.not_mem_nil, false_imp_iff, implies_true, and_true]
  exact ⟨rfl, rfl⟩

theorem resolveAll_inkTrees : ∀ type ∈ inkTypes, resolveAll (flatten (inkTrees type)) = ⟨⟨[
    inkTokens .base "base.json"
      [("ink", type, "#000", "#000"), ("text", some .color, "\x7bink\x7d", "#000")],
    inkTokens nightContext "night.json"
      [("ink", some .color, "#fff", "#fff"), ("title", some .color, "\x7btext\x7d", "#fff")]]⟩, []⟩ := by
  simp only [inkTypes, List.forall_mem_cons, List.not_mem_nil, false_imp_iff, implies_true, and_true]
  exact ⟨resolveAll_of_within 3 rfl, resolveAll_of_within 3 rfl⟩

theorem diagnose_inkTrees : ∀ type ∈ inkTypes,
    diagnose (flatten (inkTrees type)) (resolveAll (flatten (inkTrees type))) = [] := by
  intro type htype
  rw [resolveAll_inkTrees type htype]
  simp only [inkTypes, List.mem_cons, List.not_mem_nil, or_false] at htype
  rcases htype with rfl | rfl <;> decide +kernel

/-- A converted color. -/
def inkCss (c : Context) (file path text : String) : CssToken :=
  ⟨path, .color, ⟨⟨file⟩, c⟩, .single text⟩

/-- The converted colors of the base: without a type, the first one is left out and its value stands in
the second one. -/
def inkBase : Option TokenType → List CssToken
  | some _ => [inkCss .base "base.json" "ink" "#000", inkCss .base "base.json" "text" "\x7bink\x7d"]
  | none => [inkCss .base "base.json" "text" "#000"]

/-- The converted colors of the night. -/
def inkNight : List CssToken := [inkCss nightContext "night.json" "ink" "#fff",
  inkCss nightContext "night.json" "title" "\x7btext\x7d"]

theorem convertAll_inkTrees : ∀ type ∈ inkTypes,
    convertAll .standard [] (resolveAll (flatten (inkTrees type))) =
      .ok ⟨[(.base, inkBase type), (nightContext, inkNight)]⟩ := by
  intro type htype
  rw [resolveAll_inkTrees type htype]
  simp only [inkTypes, List.mem_cons, List.not_mem_nil, or_false] at htype
  rcases htype with rfl | rfl <;> rfl

/-- The compiled colors. -/
def inkOutput (type : Option TokenType) : Compiled :=
  ⟨generate [] Settings.standard.output ⟨[(.base, inkBase type), (nightContext, inkNight)]⟩, [], [],
    ⟨[(.base, inkBase type), (nightContext, inkNight)]⟩⟩

theorem compile_inkTrees : ∀ type ∈ inkTypes,
    compile (inkTrees type) [] .standard = .ok (inkOutput type) := fun type htype =>
  compile_of_convertAll (by decide) (diagnose_inkTrees type htype) (convertAll_inkTrees type htype)

theorem nodup_inkOutput : ∀ type ∈ inkTypes, ∀ e ∈ [(.base, inkBase type), (nightContext, inkNight)],
    (propertyNames ((inkOutput type).rules Settings.standard.output e.1)).Nodup := by
  intro type htype e he
  have keys : (inkOutput type).tokens.keys.Nodup := show [Context.base, nightContext].Nodup by decide
  have found : (inkOutput type).tokens.get? e.1 = some e.2 := (Table.get?_eq_some_iff keys).2 he
  simp only [inkTypes, List.mem_cons, List.not_mem_nil, or_false] at htype he
  rcases htype with rfl | rfl
  all_goals
    rcases he with rfl | rfl
    all_goals
      rw [rules_of_targetFile found (by simp [inkBase, inkNight]) (fun t _ => rfl)
        (by simp [inkBase, inkNight, inkCss, CssValue.single])]
      decide +kernel

/-! ## What the night uses -/

/-- A resolved color. -/
def inkResolved (c : Context) (file path value resolved : String) : ResolvedToken :=
  ⟨inkToken path value (some .color) ⟨⟨file⟩, c⟩, .str resolved⟩

/-- The alias of the base. -/
def inkText : ResolvedToken := inkResolved .base "base.json" "text" "\x7bink\x7d" "#000"

/-- The color of the night. -/
def inkInk : ResolvedToken := inkResolved nightContext "night.json" "ink" "#fff" "#fff"

/-- The alias of the night. -/
def inkTitle : ResolvedToken := inkResolved nightContext "night.json" "title" "\x7btext\x7d" "#fff"

theorem used?_inkTrees : ∀ type ∈ inkTypes,
    used? (inkTrees type) nightContext "ink" = some (nightContext, inkInk) ∧
      used? (inkTrees type) nightContext "text" = some (.base, inkText) ∧
      used? (inkTrees type) nightContext "title" = some (nightContext, inkTitle) := by
  intro type htype
  unfold used? tokenIn?
  rw [resolveAll_inkTrees type htype]
  exact ⟨rfl, rfl, rfl⟩

theorem tokenIn?_inkTitle {type : Option TokenType} (htype : type ∈ inkTypes) :
    tokenIn? (inkTrees type) nightContext "title" = some inkTitle :=
  tokenIn?_of_used? (used?_inkTrees type htype).2.2

theorem errorsOf_inkTrees {type : Option TokenType} (htype : type ∈ inkTypes) (c : Context) :
    errorsOf (inkTrees type) c = [] := by
  unfold errorsOf
  rw [diagnose_inkTrees type htype]
  rfl

theorem writtenIn_inkTrees : ∀ type ∈ inkTypes,
    writtenIn (inkTrees type) nightContext inkInk = .str "#fff" ∧
      writtenIn (inkTrees type) nightContext inkTitle = .str "\x7btext\x7d" ∧
      writtenIn (inkTrees type) .base inkText =
        if type.isSome then .str "\x7bink\x7d" else .str "#000" := by
  intro type htype
  unfold writtenIn pathsOf
  rw [errorsOf_inkTrees htype, errorsOf_inkTrees htype, diagnose_inkTrees type htype,
    resolveAll_inkTrees type htype]
  simp only [inkTypes, List.mem_cons, List.not_mem_nil, or_false] at htype
  rcases htype with rfl | rfl
  · exact ⟨rfl, rfl, rfl⟩
  · exact ⟨rfl, rfl, rfl⟩

theorem alone_inkText (type : Option TokenType) :
    Alone Transforms.standard (inkTrees type) ((declaredFragments inkNight).map Prod.fst) inkText := by
  intro ct conv d hd
  obtain ⟨-, type', value, own, -⟩ := convertToken?_eq_some_iff.1 conv
  obtain ⟨text, body⟩ := exists_body_eq_single value (by rintro style; rw [style] at type'; cases type')
  rw [body, own] at hd
  obtain rfl := List.mem_singleton.1 hd
  show Name.customProperty "text" ∉ _
  decide +kernel

theorem eq_of_sees_inkText {R : Resolved} (sees : Sees (inkTrees (some .color)) nightContext "text" R) :
    R = ⟨.str "#fff", some .color⟩ := by
  obtain ⟨t, look, denotes⟩ := sees
  rw [flatten_inkTrees _ (by simp [inkTypes])] at look denotes
  cases look
  have ink : ∀ all, Denotes all nightContext
      (inkToken "ink" "#fff" (some .color) ⟨⟨"night.json"⟩, nightContext⟩) ⟨.str "#fff", some .color⟩ :=
    fun _ => denotes_of_references_eq_nil rfl
  refine denotes.unique (.intro (fun _ => _) (fun _ => ⟨.str "#fff", some .color⟩) ?_
    (fun _ _ => ink _) ?_)
  · intro o ho
    obtain rfl : o = ⟨⟨"ink"⟩, none⟩ := List.mem_singleton.1 ho
    rfl
  · intro o ho
    obtain rfl : o = ⟨⟨"ink"⟩, none⟩ := List.mem_singleton.1 ho
    show ∀ e ∈ some TokenType.color, ∀ f ∈ some TokenType.color, f.fits e = true
    decide

theorem steady_inkText : Steady Transforms.standard (inkTrees (some .color)) nightContext
    ((declaredFragments inkNight).map Prod.fst) inkText := by
  have htype : some TokenType.color ∈ inkTypes := by simp [inkTypes]
  obtain ⟨ink, -, -⟩ := used?_inkTrees _ htype
  have whole : Reference.ofJson? inkText.raw = some ⟨"ink"⟩ := by decide
  refine steady_of_whole whole (by decide) (writtenIn_inkTrees _ htype).2.2 (alone_inkText _) ?_ ?_
  · intro w hw
    obtain rfl : inkInk = w := Option.some.inj ((tokenIn?_of_used? ink).symm.trans hw)
    rw [errorsOf_inkTrees htype]
    decide
  · intro R sees
    obtain rfl := eq_of_sees_inkText sees
    refine ⟨rfl, fun type ht => ?_⟩
    obtain rfl : TokenType.color = type := Option.some.inj ht
    show ∀ e ∈ valueIssues Rule.all .color (.str "#fff"), _
    decide

theorem follows_inkTrees {y : Context × ResolvedToken}
    (reaches : TransGen (Leads (inkTrees (some .color)) nightContext) (nightContext, inkTitle) y) :
    Follows Transforms.standard (inkTrees (some .color)) nightContext
      ((declaredFragments inkNight).map Prod.fst) y := by
  have htype : some TokenType.color ∈ inkTypes := by simp [inkTypes]
  obtain ⟨ink, text, -⟩ := used?_inkTrees _ htype
  obtain ⟨writtenInk, writtenTitle, writtenText⟩ := writtenIn_inkTrees _ htype
  -- the alias leads to that of the base, and that one to the color of the night
  have first : ∀ y, Leads (inkTrees (some .color)) nightContext (nightContext, inkTitle) y →
      y = (.base, inkText) := by
    rintro y ⟨r, hr, used⟩
    rw [writtenTitle] at hr
    obtain rfl : r = ⟨"text"⟩ := List.mem_singleton.1 hr
    exact (Option.some.inj (text.symm.trans used)).symm
  have second : ∀ y, Leads (inkTrees (some .color)) nightContext (.base, inkText) y →
      y = (nightContext, inkInk) := by
    rintro y ⟨r, hr, used⟩
    rw [writtenText] at hr
    obtain rfl : r = ⟨"ink"⟩ := List.mem_singleton.1 hr
    exact (Option.some.inj (ink.symm.trans used)).symm
  have last : ∀ y, ¬ Leads (inkTrees (some .color)) nightContext (nightContext, inkInk) y := by
    rintro y ⟨r, hr, -⟩
    rw [writtenInk] at hr
    cases hr
  -- a color has neither amounts nor families
  have spelled : ∀ b u, u.type = some .color →
      WellSpelledFrom (inkTrees (some .color)) nightContext (b, u) := by
    intro b u color R _ type ht
    obtain rfl : TokenType.color = type := Option.some.inj (color.symm.trans ht)
    exact ⟨trivial, spelledOut_of_nil rfl rfl⟩
  obtain ⟨y, leads, rest⟩ := TransGen.head'_iff.1 reaches
  obtain rfl := first y leads
  rcases rest.cases_head with rfl | ⟨y, leads, rest⟩
  · exact ⟨spelled _ _ rfl, fun _ => steady_inkText⟩
  · obtain rfl := second y leads
    rcases rest.cases_head with rfl | ⟨y, leads, -⟩
    · exact ⟨spelled _ _ rfl, fun ne => absurd rfl ne⟩
    · exact absurd leads (last y)

/-- At night the alias of the alias comes to the color of the night. -/
theorem compile_overlays_inkTrees : (∀ t ∈ inkTrees (some .color), t.Parsed) ∧
    (∀ t ∈ inkTrees (some .color), ∀ path token, t.token? path = some token → token.value.Exact) ∧
    ∃ out own, compile (inkTrees (some .color)) [] .standard = .ok out ∧
      out.tokens.get? nightContext = some own ∧
      (propertyNames (out.rules Settings.standard.output nightContext)).Nodup ∧
      (propertyNames (out.rules Settings.standard.output .base)).Nodup ∧
      ∃ base, out.tokens.get? .base = some base ∧ ∃ ct ∈ own, ct.path = "title" ∧
        ∃ rt, tokenIn? (inkTrees (some .color)) nightContext "title" = some rt ∧
          rt.raw = .str "\x7btext\x7d" ∧ rt.value = .str "#fff" ∧
          FaithfulIn .standard (inkTrees (some .color)) nightContext (layers own base) rt ct := by
  have htype : some TokenType.color ∈ inkTypes := by simp [inkTypes]
  have parsed := parsed_inkTrees _ htype
  have exact := exact_inkTrees _ htype
  have once := nodup_inkOutput _ htype (nightContext, inkNight) (by simp)
  have onceBase := nodup_inkOutput _ htype (.base, inkBase (some .color)) (by simp)
  have own : (inkOutput (some .color)).tokens.get? nightContext = some inkNight := rfl
  obtain ⟨base, hb, -, aliases⟩ := compile_overlays parsed exact (compile_inkTrees _ htype)
    nightContext own once onceBase
  have title : inkCss nightContext "night.json" "title" "\x7btext\x7d" ∈ inkNight := by simp [inkNight]
  obtain ⟨rt, hrt, faithful⟩ := aliases _ title (by simp [inkCss])
  obtain rfl : inkTitle = rt := Option.some.inj ((tokenIn?_inkTitle htype).symm.trans hrt)
  refine ⟨parsed, exact, _, inkNight, compile_inkTrees _ htype, own, once, onceBase, base, hb, _,
    title, rfl, inkTitle, hrt, rfl, rfl, ?_⟩
  exact (faithful ⟨"text"⟩ (by decide)).1 fun y reaches => follows_inkTrees reaches

/-- **A color that the night does not reach**: without a type in the base, the alias of the base is
written with the color of the base, and the alias of that one at night refers to it. -/
theorem not_faithful_inkTrees : (∀ t ∈ inkTrees none, t.Parsed) ∧
    (∀ t ∈ inkTrees none, ∀ path token, t.token? path = some token → token.value.Exact) ∧
    ∃ out own base, compile (inkTrees none) [] .standard = .ok out ∧
      out.tokens.get? nightContext = some own ∧ out.tokens.get? .base = some base ∧
      (propertyNames (out.rules Settings.standard.output nightContext)).Nodup ∧
      (propertyNames (out.rules Settings.standard.output .base)).Nodup ∧
      ∃ ct ∈ own, ct.path = "title" ∧ ct.type = .color ∧
        ∃ rt, tokenIn? (inkTrees none) nightContext "title" = some rt ∧
          rt.raw = .str "\x7btext\x7d" ∧ rt.value = .str "#fff" ∧
          ¬ FaithfulIn .standard (inkTrees none) nightContext (layers own base) rt ct := by
  have htype : none ∈ inkTypes := by simp [inkTypes]
  have parsed := parsed_inkTrees _ htype
  have exact := exact_inkTrees _ htype
  have compiled := compile_inkTrees _ htype
  have once := nodup_inkOutput _ htype (nightContext, inkNight) (by simp)
  have onceBase := nodup_inkOutput _ htype (.base, inkBase none) (by simp)
  have own : (inkOutput none).tokens.get? nightContext = some inkNight := rfl
  have base : (inkOutput none).tokens.get? .base = some (inkBase none) := rfl
  obtain ⟨declared, -⟩ := declaredOnce_of_compile compiled own once
  obtain ⟨declaredBase, -⟩ := declaredOnce_of_compile compiled base onceBase
  have title : inkCss nightContext "night.json" "title" "\x7btext\x7d" ∈ inkNight := by simp [inkNight]
  obtain ⟨rt, hrt, conv⟩ := (declared.mem _).1 title
  obtain rfl : inkTitle = rt := Option.some.inj ((tokenIn?_inkTitle htype).symm.trans hrt)
  refine ⟨parsed, exact, inkOutput none, inkNight, inkBase none, compiled, own, base, once, onceBase, _,
    title, rfl, rfl, inkTitle, hrt, rfl, rfl, fun faithful => ?_⟩
  obtain ⟨-, writtenTitle, writtenText⟩ := writtenIn_inkTrees _ htype
  have finds : Finds Transforms.standard (inkTrees none) nightContext
      ((declaredFragments inkNight).map Prod.fst) "text" (.base, inkText) :=
    ⟨(used?_inkTrees _ htype).2.1, by rw [errorsOf_inkTrees htype]; decide, fun _ => alone_inkText none⟩
  have alike := (faithfulIn_iff_written_alike conv hrt parsed exact
    (supplies_layers declared declaredBase) (by simp [inkCss]) (by simp [inkCss])
    (r := ⟨"text"⟩) (by rw [writtenTitle]; decide) (.plain finds (by rw [writtenText]; rfl)) rfl
    trivial trivial).1 faithful ""
  have white : Reference.parse? "#fff" = none := by decide
  have black : Reference.parse? "#000" = none := by decide
  simp [inkCss, inkTitle, inkText, inkResolved, convert?, Reference.ofJson?, white, black, convertColor,
    CssValue.single] at alike

end DesignTokens
