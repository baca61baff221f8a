import DesignTokens.Proofs.Compile.Failures
import DesignTokens.Proofs.Compile.Overlays
import DesignTokens.Proofs.Compile.Uses
import DesignTokens.Proofs.Css.Gradients

/-!
# Gradients in stylesheets

A gradient without errors is in the stylesheet, with the stops of its resolved value if they are written
out, and only then. An angle that is a reference comes to what the token referred to is written as, which
for a number is one without a unit.

* `exists_css_of_compile`: a token without errors is converted;
* `exists_used_of_member?`: what a part of a value that is a reference stands for;
* `WritesGradient`: how a gradient is written; **`writesGradient_of_convert?`**;
* `Orderly`: documents without other braces, and rules without a property declared twice;
  `StandsForAngle`, **`standsForAngle_of_compile`**: an angle that is a reference;
* **`compile_gradients`**: the gradients of a compilation;
* `heroTree`: stops and an angle that are references.
-/

namespace DesignTokens

open Relation

section Gradients

variable {trees : List Tree} {c : Context} {path : String} {rt : ResolvedToken}

/-! ## Tokens of a compilation -/

theorem exists_css_of_compile (parsed : ∀ t ∈ trees, t.Parsed) {modifiers : List Modifier}
    {settings : Settings} {out : Compiled} (h : compile trees modifiers settings = .ok out)
    (hrt : tokenIn? trees c path = some rt) {type : TokenType} (known : type.isKnown = true)
    (ht : rt.type = some type) (fine : ∀ d ∈ lintToken Rule.all rt, d.isError = false) :
    ∃ own ct, out.tokens.get? c = some own ∧ ct ∈ own ∧
      convertToken? settings.transforms (errorsOf trees c) (pathsOf trees c) rt = .ok (some ct) := by
  obtain ⟨own, hl⟩ := exists_list_of_tokenIn? h hrt
  have sound : isFaulty (errorsOf trees c) rt.path = false := by
    rw [← Bool.not_eq_true, path_of_tokenIn? hrt]
    intro faulty
    obtain ⟨d, hd, error⟩ := (isFaulty_iff_lintToken parsed hrt).1 faulty
    cases (fine d hd).symm.trans error
  have declared : isDeclared (errorsOf trees c) rt = true := by
    unfold isDeclared
    rw [sound, ht]
    simpa using known
  obtain ⟨ct, hct, conv⟩ := (converted_of_compile h hl).declared path rt hrt declared
  exact ⟨own, ct, hl, hct, conv⟩

theorem exists_operand_writtenIn (hrt : tokenIn? trees c path = some rt) :
    ∃ σ, operand (pathsOf trees c) rt = (writtenIn trees c rt).operand σ ∧
      (writtenIn trees c rt).substitute σ = rt.value := by
  obtain ⟨σ, hσ⟩ := exists_substitute_of_token? hrt
  obtain ⟨j, τ, operands, resolved⟩ := exists_operand_eq hσ (pathsOf trees c)
  have written : writtenIn trees c rt = j := by
    unfold writtenIn
    rw [operands]
    rfl
  exact ⟨τ, written ▸ operands, written ▸ resolved⟩

/-! ## How a gradient is written -/

/-- How a gradient is written that is no reference itself, with a value as written and as resolved: by its
kind, its angle, and texts for stops. -/
structure WritesGradient (transforms : Transforms) (ct : CssToken) (w v : Json)
    (stops : List String) : Prop where
  value : ct.value =
    .single (gradientText (gradientKind v) (anglePart (gradientKind v) w ++ stops))
  /-- The texts are those of the stops of the resolved value if these are written out, and only then. -/
  shown : shownStops Reference.text transforms ct.path w v = .ok stops ↔ WrittenOut w
  /-- What is declared has uses in place of references. -/
  declared : w.Exact → v.Plain →
    plainDeclarations ct = [(Name.customProperty ct.path, gradientText (gradientKind v)
      ((anglePart (gradientKind v) w ++ stops).map Name.renderReferences))] ∧
    (WrittenOut w → shownStops Reference.use transforms ct.path w v =
      .ok (stops.map Name.renderReferences))
  /-- An angle without references is written as it is resolved. -/
  angle : (∀ angle, w.member? "angle" = some angle → angle.references = []) →
    anglePart (gradientKind v) w = anglePart (gradientKind v) v

/-- **What is converted of a gradient without errors.** -/
theorem writesGradient_of_convert? {transforms : Transforms} {ct : CssToken} {j : Json}
    {σ : Reference → Json} (accepted : Accepted .gradient (j.substitute σ))
    (whole : Reference.ofJson? j = none)
    (conv : convert? transforms ct.path .gradient (j.operand σ) = .ok (some ct.value)) :
    ∃ stops, WritesGradient transforms ct j (j.substitute σ) stops := by
  have passes : Passes (checkGradient (j.substitute σ)) := accepted.passes .composite rfl
  rw [convert?_of_conversionOf? (o := j.operand σ) rfl whole] at conv
  obtain ⟨text, ht, same⟩ := map_eq_ok.1 conv
  obtain ⟨stops, rfl, texts⟩ := exists_stops_of_convertGradient passes whole ht
  have value := (Option.some.inj same).symm
  have shown := shownStops_eq_ok_iff passes whole texts
  refine ⟨stops, value, shown, fun exact plain => ⟨?_, fun written => ?_⟩, fun none => ?_⟩
  · rw [← renderReferences_gradientText ⟨exact, plain⟩ texts]
    unfold plainDeclarations
    rw [value]
    rfl
  · exact shownStops_declared passes plain (shown.2 written)
  · exact (anglePart_substitute whole none _).symm

/-! ## Angles that are references -/

/-- In the documents every brace in a string belongs to a reference, and the rules of a context and of the
base declare no property twice. -/
structure Orderly (trees : List Tree) (settings : Settings) (out : Compiled) (c : Context) : Prop where
  exact : ∀ t ∈ trees, ∀ path token, t.token? path = some token → token.value.Exact
  once : (propertyNames (out.rules settings.output c)).Nodup
  onceBase : (propertyNames (out.rules settings.output .base)).Nodup

theorem exists_used_of_member? (hrt : tokenIn? trees c path = some rt) {key : String} {part : Json}
    (hp : (writtenIn trees c rt).member? key = some part) {r : Reference}
    (whole : Reference.ofJson? part = some r) :
    ∃ x R, used? trees c r.path = some x ∧ isDeclared (errorsOf trees x.1) x.2 = true ∧
      Sees trees c r.path R ∧ rt.value.member? key = some R.value := by
  obtain ⟨found, operands, seen⟩ := exists_operandIn hrt
  have used : (⟨r, some key⟩ : Use) ∈ (writtenIn trees c rt).uses none := by
    refine Json.mem_uses_of_member? hp none ?_
    rw [Json.uses_of_reference whole]
    exact List.mem_singleton.2 rfl
  have kept : r ∈ (writtenIn trees c rt).references := by
    rw [Json.references_eq _ none]
    exact List.mem_map_of_mem used
  obtain ⟨t, look, denotes, -⟩ := seen _ used
  obtain ⟨b, u, hu, declared⟩ :=
    used?_of_mem_pathsOf (mem_pathsOf_of_mem_references hrt kept).2
  refine ⟨(b, u), found r, hu, declared, ⟨t, look, denotes⟩, ?_⟩
  rw [← substitute_of_operand operands, member?_resolved _ (Json.whole_of_member? hp) hp,
    Json.substitute_reference _ whole]

/-- The angle of a gradient is a reference to a token that is seen with a type and a value. If this is a
simple value and the token is written as one text, the angle comes to what would be written for the value
exactly if that is this text. -/
structure StandsForAngle (transforms : Transforms) (trees : List Tree) (c : Context)
    (decls : List (String × List Fragment)) (rt : ResolvedToken) (r : Reference) (type : TokenType)
    (value : Json) : Prop where
  sees : Sees trees c r.path ⟨value, some type⟩
  resolved : rt.value.member? "angle" = some value
  comes : value.IsScalar → type ≠ .gradient → ∀ text,
    convert? transforms r.path type ⟨value, value⟩ = .ok (some (.single text)) → ∀ kind,
      ExpandTo decls (anglePart kind (writtenIn trees c rt)) (anglePart kind rt.value) ↔
        text = angleText value

variable {modifiers : List Modifier} {settings : Settings} {out : Compiled}

/-- **An angle that is a reference** to a token that follows the context. -/
theorem standsForAngle_of_compile (parsed : ∀ t ∈ trees, t.Parsed)
    (h : compile trees modifiers settings = .ok out) (orderly : Orderly trees settings out c)
    {own : List CssToken} (hl : out.tokens.get? c = some own)
    (hrt : tokenIn? trees c path = some rt) {angle : Json}
    (ha : (writtenIn trees c rt).member? "angle" = some angle) {r : Reference}
    (whole : Reference.ofJson? angle = some r)
    (follows : ∀ x, used? trees c r.path = some x → ∀ y, ReflTransGen (Leads trees c) x y →
      Follows settings.transforms trees c ((declaredFragments own).map Prod.fst) y) :
    ∃ base type value, out.tokens.get? .base = some base ∧
      StandsForAngle settings.transforms trees c (layers own base) rt r type value := by
  obtain ⟨exact, once, onceBase⟩ := orderly
  obtain ⟨base, hb⟩ := exists_list_of_base h
  have supplies := supplies_layers (declaredOnce_of_compile h hl once).1
    (declaredOnce_of_compile h hb onceBase).1
  obtain ⟨x, ⟨value, found⟩, used, declared, sees, resolved⟩ :=
    exists_used_of_member? hrt ha whole
  obtain ⟨type, rfl, carried⟩ :=
    carried_of_follows parsed exact supplies used declared (follows x used) sees
  refine ⟨base, type, value, hb, sees, resolved, fun scalar ne text conv kind => ?_⟩
  have valid := (ofJson?_eq_some_iff.1 whole).2
  exact expandTo_anglePart_iff ha whole resolved carried.plain scalar
    (carried.evaluates valid ne conv) kind

end Gradients

/-- **Gradients.** In trees of documents, a gradient without errors is in the compiled stylesheet. As a
reference to another gradient it is written as that reference. Otherwise its text has its kind, its angle
as written, and stops: those of its resolved value, one for each, in order and with their colors and
positions, exactly if neither the stops nor any of them is written as a reference. An angle without
references is written as it is resolved; one that is a reference to a token that follows the context comes
to the text of its value exactly if that token is written as this text. -/
theorem compile_gradients {trees : List Tree} (parsed : ∀ t ∈ trees, t.Parsed)
    {modifiers : List Modifier} {settings : Settings} {out : Compiled}
    (h : compile trees modifiers settings = .ok out) {c : Context} {path : String}
    {rt : ResolvedToken} (hrt : tokenIn? trees c path = some rt) (type : rt.type = some .gradient)
    (fine : ∀ d ∈ lintToken Rule.all rt, d.isError = false) :
    ∃ own ct, out.tokens.get? c = some own ∧ ct ∈ own ∧ ct.path = path ∧ ct.type = .gradient ∧
      ((propertyNames (out.rules settings.output c)).Nodup →
        ∀ d ∈ plainDeclarations ct, d ∈ (out.rules settings.output c).flatMap CssRule.properties) ∧
      (∀ r, Reference.ofJson? (writtenIn trees c rt) = some r → ct.value = .single r.text) ∧
      (Reference.ofJson? (writtenIn trees c rt) = none →
        ∃ stops, WritesGradient settings.transforms ct (writtenIn trees c rt) rt.value stops) ∧
      ∀ angle r, (writtenIn trees c rt).member? "angle" = some angle →
        Reference.ofJson? angle = some r → Orderly trees settings out c →
        (∀ x, used? trees c r.path = some x → ∀ y, ReflTransGen (Leads trees c) x y →
          Follows settings.transforms trees c ((declaredFragments own).map Prod.fst) y) →
        ∃ base type value, out.tokens.get? .base = some base ∧
          StandsForAngle settings.transforms trees c (layers own base) rt r type value := by
  obtain ⟨own, ct, hl, hct, conv⟩ := exists_css_of_compile parsed h hrt rfl type fine
  obtain ⟨-, type', value, own', -⟩ := convertToken?_eq_some_iff.1 conv
  obtain gradient : ct.type = .gradient := Option.some.inj (type'.symm.trans type)
  have accepted : Accepted .gradient rt.value := by
    rw [accepted_iff_lintToken type]
    rintro ⟨d, hd, error⟩
    cases (fine d hd).symm.trans error
  rw [gradient, ← own'] at value
  refine ⟨own, ct, hl, hct, own'.trans (path_of_tokenIn? hrt), gradient, fun once d hd => ?_,
    fun r whole => ?_, fun whole => ?_, fun angle r ha whole orderly follows => ?_⟩
  · rw [plainDeclarations_eq] at hd
    obtain ⟨d', hd', rfl⟩ := List.mem_map.1 hd
    refine (declaredOnce_of_compile h hl once).2.mem_iff.2 (List.mem_map_of_mem ?_)
    exact List.mem_flatMap.2 ⟨ct, hct, hd'⟩
  · rw [convert?_of_whole (o := operand (pathsOf trees c) rt) whole (by simp)] at value
    exact (Option.some.inj (Except.ok.inj value)).symm
  · obtain ⟨σ, operands, resolved⟩ := exists_operand_writtenIn hrt
    rw [operands] at value
    rw [← resolved] at accepted ⊢
    exact writesGradient_of_convert? accepted whole value
  · exact standsForAngle_of_compile parsed h orderly hl hrt ha whole follows

/-! ## A hero with a ramp -/

/-- A stop of a gradient. -/
def stopOf (color : String) (position : Int) : Json :=
  .obj [("color", .str color), ("position", .num (.integer position))]

/-- A list of two stops. -/
def rampValue : Json := .arr [stopOf "#000" 0, stopOf "#fff" 1]

/-- A gradient with an angle. -/
def heroValue (angle stops : Json) : Json := .obj [("angle", angle), ("stops", stops)]

/-- A number, a list of stops, and a gradient that refers to both. -/
def heroTree : Tree where
  context := .base
  tokens := ⟨.empty, [
    ("turn", .token ⟨.num (.integer 90), some .number, none, none, some ⟨"hero.json"⟩⟩),
    ("ramp", .token ⟨rampValue, some .gradient, none, none, some ⟨"hero.json"⟩⟩),
    ("hero", .token ⟨heroValue (.str "\x7bturn\x7d") (.str "\x7bramp\x7d"), some .gradient, none, none,
      some ⟨"hero.json"⟩⟩)]⟩
  file := ⟨"hero.json"⟩

/-- The document of these tokens. -/
def heroDocument : Json := .obj [
  ("turn", .obj [("$type", .str "number"), ("$value", .num (.integer 90))]),
  ("ramp", .obj [("$type", .str "gradient"), ("$value", rampValue)]),
  ("hero", .obj [("$type", .str "gradient"),
    ("$value", heroValue (.str "\x7bturn\x7d") (.str "\x7bramp\x7d"))])]

theorem parsed_heroTree : heroTree.Parsed := by
  refine ⟨⟨"hero.json"⟩, heroDocument, ?_, rfl⟩
  simp [heroDocument, heroValue, rampValue, stopOf, Json.Distinct, Json.MembersDistinct,
    Json.ItemsDistinct]

/-- A merged token. -/
def heroToken (path : String) (value : Json) (type : TokenType) : FlatToken :=
  ⟨path, [path], value, some type, none, none, ⟨⟨"hero.json"⟩, .base⟩⟩

/-- The number with its value. -/
def heroTurn : ResolvedToken :=
  ⟨heroToken "turn" (.num (.integer 90)) .number, .num (.integer 90)⟩

/-- The stops with their value. -/
def heroRamp : ResolvedToken := ⟨heroToken "ramp" rampValue .gradient, rampValue⟩

/-- The gradient with its value. -/
def heroHero : ResolvedToken :=
  ⟨heroToken "hero" (heroValue (.str "\x7bturn\x7d") (.str "\x7bramp\x7d")) .gradient,
    heroValue (.num (.integer 90)) rampValue⟩

theorem resolveAll_heroTree : resolveAll (flatten [heroTree]) =
    ⟨⟨[(.base, ⟨[("turn", heroTurn), ("ramp", heroRamp), ("hero", heroHero)]⟩)]⟩, []⟩ :=
  resolveAll_of_within 2 rfl

theorem diagnose_heroTree :
    diagnose (flatten [heroTree]) (resolveAll (flatten [heroTree])) = [] := by
  rw [resolveAll_heroTree]
  decide +kernel

/-- The text of a stop. -/
def stopText (color : String) (position : Int) : String :=
  Text.join " " [color, positionText (.num (.integer position))]

/-- The converted tokens: the last one has an angle and no stops. -/
def heroCss : List CssToken :=
  [⟨"turn", .number, ⟨⟨"hero.json"⟩, .base⟩, .single (scalarText (.num (.integer 90)))⟩,
    ⟨"ramp", .gradient, ⟨⟨"hero.json"⟩, .base⟩,
      .single (gradientText "linear" [stopText "#000" 0, stopText "#fff" 1])⟩,
    ⟨"hero", .gradient, ⟨⟨"hero.json"⟩, .base⟩, .single (gradientText "linear" ["\x7bturn\x7d"])⟩]

theorem convertAll_heroTree :
    convertAll .standard [] (resolveAll (flatten [heroTree])) = .ok ⟨[(.base, heroCss)]⟩ := by
  rw [resolveAll_heroTree]
  rfl

/-- The compiled tokens. -/
def heroOutput : Compiled :=
  ⟨generate [] Settings.standard.output ⟨[(.base, heroCss)]⟩, [], [], ⟨[(.base, heroCss)]⟩⟩

theorem compile_heroTree : compile [heroTree] [] .standard = .ok heroOutput :=
  compile_of_convertAll (by decide) diagnose_heroTree convertAll_heroTree

theorem orderly_heroTree : Orderly [heroTree] .standard heroOutput .base := by
  have once : (propertyNames (heroOutput.rules Settings.standard.output .base)).Nodup := by
    have keys : heroOutput.tokens.keys.Nodup := show [Context.base].Nodup by decide
    have found : heroOutput.tokens.get? .base = some heroCss :=
      (Table.get?_eq_some_iff keys).2 (List.mem_singleton.2 rfl)
    rw [rules_of_targetFile found (by simp [heroCss]) (fun t _ => rfl)
      (by simp [heroCss, CssValue.single])]
    decide +kernel
  refine ⟨fun t ht => ?_, once, once⟩
  obtain rfl := List.mem_singleton.1 ht
  exact exact_of_entries parsed_heroTree (by decide)

theorem tokenIn?_heroTree : ∀ rt ∈ [heroTurn, heroRamp, heroHero],
    tokenIn? [heroTree] .base rt.path = some rt := by
  unfold tokenIn?
  rw [resolveAll_heroTree]
  simp only [List.forall_mem_cons, List.not_mem_nil, false_imp_iff, implies_true, and_true]
  exact ⟨rfl, rfl, rfl⟩

theorem errorsOf_heroTree (c : Context) : errorsOf [heroTree] c = [] := by
  unfold errorsOf
  rw [diagnose_heroTree]
  rfl

theorem writtenIn_heroTree : ∀ rt ∈ [heroTurn, heroRamp, heroHero],
    writtenIn [heroTree] .base rt = rt.raw := by
  unfold writtenIn pathsOf
  rw [errorsOf_heroTree, diagnose_heroTree, resolveAll_heroTree]
  simp only [List.forall_mem_cons, List.not_mem_nil, false_imp_iff, implies_true, and_true]
  exact ⟨rfl, rfl, rfl⟩

theorem lintToken_heroTree : ∀ rt ∈ [heroRamp, heroHero],
    ∀ d ∈ lintToken Rule.all rt, d.isError = false := by
  decide +kernel

theorem follows_heroTurn (taken : List String) {x : Context × ResolvedToken}
    (used : used? [heroTree] .base "turn" = some x) {y : Context × ResolvedToken}
    (reaches : ReflTransGen (Leads [heroTree] .base) x y) :
    Follows .standard [heroTree] .base taken y := by
  have here := tokenIn?_heroTree heroTurn (by simp)
  obtain rfl : (.base, heroTurn) = x :=
    Option.some.inj ((used?_eq_some_iff.2 (.inl ⟨here, rfl⟩)).symm.trans used)
  have written := writtenIn_heroTree heroTurn (by simp)
  rcases reaches.cases_head with rfl | ⟨z, ⟨r, hr, -⟩, -⟩
  · refine ⟨fun R ⟨t, look, denotes⟩ type ht => ?_, fun ne => absurd rfl ne⟩
    obtain rfl : TokenType.number = type := Option.some.inj ht
    obtain rfl := eq_of_denotes here look denotes
    exact ⟨trivial, spelledOut_of_nil rfl rfl⟩
  · rw [written] at hr
    cases hr

/-- The list is declared with its stops, and the angle of the other gradient comes to no angle. -/
theorem compile_gradients_heroTree :
    (∀ t ∈ [heroTree], t.Parsed) ∧ compile [heroTree] [] .standard = .ok heroOutput ∧
      (∃ ct ∈ heroCss, plainDeclarations ct = [("--ramp", "linear-gradient(#000 0%, #fff 100%)")]) ∧
      ¬ ExpandTo (layers heroCss heroCss) (anglePart "linear" heroHero.raw)
        (anglePart "linear" heroHero.value) := by
  have parsed : ∀ t ∈ [heroTree], t.Parsed := by simpa using parsed_heroTree
  have ramp := writtenIn_heroTree heroRamp (by simp)
  have hero := writtenIn_heroTree heroHero (by simp)
  refine ⟨parsed, compile_heroTree, ?_, ?_⟩
  · obtain ⟨own, ct, hl, hct, path, -, -, -, writes, -⟩ :=
      compile_gradients parsed compile_heroTree (tokenIn?_heroTree heroRamp (by simp)) rfl
        (lintToken_heroTree _ (by simp))
    obtain rfl : heroCss = own := Option.some.inj hl
    rw [ramp] at writes
    obtain ⟨stops, writes⟩ := writes rfl
    have written : WrittenOut heroRamp.raw := by
      refine ⟨fun part hp => ?_, by decide⟩
      cases hp
      rfl
    have texts : shownStops Reference.text .standard ct.path heroRamp.raw heroRamp.value =
        .ok ["#000 0%", "#fff 100%"] := rfl
    obtain rfl := Except.ok.inj (texts.symm.trans (writes.shown.2 written))
    have here := tokenIn?_heroTree heroRamp (by simp)
    have declared := (writes.declared (ramp ▸ exact_writtenIn parsed orderly_heroTree.exact here)
      (plain_of_tokenIn? parsed orderly_heroTree.exact here)).1
    refine ⟨ct, hct, ?_⟩
    rw [declared, path]
    decide +kernel
  · obtain ⟨own, ct, hl, -, -, -, -, -, -, angle⟩ :=
      compile_gradients parsed compile_heroTree (tokenIn?_heroTree heroHero (by simp)) rfl
        (lintToken_heroTree _ (by simp))
    obtain rfl : heroCss = own := Option.some.inj hl
    rw [hero] at angle
    obtain ⟨base, type, value, hb, ⟨t, look, denotes⟩, resolved, comes⟩ :=
      angle (.str "\x7bturn\x7d") ⟨"turn"⟩ rfl (by decide) orderly_heroTree
        fun x used y => follows_heroTurn _ used
    obtain rfl : heroCss = base := Option.some.inj hb
    obtain rfl : Json.num (.integer 90) = value := Option.some.inj resolved
    have same := eq_of_denotes (tokenIn?_heroTree heroTurn (by simp)) look denotes
    obtain rfl : type = .number := Option.some.inj (congrArg Resolved.type same)
    rw [← hero, comes trivial (by simp) (scalarText (.num (.integer 90))) rfl]
    exact scalarText_ne_angleText (.integer 90)

/-- **A gradient without its stops**: its angle and its stops are references, and no error is found in its
value. What is declared has none of the two stops that this value has. -/
theorem not_shown_heroTree : (∀ t ∈ [heroTree], t.Parsed) ∧
    compile [heroTree] [] .standard = .ok heroOutput ∧
    tokenIn? [heroTree] .base "hero" = some heroHero ∧ heroHero.type = some .gradient ∧
    (∀ d ∈ lintToken Rule.all heroHero, d.isError = false) ∧
    (stopItems heroHero.value).length = 2 ∧
    ∃ ct ∈ heroCss, ct.path = "hero" ∧
      plainDeclarations ct = [("--hero", "linear-gradient(var(--turn))")] ∧
      ∀ angle stops, shownStops Reference.use .standard "hero" heroHero.raw heroHero.value = .ok stops →
        plainDeclarations ct ≠
          [("--hero", gradientText (gradientKind heroHero.value) (angle ++ stops))] := by
  have parsed : ∀ t ∈ [heroTree], t.Parsed := by simpa using parsed_heroTree
  refine ⟨parsed, compile_heroTree, tokenIn?_heroTree heroHero (by simp), rfl,
    lintToken_heroTree _ (by simp), rfl, _, .tail _ (.tail _ (.head _)), rfl, ?_, ?_⟩
  · decide +kernel
  · intro angle stops shown same
    obtain rfl : ["#000 0%", "#fff 100%"] = stops := Except.ok.inj shown
    -- the text that is declared has no hash, and that of the first stop has one
    have declared : Name.renderReferences (gradientText "linear" ["\x7bturn\x7d"]) =
        gradientText (gradientKind heroHero.value) (angle ++ ["#000 0%", "#fff 100%"]) :=
      congrArg Prod.snd (List.cons.inj same).1
    have hash : '#' ∈ (gradientText (gradientKind heroHero.value)
        (angle ++ ["#000 0%", "#fff 100%"])).toList := by
      refine mem_gradientText (List.mem_append_right angle (List.mem_cons_self ..)) ?_
      decide
    rw [← declared] at hash
    revert hash
    decide +kernel

end DesignTokens
