import DesignTokens.Proofs.Css.Sheets
import DesignTokens.Proofs.Css.Styles

/-!
# Conversion by type

One step of evaluation: if the references in a value are to tokens whose custom properties stand for
their values, so do the custom properties of the value.

* `convert?_reference`: a value that is nothing but a reference;
* `RendersOwn`: a value of its own comes to what is written for its resolved value; `renders_value`: all
  types but gradients;
* **`renders_convert?`**: a value of any type but gradients comes to what is written for its resolved
  value exactly if it is spelled out;
* `spelledOut_of_plain`, **`text_of_plain`**: values without references.
-/

namespace DesignTokens

section Types

variable {transforms : Transforms} {decls : List (String × List Fragment)} {σ : Reference → Json}
  {type : TokenType} {j : Json} {names : Prop} {path : String}

/-- **A color of its own.** -/
theorem evaluates_convertColor (plain : (j.substitute σ).Plain)
    (whole : Reference.ofJson? j = none) {body : CssBody}
    (h : convertColor transforms path (j.operand σ) = .ok ⟨body, []⟩) :
    ∃ value, (∀ path', convertColor transforms path' ⟨j.substitute σ, j.substitute σ⟩ =
        .ok ⟨value, []⟩) ∧ BodyEvaluates decls body value := by
  have resolved : convertColor transforms path ⟨j.substitute σ, j.substitute σ⟩ = .ok ⟨body, []⟩ := by
    by_cases string : ∃ s, j = .str s
    · obtain ⟨s, rfl⟩ := string
      have same := Json.substitute_of_isScalar σ whole trivial
      rw [Json.operand, same] at h
      rw [same]
      exact h
    · have hj : ∀ s, j ≠ .str s := fun s hs => string ⟨s, hs⟩
      rw [← convertColor_resolved hj (substitute_ne_str hj)]
      exact h
  obtain ⟨text, rfl, inner⟩ := innerColor_of_convertColor resolved
  refine ⟨.single text, fun path' => convertColor_of_ok resolved path', .single ?_⟩
  exact .refl (braceFree_innerColor plain plain inner)

theorem spelledOut_str (s : String) : SpelledOut type (.str s) := by
  have amount : SpelledAmount (.str s) := fun part hp => by cases hp
  have family : SpelledFamily (.str s) := fun names hn => by cases hn
  have parts : ∀ keys, (Json.str s).parts keys = [] := fun keys => List.filterMap_eq_nil_iff.2 (by
    intro key _
    rfl)
  cases type <;> simp [SpelledOut, amountsOf, familiesOf, parts, amount, family]

theorem type_of_fits {found : TokenType} {v : Json} (carried : Carried transforms decls path found v)
    (accepted : Accepted type v) (fits : found.fits type = true) : found = type := by
  rcases fits_iff.1 fits with same | ⟨rfl, rfl⟩ | ⟨rfl, rfl⟩
  · exact same
  · have passes : Passes (checkFluid v) := accepted.passes .fluidDimension rfl
    exact absurd (hasMember_of_fluid passes) carried.shaped
  · have passes : Passes (checkDimension v) := accepted.passes .dimension rfl
    obtain ⟨_, _, value, unit, -⟩ := isAmount_of_dimension passes
    exact absurd (by simp [Json.hasMember, value, unit]) carried.shaped

/-- **A value that is nothing but a reference.** -/
theorem convert?_reference (draws : Draws transforms decls σ type none j)
    (accepted : Accepted type (j.substitute σ)) (ne : type ≠ .gradient) {r : Reference}
    (whole : Reference.ofJson? j = some r) {body : CssBody}
    (h : convert? transforms path type (j.operand σ) = .ok (some ⟨body, []⟩)) :
    ∃ value, (∀ path', convert? transforms path' type ⟨j.substitute σ, j.substitute σ⟩ =
        .ok (some ⟨value, []⟩)) ∧ BodyEvaluates decls body value := by
  obtain ⟨found, carried, fits⟩ := draws.reference whole
  obtain rfl := type_of_fits carried accepted (fits _ rfl)
  obtain ⟨rfl, valid⟩ := ofJson?_eq_some_iff.1 whole
  by_cases style : found = .typography
  · subst style
    rw [convert?_typographyAlias (o := Json.operand σ (.str r.text)) whole] at h
    cases h
    exact evaluates_typographyAlias carried valid
  · obtain ⟨_, value, -, -, same⟩ := carried.comes ne
    obtain ⟨text, rfl⟩ : ∃ text, value = .single text := exists_body_eq_single (same "") style
    refine ⟨.single text, same, ?_⟩
    rw [convert?_of_whole (o := Json.operand σ (.str r.text)) whole style] at h
    cases h
    exact .single (carried.evaluates valid ne (same ""))

theorem BodyEvaluates.renders {body value : CssBody} {ok : Prop} (h : BodyEvaluates decls body value)
    (spelled : ok) : BodyRenders decls names ok body value :=
  ⟨fun _ => h, fun _ unspelled => absurd spelled unspelled⟩

theorem spelledOut_of_nil (amounts : amountsOf type j = []) (families : familiesOf type j = []) :
    SpelledOut type j := by
  unfold SpelledOut
  rw [amounts, families]
  simp

theorem spelledOut_of_amount (amounts : amountsOf type j = [j]) (families : familiesOf type j = []) :
    SpelledAmount j ↔ SpelledOut type j := by
  unfold SpelledOut
  rw [amounts, families]
  simp

section Own

variable (transforms decls σ names) in
/-- The conversion of a value comes to what is written for its resolved value exactly if the value is spelled
out. -/
def RendersOwn (type : TokenType) (j : Json) : Prop :=
  ∀ {path : String} {body : CssBody},
    convert? transforms path type (j.operand σ) = .ok (some ⟨body, []⟩) →
    ∃ value, (∀ path', convert? transforms path' type ⟨j.substitute σ, j.substitute σ⟩ =
        .ok (some ⟨value, []⟩)) ∧ BodyRenders decls names (SpelledOut type j) body value

variable (draws : Draws transforms decls σ type none j) (plain : (j.substitute σ).Plain)
  (accepted : Accepted type (j.substitute σ)) (shaped : Shaped type (j.substitute σ))
  (quotable : names → j.Quotable) (whole : Reference.ofJson? j = none)

include draws plain quotable in
theorem renders_ownAmount (amount : IsAmount (j.substitute σ)) (asked : type ∈ [.dimension, .duration]) :
    Renders decls names (SpelledOut type j) (dimensionText j) (dimensionText (j.substitute σ)) := by
  have within := renders_amount draws plain rfl (by simp at asked ⊢; tauto) amount quotable
  refine (within.congr (spelledOut_of_amount ?_ ?_)).renders
  all_goals
    simp only [List.mem_cons, List.not_mem_nil, or_false] at asked
    rcases asked with rfl | rfl <;> rfl

theorem Evaluates.rendersOut {text value : String} (h : Evaluates decls text value)
    (amounts : amountsOf type j = []) (families : familiesOf type j = []) :
    Renders decls names (SpelledOut type j) text value :=
  (h.renders (spelledOut_of_nil amounts families)).renders

include draws plain accepted shaped quotable in
theorem renders_textOf? {text : Json → String} (htext : textOf? type = some text) :
    Renders decls names (SpelledOut type j) (text j) (text (j.substitute σ)) := by
  cases type with
  | dimension =>
    cases htext
    exact renders_ownAmount draws plain quotable (isAmount_of_dimension (accepted.passes .dimension rfl))
      (by simp)
  | duration =>
    cases htext
    exact renders_ownAmount draws plain quotable (isAmount_of_duration (accepted.passes .duration rfl))
      (by simp)
  | cubicBezier =>
    cases htext
    exact (evaluates_bezier draws plain rfl (accepted.passes .cubicBezier rfl)).rendersOut rfl rfl
  | number =>
    cases htext
    exact (evaluates_number draws plain rfl shaped).rendersOut rfl rfl
  | fontFamily =>
    cases htext
    have spelled : SpelledFamily j ↔ SpelledOut .fontFamily j := by simp [SpelledOut, amountsOf, familiesOf]
    exact propext spelled ▸ renders_family draws plain rfl shaped quotable
  | fontWeight =>
    cases htext
    have scalar : (j.substitute σ).IsScalar := by
      rcases kind_of_weight (accepted.passes .fontWeight rfl) with ⟨s, hs⟩ | ⟨n, hn⟩
      · exact hs ▸ trivial
      · exact hn ▸ trivial
    exact (evaluates_weight draws plain rfl scalar).rendersOut rfl rfl
  | strokeStyle =>
    cases htext
    exact (evaluates_stroke draws plain rfl shaped).rendersOut rfl rfl
  | color | fluidDimension | typography | shadow | border | transition | gradient | unknown _ =>
    cases htext

include plain whole in
theorem rendersOwn_of_textOf? {text : Json → String} (htext : textOf? type = some text)
    (renders : Renders decls names (SpelledOut type j) (text j) (text (j.substitute σ))) :
    RendersOwn transforms decls σ names type j := by
  intro path body h
  rw [convert?_of_textOf? htext whole] at h
  cases h
  exact ⟨_, fun _ => convert?_of_textOf? htext (ofJson?_of_plain plain), .single renders⟩

include plain whole in
theorem rendersOwn_of_conversionOf? {conversion : String → Operand → Except ConvertError String}
    (hconversion : conversionOf? transforms type = some conversion)
    (each : ∀ {path text}, conversion path (j.operand σ) = .ok text →
      ∃ value, (∀ path', conversion path' ((j.substitute σ).operand σ) = .ok value) ∧
        RendersWithin decls names (SpelledOut type j) text value) :
    RendersOwn transforms decls σ names type j := by
  intro path body h
  rw [convert?_of_conversionOf? (o := j.operand σ) hconversion whole] at h
  obtain ⟨text, ht, same⟩ := map_eq_ok.1 h
  cases same
  obtain ⟨value, resolved, renders⟩ := each ht
  refine ⟨.single value, fun path' => ?_, .single renders.renders⟩
  rw [convert?_of_conversionOf? hconversion (ofJson?_of_plain plain), ← Json.operand_of_plain σ plain]
  exact map_eq_ok.2 ⟨value, resolved path', rfl⟩

include plain whole in
theorem rendersOwn_color : RendersOwn transforms decls σ names .color j := by
  intro path body h
  rw [convert?_color (o := j.operand σ) whole] at h
  obtain ⟨c, hc, some⟩ := map_eq_ok.1 h
  cases some
  obtain ⟨value, same, evaluates⟩ := evaluates_convertColor plain whole hc
  refine ⟨value, fun path' => ?_, evaluates.renders (spelledOut_of_nil rfl rfl)⟩
  rw [convert?_color (ofJson?_of_plain plain)]
  exact map_eq_ok.2 ⟨_, same path', rfl⟩

include plain whole in
theorem rendersOwn_fluidDimension : RendersOwn transforms decls σ names .fluidDimension j := by
  refine rendersOwn_of_conversionOf? plain whole rfl fun {path text} ht => ?_
  rw [Json.operand_of_plain σ plain]
  have free := (convertFluid_of_ok ht path (j.substitute σ)).2
  exact ⟨text, fun path' => (convertFluid_of_ok ht path' _).1,
    (Evaluates.refl free).renders (spelledOut_of_nil rfl rfl)⟩

theorem rendersOwn_typography (draws : Draws transforms decls σ .typography none j)
    (plain : (j.substitute σ).Plain) (accepted : Accepted .typography (j.substitute σ))
    (quotable : names → j.Quotable) (whole : Reference.ofJson? j = none) :
    RendersOwn transforms decls σ names .typography j := by
  intro path body h
  rw [convert?_typography (o := j.operand σ) whole] at h
  obtain ⟨c, hc, some⟩ := map_eq_ok.1 h
  cases some
  obtain ⟨value, same, renders⟩ :=
    renders_typography draws plain whole quotable (accepted.passes .composite rfl) hc
  refine ⟨value, fun path' => ?_, renders⟩
  rw [convert?_typography (ofJson?_of_plain plain), ← Json.operand_of_plain σ plain]
  exact map_eq_ok.2 ⟨_, same path', rfl⟩

theorem rendersOwn_transition (draws : Draws transforms decls σ .transition none j)
    (plain : (j.substitute σ).Plain) (accepted : Accepted .transition (j.substitute σ))
    (quotable : names → j.Quotable) (whole : Reference.ofJson? j = none) :
    RendersOwn transforms decls σ names .transition j := by
  refine rendersOwn_of_conversionOf? plain whole rfl fun {path text} ht => ?_
  cases ht
  exact ⟨_, fun _ => rfl,
    renders_transition draws plain whole quotable (accepted.passes .composite rfl)⟩

/-- **A value of its own.** -/
theorem renders_value (draws : Draws transforms decls σ type none j)
    (plain : (j.substitute σ).Plain) (accepted : Accepted type (j.substitute σ))
    (shaped : Shaped type (j.substitute σ)) (ne : type ≠ .gradient) (quotable : names → j.Quotable)
    (whole : Reference.ofJson? j = none) : RendersOwn transforms decls σ names type j := by
  cases type with
  | gradient => exact absurd rfl ne
  | color => exact rendersOwn_color plain whole
  | fluidDimension => exact rendersOwn_fluidDimension plain whole
  | typography => exact rendersOwn_typography draws plain accepted quotable whole
  | transition => exact rendersOwn_transition draws plain accepted quotable whole
  | shadow =>
    exact rendersOwn_of_conversionOf? plain whole rfl
      (renders_shadow draws plain whole quotable (accepted.passes .composite rfl))
  | border =>
    exact rendersOwn_of_conversionOf? plain whole rfl
      (renders_border draws plain whole quotable (accepted.passes .composite rfl))
  | unknown name =>
    intro path body h
    rw [convert?_unknown, show Reference.ofJson? (j.operand σ).raw = none from whole] at h
    cases h
  | dimension | duration | cubicBezier | number | fontFamily | fontWeight | strokeStyle =>
    exact rendersOwn_of_textOf? plain whole rfl
      (renders_textOf? draws plain accepted shaped quotable rfl)

end Own

/-- **One step of evaluation**: if the references in a value are to tokens whose custom properties
stand for their values, so do the custom properties of the value. -/
theorem renders_convert? (draws : Draws transforms decls σ type none j)
    (plain : (j.substitute σ).Plain) (accepted : Accepted type (j.substitute σ))
    (shaped : Shaped type (j.substitute σ)) (ne : type ≠ .gradient) (quotable : names → j.Quotable)
    {body : CssBody} (h : convert? transforms path type (j.operand σ) = .ok (some ⟨body, []⟩)) :
    ∃ value, (∀ path', convert? transforms path' type ⟨j.substitute σ, j.substitute σ⟩ =
        .ok (some ⟨value, []⟩)) ∧ BodyRenders decls names (SpelledOut type j) body value := by
  cases whole : Reference.ofJson? j with
  | some r =>
    obtain ⟨value, same, evaluates⟩ := convert?_reference draws accepted ne whole h
    refine ⟨value, same, evaluates.renders ?_⟩
    obtain ⟨rfl, -⟩ := ofJson?_eq_some_iff.1 whole
    exact spelledOut_str _
  | none => exact renders_value draws plain accepted shaped ne quotable whole h

/-! ## Values without references -/

theorem plain_of_mem_amountsOf (plain : j.Plain) : ∀ a ∈ amountsOf type j, a.Plain := by
  have parts : ∀ {v : Json} {keys : List String}, v.Plain → ∀ part ∈ v.parts keys, part.Plain := by
    intro v keys plain part hp
    obtain ⟨key, -, hp⟩ := Json.mem_parts.1 hp
    exact plain.member? hp
  cases type with
  | dimension | duration => exact fun a ha => List.mem_singleton.1 ha ▸ plain
  | border | transition => exact parts plain
  | shadow =>
    cases j with
    | arr layers =>
      intro a ha
      obtain ⟨layer, hl, ha⟩ := List.mem_flatMap.1 ha
      exact parts (Json.AllStrings.of_mem plain hl) a ha
    | null | bool _ | num _ | str _ | obj _ => exact parts plain
  | typography =>
    refine List.forall_mem_append.2 ⟨fun a ha => ?_, parts plain⟩
    exact parts plain a (List.mem_filter.1 ha).1
  | color | fluidDimension | cubicBezier | number | fontFamily | fontWeight | gradient | strokeStyle
  | unknown _ =>
    intro a ha
    cases ha

theorem spelledOut_of_plain (plain : j.Plain) : SpelledOut type j := by
  have family : ∀ {v : Json}, v.Plain → SpelledFamily v := by
    rintro v plain names rfl name hn
    exact ofJson?_of_plain (Json.AllStrings.of_mem plain hn)
  refine ⟨fun a ha part hp => ?_, ?_⟩
  · exact ofJson?_of_plain ((plain_of_mem_amountsOf plain a ha).member? hp)
  · cases type with
    | fontFamily => exact fun f hf => family (List.mem_singleton.1 hf ▸ plain)
    | typography =>
      intro f hf
      obtain ⟨key, -, hf⟩ := Json.mem_parts.1 hf
      exact family (plain.member? hf)
    | _ =>
      intro f hf
      cases hf

/-- **The text of a value without braces** has none, and does not depend on the path. -/
theorem text_of_plain {v : Json} (plain : v.Plain) (accepted : Accepted type v)
    (shaped : Shaped type v) (ne : type ≠ .gradient) (style : type ≠ .typography) {body : CssBody}
    (h : convert? transforms path type ⟨v, v⟩ = .ok (some ⟨body, []⟩)) :
    ∃ text, body = .single text ∧ BraceFree text ∧
      ∀ path', convert? transforms path' type ⟨v, v⟩ = .ok (some (.single text)) := by
  have same : v.substitute (fun _ => .null) = v := Json.substitute_of_plain _ plain
  have draws : Draws transforms [] (fun _ => .null) type none v := by
    intro o ho
    have empty := references_of_plain plain
    rw [Json.references_eq _ none, List.map_eq_nil_iff] at empty
    rw [empty] at ho
    cases ho
  have operand : v.operand (fun _ => .null) = ⟨v, v⟩ := Json.operand_of_plain _ plain
  obtain ⟨value, texts, renders⟩ := renders_convert? draws (same.symm ▸ plain) (same.symm ▸ accepted)
    (same.symm ▸ shaped) ne False.elim (operand ▸ h)
  rw [same] at texts
  obtain rfl : body = value := congrArg CssValue.body
    (Option.some.inj (Except.ok.inj (h.symm.trans (texts path))))
  obtain ⟨text, rfl⟩ := exists_body_eq_single h style
  refine ⟨text, rfl, ?_, texts⟩
  cases renders.evaluates (spelledOut_of_plain plain) with
  | single self => exact self.braceFree

end Types

end DesignTokens
