import DesignTokens.Proofs.Css.Colors
import DesignTokens.Proofs.Css.Families

/-!
# Composite values

What is written for a composite value is put together from its parts, and so is what it comes to.

* `renders_part`, `renders_colorPart`: the text of a property that may be absent;
* **`renders_border`**, **`renders_shadow`**, **`renders_transition`**: values of one text.
-/

namespace DesignTokens

theorem Json.mem_parts {keys : List String} {j part : Json} :
    part ∈ j.parts keys ↔ ∃ key ∈ keys, j.member? key = some part := by
  unfold Json.parts
  rw [List.mem_filterMap]

section Composites

variable {transforms : Transforms} {decls : List (String × List Fragment)} {σ : Reference → Json}
  {type : TokenType} {property : Option String} {j : Json} {names : Prop} {path : String}

variable (σ) in
theorem member?_resolved (whole : Reference.ofJson? j = none) {key : String} {part : Json}
    (hp : j.member? key = some part) : (j.substitute σ).member? key = some (part.substitute σ) := by
  rw [Json.member?_substitute σ whole, hp]
  rfl

/-- **The text of a property.** -/
theorem renders_part (whole : Reference.ofJson? j = none) {key : String} {text : Json → String}
    {ok : Json → Prop} (h : ∀ part, j.member? key = some part →
      RendersWithin decls names (ok part) (text part) (text (part.substitute σ))) :
    RendersAll decls names (∀ part, j.member? key = some part → ok part)
      ((j.operand σ).part key text) (((j.substitute σ).operand σ).part key text) := by
  unfold Operand.part
  rw [Json.member?_operand, Json.member?_operand, Json.member?_substitute σ whole]
  cases hm : j.member? key with
  | none => exact .nil fun part hp => by cases hp
  | some part =>
    refine (RendersAll.singleton (h part hm)).congr ⟨fun spelled part' hp => ?_, fun spelled => ?_⟩
    · cases hp
      exact spelled
    · exact spelled part rfl

variable (names) in
/-- **The text of the color property.** -/
theorem renders_colorPart (draws : Draws transforms decls σ type property j)
    (plain : (j.substitute σ).Plain) (whole : Reference.ofJson? j = none)
    (asks : type.property? "color" = some .color) {texts : List String}
    (h : (j.operand σ).colorPart transforms path = .ok texts) :
    ∃ values, (∀ path', ((j.substitute σ).operand σ).colorPart transforms path' = .ok values) ∧
      RendersAll decls names True texts values := by
  unfold Operand.colorPart at h ⊢
  rw [Json.member?_operand] at h
  rw [Json.member?_operand, Json.member?_substitute σ whole]
  cases hm : j.member? "color" with
  | none =>
    rw [hm] at h
    cases h
    exact ⟨[], fun _ => rfl, .nil trivial⟩
  | some part =>
    rw [hm] at h
    obtain ⟨text, ht, h⟩ := bind_eq_ok.1 h
    cases h
    have plain := plain.member? (member?_resolved σ whole hm)
    obtain ⟨value, same, evaluates⟩ := evaluates_innerColor (draws.member hm) plain asks ht
    refine ⟨[value], fun path' => bind_eq_ok.2 ⟨value, ?_, rfl⟩, ?_⟩
    · rw [Json.operand_of_plain σ plain]
      exact same path'
    · exact .singleton (evaluates.renders trivial)

theorem renders_amountPart (draws : Draws transforms decls σ type property j)
    (plain : (j.substitute σ).Plain) (whole : Reference.ofJson? j = none)
    (quotable : names → j.Quotable) {key : String} {asked : TokenType}
    (asks : type.property? key = some asked) (lengths : asked ∈ [.dimension, .duration, .number])
    (amount : ∀ part, (j.substitute σ).member? key = some part → IsAmount part) :
    RendersAll decls names (∀ part, j.member? key = some part → SpelledAmount part)
      ((j.operand σ).part key dimensionText) (((j.substitute σ).operand σ).part key dimensionText) :=
  renders_part whole fun part hp => by
    have resolved := member?_resolved σ whole hp
    exact renders_amount (draws.member hp) (plain.member? resolved) asks lengths
      (amount _ resolved) fun named => (quotable named).member? hp

/-! ## Borders and transitions -/

/-- **A border.** -/
theorem renders_border (draws : Draws transforms decls σ .border property j)
    (plain : (j.substitute σ).Plain) (whole : Reference.ofJson? j = none)
    (quotable : names → j.Quotable) (passes : Passes (checkBorder (j.substitute σ))) {text : String}
    (h : convertBorder transforms path (j.operand σ) = .ok text) :
    ∃ value, (∀ path', convertBorder transforms path' ((j.substitute σ).operand σ) = .ok value) ∧
      RendersWithin decls names (SpelledOut .border j) text value := by
  obtain ⟨-, fields⟩ := passes_checkFields passes
  obtain ⟨color, hcolor, h⟩ := bind_eq_ok.1 h
  cases h
  obtain ⟨values, same, colors⟩ := renders_colorPart names draws plain whole rfl hcolor
  have width : RendersAll decls names _ ((j.operand σ).part "width" dimensionText) _ :=
    renders_amountPart draws plain whole quotable rfl (by simp) fun part hp =>
      isAmount_of_dimension (fields ⟨"width", true, checkDimension⟩ (by simp) part hp)
  have style : RendersAll decls names (∀ part, j.member? "style" = some part → True)
      ((j.operand σ).part "style" strokeText) (((j.substitute σ).operand σ).part "style" strokeText) :=
    renders_part whole fun part hp => by
      have resolved := member?_resolved σ whole hp
      refine (evaluates_stroke (draws.member hp) (plain.member? resolved) rfl ?_).renders trivial
      exact ne_arr_of_stroke (fields ⟨"style", true, checkStroke⟩ (by simp) _ resolved)
  refine ⟨_, fun path' => bind_eq_ok.2 ⟨values, same path', rfl⟩, ?_⟩
  refine (((width.append style).append colors).join (by decide)).congr ?_
  simp [SpelledOut, amountsOf, familiesOf, Json.mem_parts]

/-- **A transition.** -/
theorem renders_transition (draws : Draws transforms decls σ .transition property j)
    (plain : (j.substitute σ).Plain) (whole : Reference.ofJson? j = none)
    (quotable : names → j.Quotable) (passes : Passes (checkTransition (j.substitute σ))) :
    RendersWithin decls names (SpelledOut .transition j) (convertTransition (j.operand σ))
      (convertTransition ((j.substitute σ).operand σ)) := by
  obtain ⟨-, fields⟩ := passes_checkFields passes
  have duration : RendersAll decls names _ ((j.operand σ).part "duration" dimensionText) _ :=
    renders_amountPart draws plain whole quotable rfl (by simp) fun part hp =>
      isAmount_of_duration (fields ⟨"duration", true, checkDuration⟩ (by simp) part hp)
  have delay : RendersAll decls names _ ((j.operand σ).part "delay" dimensionText) _ :=
    renders_amountPart draws plain whole quotable rfl (by simp) fun part hp =>
      isAmount_of_duration (fields ⟨"delay", false, checkDuration⟩ (by simp) part hp)
  have timing : RendersAll decls names (∀ part, j.member? "timingFunction" = some part → True)
      ((j.operand σ).part "timingFunction" bezierText)
      (((j.substitute σ).operand σ).part "timingFunction" bezierText) :=
    renders_part whole fun part hp => by
      have resolved := member?_resolved σ whole hp
      exact (evaluates_bezier (draws.member hp) (plain.member? resolved) rfl
        (fields ⟨"timingFunction", true, checkCubicBezier⟩ (by simp) _ resolved)).renders trivial
  refine (((duration.append timing).append delay).join (by decide)).congr ?_
  simp [SpelledOut, amountsOf, familiesOf, Json.mem_parts, or_imp, forall_and]

/-! ## Shadows -/

theorem renders_length (draws : Draws transforms decls σ .shadow property j)
    (plain : (j.substitute σ).Plain) (whole : Reference.ofJson? j = none)
    (quotable : names → j.Quotable) {key : String}
    (asks : TokenType.property? .shadow key = some .dimension)
    (amount : ∀ part, (j.substitute σ).member? key = some part → IsAmount part) :
    RendersWithin decls names (∀ part, j.member? key = some part → SpelledAmount part)
      ((((j.operand σ).member? key).map fun p => dimensionText p.raw).getD "0")
      (((((j.substitute σ).operand σ).member? key).map fun p => dimensionText p.raw).getD "0") := by
  rw [Json.member?_operand, Json.member?_operand, Json.member?_substitute σ whole]
  cases hm : j.member? key with
  | none =>
    have zero : Evaluates decls "0" "0" := .refl (by decide)
    exact zero.renders fun part hp => by cases hp
  | some part =>
    have resolved := member?_resolved σ whole hm
    refine (renders_amount (draws.member hm) (plain.member? resolved) asks (by simp)
      (amount _ resolved) fun named => (quotable named).member? hm).congr ?_
    simp

theorem renders_layer (draws : Draws transforms decls σ .shadow property j)
    (plain : (j.substitute σ).Plain) (whole : Reference.ofJson? j = none)
    (quotable : names → j.Quotable) (passes : Passes (checkLayer (j.substitute σ))) {text : String}
    (h : convertLayer transforms path (j.operand σ) = .ok text) :
    ∃ value, (∀ path', convertLayer transforms path' ((j.substitute σ).operand σ) = .ok value) ∧
      RendersWithin decls names (∀ a ∈ j.parts layerAmounts, SpelledAmount a) text value := by
  obtain ⟨⟨resolvedMembers, hobj⟩, fields⟩ := passes_checkFields passes
  have stays := Json.substitute_of_plain σ plain
  cases j with
  | obj members =>
    obtain ⟨color, hcolor, h⟩ := bind_eq_ok.1 h
    cases h
    obtain ⟨values, same, colors⟩ := renders_colorPart names draws plain whole rfl hcolor
    have offsetX := renders_length draws plain whole quotable rfl fun part hp =>
      isAmount_of_dimension (fields ⟨"offsetX", true, checkDimension⟩ (by simp) part hp)
    have offsetY := renders_length draws plain whole quotable rfl fun part hp =>
      isAmount_of_dimension (fields ⟨"offsetY", true, checkDimension⟩ (by simp) part hp)
    have blur := renders_length draws plain whole quotable rfl fun part hp =>
      isAmount_of_dimension (fields ⟨"blur", true, checkDimension⟩ (by simp) part hp)
    have spread : RendersAll decls names _ (((Json.obj members).operand σ).part "spread" _) _ :=
      renders_amountPart draws plain whole quotable rfl (by simp) fun part hp =>
        isAmount_of_dimension (fields ⟨"spread", false, checkDimension⟩ (by simp) part hp)
    have lengths := RendersAll.cons offsetX (.cons offsetY (.singleton blur))
    have inset : RendersAll decls names True
        (if (((Json.obj members).substitute σ).member? "inset").bind Json.bool? = some true then
          ["inset"] else [])
        (if ((((Json.obj members).substitute σ).substitute σ).member? "inset").bind Json.bool? =
          some true then ["inset"] else []) := by
      have keyword : Evaluates decls "inset" "inset" := .refl (by decide)
      rw [stays]
      split
      · exact .singleton (keyword.renders trivial)
      · exact .nil trivial
    refine ⟨_, fun path' => bind_eq_ok.2 ⟨values, same path', rfl⟩, ?_⟩
    refine ((((inset.append lengths).append spread).append colors).join (by decide)).congr ?_
    simp [layerAmounts, Json.mem_parts, or_imp, forall_and, and_assoc]
  | str s =>
    rw [Json.substitute_of_isScalar σ whole trivial] at hobj
    cases hobj
  | null | bool _ | num _ | arr _ => cases hobj

theorem renders_listedLayer (draws : Draws transforms decls σ .shadow none j)
    (plain : (j.substitute σ).Plain) (quotable : names → j.Quotable)
    (passes : Passes (checkLayer (j.substitute σ))) {text : String}
    (h : convertLayer transforms path (j.operand σ) = .ok text) :
    ∃ value, (∀ path', convertLayer transforms path' ((j.substitute σ).operand σ) = .ok value) ∧
      RendersWithin decls names (∀ a ∈ j.parts layerAmounts, SpelledAmount a) text value := by
  cases whole : Reference.ofJson? j with
  | none => exact renders_layer draws plain whole quotable passes h
  | some r =>
    obtain ⟨found, carried, fits⟩ := draws.reference whole
    obtain rfl : found = .shadow := by
      rcases fits_iff.1 (fits _ rfl) with rfl | ⟨-, same⟩ | ⟨-, same⟩
      · rfl
      · cases same
      · cases same
    obtain ⟨body, value, -, -, same⟩ := carried.comes (by simp)
    obtain ⟨layer, rfl, layers⟩ := single_of_conversionOf? rfl (ofJson?_of_plain plain) same
    obtain ⟨rfl, valid⟩ := ofJson?_eq_some_iff.1 whole
    cases h
    have evaluates := carried.evaluates valid (by simp) (same "")
    refine ⟨layer, fun path' => ?_, evaluates.renders fun a ha => ?_⟩
    · have := layers path'
      obtain ⟨⟨members, hobj⟩, -⟩ := passes_checkFields passes
      rw [Json.operand_of_plain σ plain]
      rw [hobj] at this ⊢
      exact this
    · obtain ⟨key, -, hp⟩ := Json.mem_parts.1 ha
      cases hp

theorem renders_layers : ∀ {items : List Json} {texts : List String},
    (∀ item ∈ items, Draws transforms decls σ .shadow none item) →
    (∀ item ∈ items, (item.substitute σ).Plain) → (names → ∀ item ∈ items, item.Quotable) →
    (∀ item ∈ items, Passes (checkLayer (item.substitute σ))) →
    (items.map (Json.operand σ)).mapM (convertLayer transforms path) = .ok texts →
    ∃ values, (∀ path', ((items.map (Json.substitute σ)).map (Json.operand σ)).mapM
        (convertLayer transforms path') = .ok values) ∧
      RendersAll decls names (∀ item ∈ items, ∀ a ∈ item.parts layerAmounts, SpelledAmount a)
        texts values
  | [], texts, _, _, _, _, h => by
    cases h
    exact ⟨[], fun _ => rfl, .nil (by simp)⟩
  | item :: rest, texts, draws, plain, quotable, passes, h => by
    simp only [List.forall_mem_cons] at draws plain passes quotable
    rw [List.map_cons, List.mapM_cons] at h
    obtain ⟨text, ht, h⟩ := bind_eq_ok.1 h
    obtain ⟨texts, hts, h⟩ := bind_eq_ok.1 h
    cases h
    obtain ⟨value, same, renders⟩ := renders_listedLayer draws.1 plain.1
      (fun named => (quotable named).1) passes.1 ht
    obtain ⟨values, sames, renders'⟩ := renders_layers draws.2 plain.2
      (fun named => (quotable named).2) passes.2 hts
    refine ⟨value :: values, fun path' => ?_, (RendersAll.cons renders renders').congr ?_⟩
    · rw [List.map_cons, List.map_cons, List.mapM_cons]
      exact bind_eq_ok.2 ⟨value, same path', bind_eq_ok.2 ⟨values, sames path', rfl⟩⟩
    · rw [List.forall_mem_cons]

/-- **A shadow**, of one layer or of several. -/
theorem renders_shadow (draws : Draws transforms decls σ .shadow none j)
    (plain : (j.substitute σ).Plain) (whole : Reference.ofJson? j = none)
    (quotable : names → j.Quotable) (passes : Passes (checkShadow (j.substitute σ))) {text : String}
    (h : convertShadow transforms path (j.operand σ) = .ok text) :
    ∃ value, (∀ path', convertShadow transforms path' ((j.substitute σ).operand σ) = .ok value) ∧
      RendersWithin decls names (SpelledOut .shadow j) text value := by
  cases j with
  | arr items =>
    rw [Json.substitute_arr] at passes plain ⊢
    have layers : ∀ item ∈ items, Passes (checkLayer (item.substitute σ)) := by
      rcases layers_of_shadow passes with ⟨_, same, layers⟩ | layer
      · cases same
        exact fun item hi => layers _ (List.mem_map_of_mem hi)
      · obtain ⟨⟨_, same⟩, -⟩ := passes_checkFields layer
        cases same
    obtain ⟨texts, hts, h⟩ := bind_eq_ok.1 h
    cases h
    rw [Json.items_operand] at hts
    obtain ⟨values, sames, renders⟩ := renders_layers (fun item hi => draws.item hi)
      (fun item hi => Json.AllStrings.of_mem plain (List.mem_map_of_mem hi))
      (fun named item hi => Json.ItemsQuotable.of_mem (quotable named) hi) layers hts
    refine ⟨Text.join ", " values, fun path' => bind_eq_ok.2 ⟨values, ?_, rfl⟩, ?_⟩
    · rw [Json.items_operand]
      exact sames path'
    · refine (renders.join (by decide)).congr ?_
      simp only [SpelledOut, amountsOf, familiesOf, List.mem_flatMap, forall_exists_index, and_imp,
        List.not_mem_nil, false_imp_iff, implies_true, and_true]
      exact ⟨fun h a item hi ha => h item hi a ha, fun h item hi a ha => h a item hi ha⟩
  | obj members =>
    have layer : Passes (checkLayer ((Json.obj members).substitute σ)) := passes
    obtain ⟨value, same, renders⟩ := renders_layer draws plain whole quotable layer h
    refine ⟨value, same, renders.congr ?_⟩
    simp [SpelledOut, amountsOf, familiesOf]
  | str s =>
    rw [Json.substitute_of_isScalar σ whole trivial] at passes
    exact absurd passes (not_passes_singleton rfl)
  | null | bool _ | num _ => exact absurd passes (not_passes_singleton rfl)

end Composites

end DesignTokens
