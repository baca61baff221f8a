import DesignTokens.Proofs.Css.Composites

/-!
# Values that can be converted

The checks look at resolved values, and the conversion goes through the value as written and the
resolved one side by side. What passes the checks has the shape that the conversion needs, at every
place where it needs one: it may still have a color space that is unknown, or no stand-in for it.

* `ConvertError.IsInvalid`: the value has the wrong shape;
* `avoids_convertColor`, `avoids_innerColor`, `avoids_convertFluid`: colors and fluid dimensions;
* `avoids_convertBorder`, `avoids_convertShadow`, `avoids_convertGradient`, `avoids_convertTypography`:
  values with such parts;
* **`avoids_convert?`**: an accepted value of any type.
-/

namespace DesignTokens

/-- The value has the wrong shape. -/
def ConvertError.IsInvalid : ConvertError → Prop
  | .invalidValue _ _ _ => True
  | .unsupportedColorSpace _ _ => False
  | .missingHexFallback _ _ => False

/-- The conversion does not find a value of the wrong shape. -/
abbrev AvoidsInvalid {α : Type} (x : Except ConvertError α) : Prop := Avoids ConvertError.IsInvalid x

variable {transforms : Transforms} {path : String} {σ : Reference → Json} {j : Json}

/-! ## Colors -/

theorem shape_of_checkColor {color : Json} (h : Passes (checkColor color)) :
    (∃ s, color = .str s) ∨ (∃ space, (color.member? "colorSpace").bind Json.string? = some space) ∧
      ∃ a b c, components color = [a, b, c] := by
  cases color with
  | str s => exact .inl ⟨s, rfl⟩
  | obj members =>
    refine .inr ?_
    simp only [checkColor] at h
    split at h
    · exact absurd h (not_passes_singleton rfl)
    · rename_i space hspace
      refine ⟨⟨space, hspace⟩, ?_⟩
      have parts : Passes (checkComponents space (.obj members)) :=
        (passes_append.1 (passes_append.1 h).1).1
      unfold checkComponents at parts
      split at parts
      · rename_i x y z items
        split at parts
        · rename_i a b c hx hy hz
          refine ⟨a, b, c, ?_⟩
          simp [components, items, hx, hy, hz]
        · exact absurd parts (not_passes_singleton rfl)
      · exact absurd parts (not_passes_singleton rfl)
  | null | bool _ | num _ | arr _ => exact absurd h (not_passes_singleton rfl)

theorem avoids_hexFallback (space : String) (color : Json) :
    AvoidsInvalid (hexFallback path space color) := by
  unfold hexFallback
  split
  · exact avoids_ok _
  · exact avoids_error id

section Color

variable {color : Json} (passes : Passes (checkColor color)) (object : ∀ s, color ≠ .str s)

include passes object

theorem avoids_colorSpace : AvoidsInvalid (colorSpace path color) := by
  rcases shape_of_checkColor passes with ⟨s, rfl⟩ | ⟨⟨space, hspace⟩, -⟩
  · exact absurd rfl (object s)
  · unfold colorSpace
    rw [hspace]
    exact avoids_ok space

theorem avoids_colorText : AvoidsInvalid (colorText path color) := by
  rcases shape_of_checkColor passes with ⟨s, rfl⟩ | ⟨-, a, b, c, parts⟩
  · exact absurd rfl (object s)
  · unfold colorText
    refine (avoids_colorSpace passes object).bind fun space _ => ?_
    rw [parts]
    dsimp only
    repeat' split
    · exact avoids_ok _
    · exact avoids_ok _
    · exact avoids_ok _
    · exact avoids_ok _
    · exact avoids_error id

end Color

/-- **A color token.** -/
theorem avoids_convertColor (passes : Passes (checkColor (j.substitute σ))) :
    AvoidsInvalid (convertColor transforms path (j.operand σ)) := by
  unfold convertColor
  split
  · exact avoids_ok _
  · rename_i object
    have resolved : ∀ s, j.substitute σ ≠ .str s := substitute_ne_str object
    refine (avoids_colorSpace passes resolved).bind fun space _ => ?_
    refine (avoids_colorText passes resolved).bind fun native _ => ?_
    split
    · exact (avoids_hexFallback space _).bind fun hex _ => avoids_ok _
    · exact avoids_ok _

/-- **A color inside another value.** -/
theorem avoids_innerColor (passes : Passes (checkColor (j.substitute σ))) :
    AvoidsInvalid (innerColor transforms path (j.operand σ)) := by
  rw [innerColor_eq]
  exact (avoids_convertColor passes).map _

theorem avoids_colorPart
    (passes : ∀ part, (j.substitute σ).member? "color" = some part → Passes (checkColor part)) :
    AvoidsInvalid ((j.operand σ).colorPart transforms path) := by
  unfold Operand.colorPart
  rw [Json.member?_operand]
  cases hm : j.member? "color" with
  | none => exact avoids_ok []
  | some part =>
    have color := passes _ (member?_resolved σ (Json.whole_of_member? hm) hm)
    exact (avoids_innerColor color).bind fun text _ => avoids_ok [text]

/-! ## Fluid dimensions -/

theorem exists_toRem? {dimension : Json} (h : Passes (checkDimension dimension)) :
    ∃ x, toRem? dimension = some x := by
  cases dimension with
  | obj members =>
    obtain ⟨amount, hunit⟩ := passes_append.1 h
    split at amount
    · rename_i number
      obtain ⟨x, hx⟩ := Option.isSome_iff_exists.1 number
      obtain ⟨v, hv, hx⟩ := Option.bind_eq_some_iff.1 hx
      split at hunit
      · rename_i unit found
        obtain ⟨u, hu, hs⟩ := Option.bind_eq_some_iff.1 found
        split at hunit
        · rename_i known
          simp only [List.mem_cons, List.not_mem_nil, or_false] at known
          unfold toRem? inRem?
          rcases known with rfl | rfl
          · exact ⟨x / rootFontSize, by simp [hv, hx, hu, hs]⟩
          · exact ⟨x, by simp [hv, hx, hu, hs]⟩
        · exact absurd hunit (not_passes_singleton rfl)
      · exact absurd hunit (not_passes_singleton rfl)
    · exact absurd amount (not_passes_singleton rfl)
  | null | bool _ | num _ | str _ | arr _ => exact absurd h (not_passes_singleton rfl)

theorem avoids_fluidBound {key : String} {fluid : Json} (h : Passes (checkBound key fluid)) :
    AvoidsInvalid (fluidBound path key fluid) := by
  unfold checkBound at h
  unfold fluidBound
  cases hm : fluid.member? key with
  | none =>
    rw [hm] at h
    exact absurd h (not_passes_singleton rfl)
  | some dimension =>
    rw [hm] at h
    obtain ⟨x, hx⟩ := exists_toRem? (passes_issuesUnder.1 h)
    rw [Option.bind_some, hx]
    exact avoids_ok x

/-- **A fluid dimension.** -/
theorem avoids_convertFluid {o : Operand} (passes : Passes (checkFluid o.resolved)) :
    AvoidsInvalid (convertFluid transforms path o) := by
  obtain ⟨raw, fluid⟩ := o
  cases fluid with
  | obj members =>
    obtain ⟨min, max⟩ := passes_append.1 passes
    exact (avoids_fluidBound min).bind fun _ _ => (avoids_fluidBound max).bind fun _ _ => avoids_ok _
  | null | bool _ | num _ | str _ | arr _ => exact absurd passes (not_passes_singleton rfl)

/-! ## Composite values -/

/-- **A border.** -/
theorem avoids_convertBorder (passes : Passes (checkBorder (j.substitute σ))) :
    AvoidsInvalid (convertBorder transforms path (j.operand σ)) := by
  have color : ∀ part, (j.substitute σ).member? "color" = some part → Passes (checkColor part) :=
    (passes_checkFields passes).2 _ (List.mem_cons_self ..)
  exact (avoids_colorPart color).bind fun _ _ => avoids_ok _

theorem avoids_convertLayer (passes : Passes (checkLayer (j.substitute σ))) :
    AvoidsInvalid (convertLayer transforms path (j.operand σ)) := by
  have color : ∀ part, (j.substitute σ).member? "color" = some part → Passes (checkColor part) :=
    (passes_checkFields passes).2 _ (List.mem_cons_self ..)
  unfold convertLayer
  split
  · exact avoids_ok _
  · exact (avoids_colorPart color).bind fun _ _ => avoids_ok _

theorem avoids_layers {items : List Json}
    (passes : ∀ item ∈ items, Passes (checkLayer (item.substitute σ))) :
    AvoidsInvalid ((items.map (Json.operand σ)).mapM (convertLayer transforms path)) := by
  refine avoids_mapM fun o ho => ?_
  obtain ⟨item, hi, rfl⟩ := List.mem_map.1 ho
  exact avoids_convertLayer (passes item hi)

/-- **A shadow.** -/
theorem avoids_convertShadow (whole : Reference.ofJson? j = none)
    (passes : Passes (checkShadow (j.substitute σ))) :
    AvoidsInvalid (convertShadow transforms path (j.operand σ)) := by
  cases j with
  | arr items =>
    rw [Json.substitute_arr] at passes
    have each : ∀ item ∈ items, Passes (checkLayer (item.substitute σ)) := by
      rcases layers_of_shadow passes with ⟨layers, same, each⟩ | layer
      · obtain rfl := Json.arr.inj same
        exact fun item hi => each _ (List.mem_map_of_mem hi)
      · exact absurd layer (not_passes_singleton rfl)
    show AvoidsInvalid ((((Json.arr items).operand σ).items.mapM _) >>= _)
    rw [Json.items_operand]
    exact (avoids_layers each).bind fun _ _ => avoids_ok _
  | str s => exact avoids_ok _
  | null | bool _ | num _ => exact absurd passes (not_passes_singleton rfl)
  | obj members =>
    rcases layers_of_shadow passes with ⟨layers, same, -⟩ | layer
    · cases same
    · exact avoids_convertLayer layer

/-! ## Gradients -/

theorem passes_checkStops {stops : List Json} (h : Passes (checkStops stops)) : ∀ stop ∈ stops,
    ∀ color, stop.member? "color" = some color → Passes (checkColor color) := by
  unfold checkStops at h
  split at h
  · exact absurd h (not_passes_singleton rfl)
  · intro stop hs
    exact (passes_checkFields (passes_checkNumbered h stop hs)).2 _ (List.mem_cons_self ..)

theorem avoids_convertStop
    (passes : ∀ part, (j.substitute σ).member? "color" = some part → Passes (checkColor part)) :
    AvoidsInvalid (convertStop transforms path (j.operand σ)) := by
  unfold convertStop
  rw [Json.member?_operand]
  cases hm : j.member? "color" with
  | none => exact avoids_ok _
  | some part =>
    have color := passes _ (member?_resolved σ (Json.whole_of_member? hm) hm)
    exact (avoids_innerColor color).bind fun _ _ => avoids_ok _

theorem avoids_convertStops {items : List Json} {angle : List String}
    (passes : Passes (checkStops (items.map (Json.substitute σ)))) :
    AvoidsInvalid (convertStops transforms path angle ((Json.arr items).operand σ)) := by
  unfold convertStops
  rw [Json.items_operand]
  refine Avoids.bind (avoids_mapM fun o ho => ?_) fun _ _ => avoids_ok _
  obtain ⟨item, hi, rfl⟩ := List.mem_map.1 ho
  exact avoids_convertStop (passes_checkStops passes _ (List.mem_map_of_mem hi))

theorem avoids_convertStops_member {members : List (String × Json)} {part : Json}
    {angle : List String} (passes : Passes (checkGradient ((Json.obj members).substitute σ)))
    (hm : (Json.obj members).member? "stops" = some part) :
    AvoidsInvalid (convertStops transforms path angle (part.operand σ)) := by
  cases part with
  | arr items =>
    have stops : (Json.obj (Json.substituteMembers σ members)).member? "stops" =
        some (.arr (items.map (Json.substitute σ))) :=
      Json.substitute_arr σ items ▸ member?_resolved σ rfl hm
    rw [Json.substitute] at passes
    simp only [checkGradient, stops] at passes
    exact avoids_convertStops (passes_issuesUnder.1 passes)
  | null | bool _ | num _ | str _ | obj _ => exact avoids_ok _

/-- **A gradient.** -/
theorem avoids_convertGradient (passes : Passes (checkGradient (j.substitute σ))) :
    AvoidsInvalid (convertGradient transforms path (j.operand σ)) := by
  cases j with
  | arr items =>
    rw [Json.substitute_arr] at passes
    exact (avoids_convertStops passes).bind fun _ _ => avoids_ok _
  | obj members =>
    unfold convertGradient
    dsimp only [Json.operand]
    rw [← Json.operand, Json.member?_operand]
    cases hm : (Json.obj members).member? "stops" with
    | none => exact avoids_ok _
    | some part => exact (avoids_convertStops_member passes hm).bind fun _ _ => avoids_ok _
  | null | bool _ | num _ | str _ => exact avoids_ok _

/-! ## Text styles -/

theorem fluid_of_checkSize {size : Json} (h : Passes (checkSize size))
    (min : size.hasMember "min" = true) : Passes (checkFluid size) := by
  unfold checkSize at h
  rwa [min, Bool.true_or, if_pos rfl] at h

/-- **A text style.** -/
theorem avoids_convertTypography (passes : Passes (checkTypography (j.substitute σ))) :
    AvoidsInvalid (convertTypography transforms path (j.operand σ)) := by
  have size : ∀ part, (j.substitute σ).member? "fontSize" = some part → Passes (checkSize part) :=
    (passes_checkFields passes).2 ⟨"fontSize", true, checkSize⟩ (by simp)
  unfold convertTypography
  refine Avoids.bind (avoids_filterMapM fun (key, property) _ => ?_) fun _ _ => avoids_ok _
  dsimp only
  rw [Json.member?_operand]
  cases hm : j.member? key with
  | none => exact avoids_ok none
  | some part =>
    refine Avoids.bind ?_ fun _ _ => avoids_ok _
    unfold convertStyle
    repeat' split
    · exact avoids_ok _
    · exact avoids_ok _
    · rename_i both
      obtain ⟨named, fluid⟩ := Bool.and_eq_true_iff.1 both
      obtain rfl : key = "fontSize" := of_decide_eq_true named
      have min : (part.substitute σ).hasMember "min" = true :=
        (Bool.and_eq_true_iff.1 (Bool.and_eq_true_iff.1 fluid).1).2
      have resolved := size _ (member?_resolved σ (Json.whole_of_member? hm) hm)
      exact avoids_convertFluid (fluid_of_checkSize resolved min)
    · exact avoids_ok _

/-! ## All types -/

/-- **An accepted value has the shape that its conversion needs**, whatever of it is written as a
reference. -/
theorem avoids_convert? {type : TokenType} (accepted : Accepted type (j.substitute σ)) :
    AvoidsInvalid (convert? transforms path type (j.operand σ)) := by
  unfold convert?
  split
  · split <;> exact avoids_ok _
  · rename_i whole
    cases type with
    | color => exact (avoids_convertColor (accepted.passes .color rfl)).map _
    | fluidDimension =>
      exact (avoids_convertFluid (o := j.operand σ) (accepted.passes .fluidDimension rfl)).map _
    | typography => exact (avoids_convertTypography (accepted.passes .composite rfl)).map _
    | shadow => exact (avoids_convertShadow whole (accepted.passes .composite rfl)).map _
    | border => exact (avoids_convertBorder (accepted.passes .composite rfl)).map _
    | gradient => exact (avoids_convertGradient (accepted.passes .composite rfl)).map _
    | dimension | duration | cubicBezier | number | fontFamily | fontWeight | transition
      | strokeStyle | unknown _ => exact avoids_ok _

end DesignTokens
