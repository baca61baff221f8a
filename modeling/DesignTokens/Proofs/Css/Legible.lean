import DesignTokens.Proofs.Css.Families

/-!
# Legible values

Where the conversion expects a text, a number or a truth value and finds nothing, a list or an object, it
writes JSON. Here another text stands in its place, any at all, and what does not depend on it has no JSON
in it.

* `convertOr?`: the conversion with another text for JSON; **`convertOr?_compact`**: with JSON itself it is
  `convert?`;
* `Json.IsSimple`: texts, numbers and truth values; `dimensionTextOr_of_amount`, …: the texts of parts
  without errors do not depend on the other text, and then (`convertBorderOr_of_passes`, …) neither do
  those of the composite values;
* `Legible`: what is left to ask of a value without errors, for the types and the part that no rule
  is for;
* **`otherText_unused_iff_legible`**: the other text is never asked for if the value is legible, and only
  then. Two other texts of different lengths tell (`simple_of_scalarTextOr`, `kind_of_familyTextOr`,
  `simple_of_convertGradientOr`).
-/

namespace DesignTokens

/-! ## Another text for what is not simple -/

section Other

variable (other : Json → String) (transforms : Transforms) (path : String)

/-- A simple value as text, and another text for any other value. -/
def scalarTextOr : Json → String
  | .str s => s
  | .num n => formatNumber n.toFloat
  | .bool b => if b then "true" else "false"
  | j => other j

/-- A dimension or a duration. -/
def dimensionTextOr (j : Json) : String := (formatDimension? j).getD (scalarTextOr other j)

/-- A timing function. -/
def bezierTextOr : Json → String
  | .arr points => "cubic-bezier(" ++ Text.join ", " (points.map (scalarTextOr other)) ++ ")"
  | j => scalarTextOr other j

/-- A stroke style. -/
def strokeTextOr : Json → String
  | .obj _ => "dashed"
  | j => scalarTextOr other j

/-- An angle. -/
def angleTextOr : Json → String
  | .num n => scalarTextOr other (.num n) ++ "deg"
  | j => scalarTextOr other j

/-- A family in a list. -/
def familyItemOr : Json → String
  | .str name => quoteFamily name
  | j => scalarTextOr other j

/-- A family, or a list of them. -/
def familyTextOr : Json → String
  | .arr names => Text.join ", " (names.map (familyItemOr other))
  | .str name => if Text.startsWith "\x7b" name then name else quoteFamily name
  | j => scalarTextOr other j

/-- A font weight. -/
def weightTextOr : Json → String
  | .str keyword => match fontWeight? keyword with
    | some weight => toString weight
    | none => keyword
  | j => scalarTextOr other j

/-- The position of a stop. -/
def positionTextOr : Json → String
  | .num n => formatNumber (n.toFloat * 100) ++ "%"
  | .str reference => "calc(" ++ reference ++ " * 100%)"
  | j => scalarTextOr other j

/-- A border. -/
def convertBorderOr (o : Operand) : Except ConvertError String := do
  let color ← o.colorPart transforms path
  return Text.join " " (o.part "width" (dimensionTextOr other) ++ o.part "style" (strokeTextOr other) ++
    color)

/-- One layer of a shadow. -/
def convertLayerOr (o : Operand) : Except ConvertError String :=
  match o.raw with
  | .str reference => .ok reference
  | _ => do
    let inset := if (o.resolved.member? "inset").bind Json.bool? = some true then ["inset"] else []
    let lengths := ["offsetX", "offsetY", "blur"].map fun key =>
      ((o.member? key).map fun p => dimensionTextOr other p.raw).getD "0"
    let color ← o.colorPart transforms path
    return Text.join " " (inset ++ lengths ++ o.part "spread" (dimensionTextOr other) ++ color)

/-- A shadow. -/
def convertShadowOr (o : Operand) : Except ConvertError String :=
  match o.raw with
  | .arr _ => do
    let layers ← o.items.mapM (convertLayerOr other transforms path)
    return Text.join ", " layers
  | _ => convertLayerOr other transforms path o

/-- A transition. -/
def convertTransitionOr (o : Operand) : String :=
  Text.join " " (o.part "duration" (dimensionTextOr other) ++
    o.part "timingFunction" (bezierTextOr other) ++ o.part "delay" (dimensionTextOr other))

/-- A stop of a gradient. -/
def convertStopOr (o : Operand) : Except ConvertError String := do
  let color ← match o.member? "color" with
    | some c => innerColor transforms path c
    | none => .ok "transparent"
  return Text.join " " (color :: o.part "position" (positionTextOr other))

/-- The stops of a gradient behind its angle. -/
def convertStopsOr (angle : List String) (stops : Operand) : Except ConvertError String := do
  let texts ← stops.items.mapM (convertStopOr other transforms path)
  return Text.join ", " (angle ++ texts)

/-- A gradient. -/
def convertGradientOr (o : Operand) : Except ConvertError String :=
  match o.raw with
  | .arr _ => do return "linear-gradient(" ++ (← convertStopsOr other transforms path [] o) ++ ")"
  | _ => do
    let kind := ((o.resolved.member? "type").bind Json.string?).getD "linear"
    match o.member? "stops" with
    | none => return kind ++ "-gradient()"
    | some stops =>
      let angle := (o.part "angle" (angleTextOr other)).map fun a =>
        if kind = "conic" then "from " ++ a else a
      return kind ++ "-gradient(" ++ (← convertStopsOr other transforms path angle stops) ++ ")"

/-- One property of a text style. -/
def convertStyleOr (key : String) (o : Operand) : Except ConvertError String :=
  if key = "fontFamily" then .ok (familyTextOr other o.raw)
  else if key = "fontWeight" then .ok (weightTextOr other o.raw)
  else if key = "fontSize" && o.isFluid then convertFluid transforms path o
  else .ok (dimensionTextOr other o.raw)

/-- A text style. -/
def convertTypographyOr (o : Operand) : Except ConvertError CssValue := do
  let parts ← typographyProperties.filterMapM fun (key, property) =>
    match o.member? key with
    | none => .ok none
    | some part => do return some (property, ← convertStyleOr other transforms path key part)
  return ⟨.entries parts, []⟩

/-- What a value of a type becomes, with another text for whatever stands where a simple value is
expected. -/
def convertOr? (type : TokenType) (o : Operand) : Except ConvertError (Option CssValue) :=
  match Reference.ofJson? o.raw with
  | some r =>
    match type with
    | .typography => .ok (some (typographyAlias r o.resolved))
    | _ => .ok (some (.single r.text))
  | none =>
    match type with
    | .color => some <$> convertColor transforms path o
    | .dimension => .ok (some (.single (dimensionTextOr other o.raw)))
    | .fluidDimension => (some ∘ .single) <$> convertFluid transforms path o
    | .duration => .ok (some (.single (dimensionTextOr other o.raw)))
    | .cubicBezier => .ok (some (.single (bezierTextOr other o.raw)))
    | .number => .ok (some (.single (scalarTextOr other o.raw)))
    | .fontFamily => .ok (some (.single (familyTextOr other o.raw)))
    | .fontWeight => .ok (some (.single (weightTextOr other o.raw)))
    | .typography => some <$> convertTypographyOr other transforms path o
    | .shadow => (some ∘ .single) <$> convertShadowOr other transforms path o
    | .border => (some ∘ .single) <$> convertBorderOr other transforms path o
    | .transition => .ok (some (.single (convertTransitionOr other o)))
    | .gradient => (some ∘ .single) <$> convertGradientOr other transforms path o
    | .strokeStyle => .ok (some (.single (strokeTextOr other o.raw)))
    | .unknown _ => .ok none

end Other

theorem scalarTextOr_compact : scalarTextOr Json.compact = scalarText := by
  funext j
  cases j <;> rfl

theorem convertOr?_compact : convertOr? Json.compact = convert? := by
  funext transforms path type o
  unfold convertOr? convertTypographyOr convertStyleOr convertGradientOr convertStopsOr convertStopOr
    convertTransitionOr convertShadowOr convertLayerOr convertBorderOr positionTextOr weightTextOr
    familyTextOr familyItemOr angleTextOr strokeTextOr bezierTextOr dimensionTextOr
  simp only [scalarTextOr_compact]
  rfl

/-! ## Simple values -/

/-- A text, a number or a truth value. -/
def Json.IsSimple : Json → Prop
  | .str _ | .num _ | .bool _ => True
  | _ => False

section Texts

variable (other : Json → String) {j : Json}

theorem scalarTextOr_of_simple (h : j.IsSimple) : scalarTextOr other j = scalarText j := by
  cases j with
  | str _ | num _ | bool _ => rfl
  | null | arr _ | obj _ => cases h

theorem dimensionTextOr_of_amount (h : IsAmount j) : dimensionTextOr other j = dimensionText j := by
  obtain ⟨n, unit, hv, hu, -⟩ := h
  unfold dimensionTextOr dimensionText formatDimension?
  rw [hv, hu]
  rfl

theorem bezierTextOr_of_passes (h : Passes (checkCubicBezier j)) :
    bezierTextOr other j = bezierText j := by
  rcases kind_of_bezier h with ⟨s, rfl⟩ | ⟨points, rfl, numbers⟩
  · rfl
  · have same : points.map (scalarTextOr other) = points.map scalarText := by
      refine List.map_congr_left fun p hp => ?_
      obtain ⟨n, rfl⟩ := numbers p hp
      rfl
    rw [bezierTextOr, same]
    rfl

theorem strokeTextOr_of_kind (h : j.IsSimple ∨ ∃ members, j = .obj members) :
    strokeTextOr other j = strokeText j := by
  rcases h with simple | ⟨members, rfl⟩
  · cases j with
    | str _ | num _ | bool _ => rfl
    | null | arr _ | obj _ => cases simple
  · rfl

theorem angleTextOr_of_simple (h : j.IsSimple) : angleTextOr other j = angleText j := by
  cases j with
  | str _ | num _ | bool _ => rfl
  | null | arr _ | obj _ => cases h

theorem familyTextOr_of_kind
    (h : j.IsSimple ∨ ∃ names, j = .arr names ∧ ∀ name ∈ names, name.IsSimple) :
    familyTextOr other j = familyText j := by
  rcases h with simple | ⟨names, rfl, simple⟩
  · cases j with
    | str _ | num _ | bool _ => rfl
    | null | arr _ | obj _ => cases simple
  · have same : names.map (familyItemOr other) = names.map familyItem := by
      refine List.map_congr_left fun name hn => ?_
      have simple := simple name hn
      cases name with
      | str _ | num _ | bool _ => rfl
      | null | arr _ | obj _ => cases simple
    rw [familyTextOr, same, familyText_arr]

theorem weightTextOr_of_passes (h : Passes (checkFontWeight j)) :
    weightTextOr other j = weightText j := by
  rcases kind_of_weight h with ⟨s, rfl⟩ | ⟨n, rfl⟩ <;> rfl

theorem positionTextOr_of_passes (h : Passes (checkPosition j)) :
    positionTextOr other j = positionText j := by
  unfold checkPosition at h
  cases j with
  | num n => rfl
  | null | bool _ | str _ | arr _ | obj _ => exact absurd h (not_passes_singleton rfl)

end Texts

/-! ## Parts -/

section Parts

variable {v : Json}

theorem member?_both (key : String) :
    (⟨v, v⟩ : Operand).member? key = (v.member? key).map fun p => ⟨p, p⟩ := by
  unfold Operand.member?
  cases v.member? key <;> rfl

theorem items_both (items : List Json) :
    (⟨.arr items, .arr items⟩ : Operand).items = items.map fun p => ⟨p, p⟩ := by
  -- references in place of themselves
  have both : Json.operand (fun r => .str r.text) = fun j => ⟨j, j⟩ := by
    funext j
    rw [Json.operand, Json.substitute_text]
  rw [← both, ← Json.items_operand, both]

theorem part_congr {f g : Json → String} {key : String}
    (same : ∀ p, v.member? key = some p → f p = g p) :
    (⟨v, v⟩ : Operand).part key f = (⟨v, v⟩ : Operand).part key g := by
  unfold Operand.part
  rw [member?_both]
  cases member : v.member? key with
  | none => rfl
  | some p => simp [same p member]

theorem kind_of_stroke {j : Json} (h : Passes (checkStroke j)) :
    j.IsSimple ∨ ∃ members, j = .obj members := by
  cases j with
  | str _ => exact .inl trivial
  | obj members => exact .inr ⟨members, rfl⟩
  | null | bool _ | num _ | arr _ => exact absurd h (not_passes_singleton rfl)

variable (other : Json → String) (transforms : Transforms) (path : String)

theorem convertBorderOr_of_passes (h : Passes (checkBorder v)) :
    convertBorderOr other transforms path ⟨v, v⟩ = convertBorder transforms path ⟨v, v⟩ := by
  obtain ⟨-, fields⟩ := passes_checkFields h
  have width := part_congr fun p hp => dimensionTextOr_of_amount other
    (isAmount_of_dimension (fields ⟨"width", true, checkDimension⟩ (by simp) p hp))
  have style := part_congr fun p hp => strokeTextOr_of_kind other
    (kind_of_stroke (fields ⟨"style", true, checkStroke⟩ (by simp) p hp))
  unfold convertBorderOr convertBorder
  rw [width, style]

theorem convertLayerOr_of_passes (h : Passes (checkLayer v)) :
    convertLayerOr other transforms path ⟨v, v⟩ = convertLayer transforms path ⟨v, v⟩ := by
  obtain ⟨⟨members, rfl⟩, fields⟩ := passes_checkFields h
  have amount (key : String) (hk : key ∈ ["offsetX", "offsetY", "blur", "spread"]) (p : Json)
      (hp : (Json.obj members).member? key = some p) :
      dimensionTextOr other p = dimensionText p := by
    refine dimensionTextOr_of_amount other (isAmount_of_dimension ?_)
    simp only [List.mem_cons, List.not_mem_nil, or_false] at hk
    rcases hk with rfl | rfl | rfl | rfl
    · exact fields ⟨"offsetX", true, checkDimension⟩ (by simp) p hp
    · exact fields ⟨"offsetY", true, checkDimension⟩ (by simp) p hp
    · exact fields ⟨"blur", true, checkDimension⟩ (by simp) p hp
    · exact fields ⟨"spread", false, checkDimension⟩ (by simp) p hp
  have spread := part_congr (amount "spread" (by simp))
  have lengths : (["offsetX", "offsetY", "blur"].map fun key =>
        (((⟨.obj members, .obj members⟩ : Operand).member? key).map fun p =>
          dimensionTextOr other p.raw).getD "0") =
      ["offsetX", "offsetY", "blur"].map fun key =>
        (((⟨.obj members, .obj members⟩ : Operand).member? key).map fun p =>
          dimensionText p.raw).getD "0" := by
    refine List.map_congr_left fun key hk => ?_
    rw [member?_both]
    cases member : (Json.obj members).member? key with
    | none => rfl
    | some p =>
      show dimensionTextOr other p = dimensionText p
      exact amount key (List.mem_append_left ["spread"] hk) p member
  unfold convertLayerOr convertLayer
  dsimp only
  rw [spread, lengths]

theorem convertShadowOr_of_passes (h : Passes (checkShadow v)) :
    convertShadowOr other transforms path ⟨v, v⟩ = convertShadow transforms path ⟨v, v⟩ := by
  rcases layers_of_shadow h with ⟨layers, rfl, passes⟩ | passes
  · have same : (layers.map fun l => (⟨l, l⟩ : Operand)).mapM (convertLayerOr other transforms path) =
        (layers.map fun l => (⟨l, l⟩ : Operand)).mapM (convertLayer transforms path) := by
      refine mapM_congr fun o ho => ?_
      obtain ⟨l, hl, rfl⟩ := List.mem_map.1 ho
      exact convertLayerOr_of_passes other transforms path (passes l hl)
    unfold convertShadowOr convertShadow
    dsimp only
    rw [items_both, same]
  · obtain ⟨⟨members, rfl⟩, -⟩ := passes_checkFields passes
    exact convertLayerOr_of_passes other transforms path passes

theorem convertTransitionOr_of_passes (h : Passes (checkTransition v)) :
    convertTransitionOr other ⟨v, v⟩ = convertTransition ⟨v, v⟩ := by
  obtain ⟨-, fields⟩ := passes_checkFields h
  have duration := part_congr fun p hp => dimensionTextOr_of_amount other
    (isAmount_of_duration (fields ⟨"duration", true, checkDuration⟩ (by simp) p hp))
  have delay := part_congr fun p hp => dimensionTextOr_of_amount other
    (isAmount_of_duration (fields ⟨"delay", false, checkDuration⟩ (by simp) p hp))
  have timing := part_congr fun p hp => bezierTextOr_of_passes other
    (fields ⟨"timingFunction", true, checkCubicBezier⟩ (by simp) p hp)
  unfold convertTransitionOr convertTransition
  rw [duration, delay, timing]

theorem convertStopsOr_of_passes {stops : List Json} (h : Passes (checkStops stops))
    (angle : List String) : convertStopsOr other transforms path angle ⟨.arr stops, .arr stops⟩ =
      convertStops transforms path angle ⟨.arr stops, .arr stops⟩ := by
  have same : (stops.map fun s => (⟨s, s⟩ : Operand)).mapM (convertStopOr other transforms path) =
      (stops.map fun s => (⟨s, s⟩ : Operand)).mapM (convertStop transforms path) := by
    refine mapM_congr fun o ho => ?_
    obtain ⟨s, hs, rfl⟩ := List.mem_map.1 ho
    unfold checkStops at h
    split at h
    · exact absurd h (not_passes_singleton rfl)
    · obtain ⟨-, fields⟩ := passes_checkFields (passes_checkNumbered h s hs)
      have position : (⟨s, s⟩ : Operand).part "position" (positionTextOr other) =
          (⟨s, s⟩ : Operand).part "position" positionText := part_congr fun p hp =>
        positionTextOr_of_passes other (fields ⟨"position", true, checkPosition⟩ (by simp) p hp)
      rw [convertStopOr, position]
      rfl
  unfold convertStopsOr convertStops
  rw [items_both, same]

theorem stops_of_gradient (h : Passes (checkGradient v)) :
    (∃ stops, v = .arr stops ∧ Passes (checkStops stops)) ∨
      ∃ members stops, v = .obj members ∧ v.member? "stops" = some (.arr stops) ∧
        Passes (checkStops stops) := by
  cases v with
  | arr stops => exact .inl ⟨stops, rfl, h⟩
  | obj members =>
    simp only [checkGradient] at h
    split at h
    · rename_i stops found
      obtain ⟨part, member, items⟩ := Option.bind_eq_some_iff.1 found
      cases part with
      | arr items' =>
        cases items
        exact .inr ⟨members, stops, rfl, member, passes_issuesUnder.1 h⟩
      | null | bool _ | num _ | str _ | obj _ => cases items
    · exact absurd h (not_passes_singleton rfl)
  | null | bool _ | num _ | str _ => exact absurd h (not_passes_singleton rfl)

theorem convertStyleOr_of_passes (h : Passes (checkTypography v)) {key property : String}
    (hk : (key, property) ∈ typographyProperties) {p : Json} (hp : v.member? key = some p) :
    convertStyleOr other transforms path key ⟨p, p⟩ = convertStyle transforms path key ⟨p, p⟩ := by
  obtain ⟨-, fields⟩ := passes_checkFields h
  simp only [typographyProperties, List.mem_cons, List.not_mem_nil, or_false, Prod.mk.injEq] at hk
  rcases hk with ⟨rfl, -⟩ | ⟨rfl, -⟩ | ⟨rfl, -⟩ | ⟨rfl, -⟩ | ⟨rfl, -⟩
  · have family := kind_of_family (fields ⟨"fontFamily", true, checkFontFamily⟩ (by simp) p hp)
    have kind : p.IsSimple ∨ ∃ names, p = .arr names ∧ ∀ name ∈ names, name.IsSimple := by
      rcases family with ⟨s, rfl⟩ | ⟨names, rfl, strings⟩
      · exact .inl trivial
      · refine .inr ⟨names, rfl, fun name hn => ?_⟩
        obtain ⟨s, rfl⟩ := strings name hn
        trivial
    exact congrArg Except.ok (familyTextOr_of_kind other kind)
  · have size := size_of_checkSize (fields ⟨"fontSize", true, checkSize⟩ (by simp) p hp)
    unfold convertStyleOr convertStyle
    by_cases fluid : (⟨p, p⟩ : Operand).isFluid = true
    · simp [fluid]
    · have amount : IsAmount p := by
        rcases size with ⟨min, max⟩ | ⟨amount, -, -⟩
        · refine absurd ?_ fluid
          cases p with
          | obj members => simpa [Operand.isFluid, Json.string?] using ⟨min, max⟩
          | null | bool _ | num _ | str _ | arr _ => cases min
        · exact amount
      simp [fluid, dimensionTextOr_of_amount other amount]
  · have weight := fields ⟨"fontWeight", false, checkFontWeight⟩ (by simp) p hp
    exact congrArg Except.ok (weightTextOr_of_passes other weight)
  · have spacing := fields ⟨"letterSpacing", false, checkDimension⟩ (by simp) p hp
    exact congrArg Except.ok (dimensionTextOr_of_amount other (isAmount_of_dimension spacing))
  · have height := kind_of_lineHeight (fields ⟨"lineHeight", false, checkLineHeight⟩ (by simp) p hp)
    rcases height with ⟨n, rfl⟩ | amount
    · rfl
    · exact congrArg Except.ok (dimensionTextOr_of_amount other amount)

theorem convertTypographyOr_of_passes (h : Passes (checkTypography v)) :
    convertTypographyOr other transforms path ⟨v, v⟩ = convertTypography transforms path ⟨v, v⟩ := by
  unfold convertTypographyOr convertTypography
  refine congrArg (· >>= _) (filterMapM_congr ?_)
  rintro ⟨key, property⟩ hk
  dsimp only
  rw [member?_both]
  cases member : v.member? key with
  | none => rfl
  | some p =>
    dsimp only [Option.map_some]
    rw [convertStyleOr_of_passes other transforms path h hk member]

theorem convertGradientOr_of_passes (h : Passes (checkGradient v))
    (simple : ∀ angle, v.member? "angle" = some angle → angle.IsSimple) :
    convertGradientOr other transforms path ⟨v, v⟩ = convertGradient transforms path ⟨v, v⟩ := by
  rcases stops_of_gradient h with ⟨stops, rfl, passes⟩ | ⟨members, stops, rfl, member, passes⟩
  · unfold convertGradientOr convertGradient
    dsimp only
    rw [convertStopsOr_of_passes other transforms path passes]
  · have angle : (⟨.obj members, .obj members⟩ : Operand).part "angle" (angleTextOr other) =
        (⟨.obj members, .obj members⟩ : Operand).part "angle" angleText := part_congr fun p hp =>
      angleTextOr_of_simple other (simple p hp)
    unfold convertGradientOr convertGradient
    dsimp only
    rw [member?_both, member, angle]
    dsimp only [Option.map_some]
    rw [convertStopsOr_of_passes other transforms path passes]

end Parts

/-! ## Legible values -/

/-- Wherever the conversion of a value without errors takes a part for a simple one, it is one. Only the
types and the part that no rule is for ask for anything. -/
def Legible : TokenType → Json → Prop
  | .number, v => v.IsSimple
  | .fontFamily, v => v.IsSimple ∨ ∃ names, v = .arr names ∧ ∀ name ∈ names, name.IsSimple
  | .strokeStyle, v => v.IsSimple ∨ ∃ members, v = .obj members
  | .gradient, v => ∀ angle, v.member? "angle" = some angle → angle.IsSimple
  | _, _ => True

section Legible

variable {transforms : Transforms} {path : String} {type : TokenType} {v : Json}

theorem legible_reference (r : Reference) : Legible type (.str r.text) := by
  cases type with
  | number => trivial
  | fontFamily | strokeStyle => exact .inl trivial
  | gradient =>
    intro angle member
    cases member
  | color | dimension | fluidDimension | duration | cubicBezier | fontWeight | typography | shadow
    | border | transition | unknown _ => trivial

theorem convertOr?_of_legible (accepted : Accepted type v) (legible : Legible type v)
    (other : Json → String) :
    convertOr? other transforms path type ⟨v, v⟩ = convert? transforms path type ⟨v, v⟩ := by
  unfold convertOr? convert?
  cases whole : Reference.ofJson? v with
  | some r => rfl
  | none =>
    dsimp only
    cases type with
    | color | fluidDimension | unknown _ => rfl
    | dimension =>
      have passes : Passes (checkDimension v) := accepted.passes .dimension rfl
      rw [dimensionTextOr_of_amount other (isAmount_of_dimension passes)]
    | duration =>
      have passes : Passes (checkDuration v) := accepted.passes .duration rfl
      rw [dimensionTextOr_of_amount other (isAmount_of_duration passes)]
    | cubicBezier => rw [bezierTextOr_of_passes other (accepted.passes .cubicBezier rfl)]
    | number => rw [scalarTextOr_of_simple other legible]
    | fontFamily => rw [familyTextOr_of_kind other legible]
    | fontWeight => rw [weightTextOr_of_passes other (accepted.passes .fontWeight rfl)]
    | typography =>
      rw [convertTypographyOr_of_passes other transforms path (accepted.passes .composite rfl)]
    | shadow => rw [convertShadowOr_of_passes other transforms path (accepted.passes .composite rfl)]
    | border => rw [convertBorderOr_of_passes other transforms path (accepted.passes .composite rfl)]
    | transition => rw [convertTransitionOr_of_passes other (accepted.passes .composite rfl)]
    | gradient =>
      rw [convertGradientOr_of_passes other transforms path (accepted.passes .composite rfl) legible]
    | strokeStyle => rw [strokeTextOr_of_kind other legible]

end Legible

/-! ## Two other texts

One that is empty and one that is not tell whether another text was asked for. -/

section Apart

variable {j : Json}

theorem scalarTextOr_of_not_simple (other : Json → String) (h : ¬ j.IsSimple) :
    scalarTextOr other j = other j := by
  cases j with
  | str _ | num _ | bool _ => exact absurd trivial h
  | null | arr _ | obj _ => rfl

theorem simple_of_scalarTextOr
    (h : scalarTextOr (fun _ => "") j = scalarTextOr (fun _ => "?") j) : j.IsSimple := by
  by_contra other
  rw [scalarTextOr_of_not_simple _ other, scalarTextOr_of_not_simple _ other] at h
  exact absurd h (by decide)

theorem kind_of_strokeTextOr
    (h : strokeTextOr (fun _ => "") j = strokeTextOr (fun _ => "?") j) :
    j.IsSimple ∨ ∃ members, j = .obj members := by
  cases j with
  | obj members => exact .inr ⟨members, rfl⟩
  | null | bool _ | num _ | str _ | arr _ => exact .inl (simple_of_scalarTextOr h)

theorem angleTextOr_of_not_simple (other : Json → String) (h : ¬ j.IsSimple) :
    angleTextOr other j = other j := by
  cases j with
  | str _ | num _ | bool _ => exact absurd trivial h
  | null | arr _ | obj _ => rfl

theorem length_familyItemOr (j : Json) :
    (familyItemOr (fun _ => "") j).length ≤ (familyItemOr (fun _ => "?") j).length ∧
      (¬ j.IsSimple →
        (familyItemOr (fun _ => "") j).length < (familyItemOr (fun _ => "?") j).length) := by
  have texts : "".length < "?".length := by decide
  cases j with
  | str _ | num _ | bool _ => exact ⟨Nat.le_refl _, fun h => absurd trivial h⟩
  | null | arr _ | obj _ => exact ⟨Nat.le_of_lt texts, fun _ => texts⟩

theorem kind_of_familyTextOr
    (h : familyTextOr (fun _ => "") j = familyTextOr (fun _ => "?") j) :
    j.IsSimple ∨ ∃ names, j = .arr names ∧ ∀ name ∈ names, name.IsSimple := by
  cases j with
  | arr names =>
    refine .inr ⟨names, rfl, fun name hn => ?_⟩
    by_contra other
    have longer := (length_join_le ", " (fun item => (length_familyItemOr item).1) names).2
      ⟨name, hn, (length_familyItemOr name).2 other⟩
    exact absurd (congrArg String.length h) (Nat.ne_of_lt longer)
  | str _ => exact .inl trivial
  | null | bool _ | num _ | obj _ => exact .inl (simple_of_scalarTextOr h)

theorem length_join_cons {sep s t : String} (lt : s.length < t.length) (rest : List String) :
    (Text.join sep (s :: rest)).length < (Text.join sep (t :: rest)).length := by
  unfold Text.join
  cases rest with
  | nil => simpa using lt
  | cons next rest =>
    simp only [String.intercalate_cons_cons, String.length_append]
    omega

theorem simple_of_convertGradientOr {transforms : Transforms} {path : String} {v : Json}
    {text : String} (passes : Passes (checkGradient v))
    (blank : convertGradientOr (fun _ => "") transforms path ⟨v, v⟩ = .ok text)
    (mark : convertGradientOr (fun _ => "?") transforms path ⟨v, v⟩ = .ok text) {angle : Json}
    (member : v.member? "angle" = some angle) : angle.IsSimple := by
  rcases stops_of_gradient passes with ⟨stops, rfl, -⟩ | ⟨members, stops, rfl, found, passes⟩
  · cases member
  · by_contra other
    unfold convertGradientOr Operand.part at blank mark
    dsimp only at blank mark
    simp only [member?_both, found, member, Option.map_some] at blank mark
    rw [convertStopsOr_of_passes _ transforms path passes] at blank mark
    unfold convertStops at blank mark
    rw [angleTextOr_of_not_simple _ other] at blank mark
    cases read : (⟨.arr stops, .arr stops⟩ : Operand).items.mapM (convertStop transforms path) with
    | error e => rw [read] at blank; cases blank
    | ok texts =>
      rw [read] at blank mark
      have same := congrArg String.length (Except.ok.inj (blank.trans mark.symm))
      simp only [Option.toList_some, List.map_cons, List.map_nil, List.cons_append,
        List.nil_append, String.length_append] at same
      have longer {s t : String} (lt : s.length < t.length) :
          (Text.join ", " (s :: texts)).length < (Text.join ", " (t :: texts)).length :=
        length_join_cons lt texts
      split at same
      · have := longer (s := "from " ++ "") (t := "from " ++ "?") (by decide)
        omega
      · have := longer (s := "") (t := "?") (by decide)
        omega

end Apart

theorem single_inj {s t : String}
    (h : (.ok (some (.single s)) : Except ConvertError (Option CssValue)) = .ok (some (.single t))) :
    s = t := by
  cases h
  rfl

section Exact

variable {transforms : Transforms} {path : String} {type : TokenType} {v : Json}

theorem legible_of_convertOr? (accepted : Accepted type v) {value : CssValue}
    (same : ∀ other, convertOr? other transforms path type ⟨v, v⟩ = .ok (some value)) :
    Legible type v := by
  have blank := same fun _ => ""
  have mark := same fun _ => "?"
  unfold convertOr? at blank mark
  cases whole : Reference.ofJson? v with
  | some r =>
    obtain ⟨rfl, -⟩ := ofJson?_eq_some_iff.1 whole
    exact legible_reference r
  | none =>
    rw [whole] at blank mark
    dsimp only at blank mark
    cases type with
    | number => exact simple_of_scalarTextOr (single_inj (blank.trans mark.symm))
    | fontFamily => exact kind_of_familyTextOr (single_inj (blank.trans mark.symm))
    | strokeStyle => exact kind_of_strokeTextOr (single_inj (blank.trans mark.symm))
    | gradient =>
      obtain ⟨text, blank, hb⟩ := map_eq_ok.1 blank
      obtain ⟨text', mark, hm⟩ := map_eq_ok.1 mark
      obtain rfl : text = text' := single_inj (congrArg Except.ok (hb.trans hm.symm))
      intro angle member
      exact simple_of_convertGradientOr (accepted.passes .composite rfl) blank mark member
    | color | dimension | fluidDimension | duration | cubicBezier | fontWeight | typography | shadow
      | border | transition | unknown _ => trivial

/-- **What a value without errors is written with.** `convertOr?` is the conversion, but for the texts
where it has the JSON of a value that is not simple. What a value comes to does not depend on these texts
if the value is legible, and only then. -/
theorem otherText_unused_iff_legible (accepted : Accepted type v) :
    convertOr? Json.compact = convert? ∧
      (Legible type v → ∀ other, convertOr? other transforms path type ⟨v, v⟩ =
        convert? transforms path type ⟨v, v⟩) ∧
      ∀ value, (∀ other, convertOr? other transforms path type ⟨v, v⟩ = .ok (some value)) →
        Legible type v :=
  ⟨convertOr?_compact, convertOr?_of_legible accepted,
    fun _ same => legible_of_convertOr? accepted same⟩

end Exact

/-- A border. -/
def hairline : Json := .obj [("color", .str "#000"),
  ("width", .obj [("value", .num (.integer 1)), ("unit", .str "px")]), ("style", .str "solid")]

theorem otherText_unused_hairline : Accepted .border hairline ∧ ∀ other,
    convertOr? other .standard "hairline" .border ⟨hairline, hairline⟩ =
      convert? .standard "hairline" .border ⟨hairline, hairline⟩ := by
  have accepted : Accepted .border hairline := by
    unfold Accepted
    decide
  exact ⟨accepted, (otherText_unused_iff_legible accepted).2.1 trivial⟩

/-- A font family that is an object. -/
def namedFamily : Json := .obj [("name", .str "Inter")]

/-- No rule is for font families, and one that is an object is written as JSON. -/
theorem writes_json_namedFamily : namedFamily.references = [] ∧ Accepted .fontFamily namedFamily ∧
    convert? .standard "sans" .fontFamily ⟨namedFamily, namedFamily⟩ =
      .ok (some (.single "\x7b\"name\":\"Inter\"\x7d")) ∧
    ∀ other, convertOr? other .standard "sans" .fontFamily ⟨namedFamily, namedFamily⟩ =
      .ok (some (.single (other namedFamily))) := by
  refine ⟨by decide, ?_, ?_, fun _ => rfl⟩
  · unfold Accepted
    decide
  · have json : namedFamily.compact = "\x7b\"name\":\"Inter\"\x7d" := by decide
    rw [← json]
    rfl

end DesignTokens
