import DesignTokens.Proofs.Css.Carried
import DesignTokens.Proofs.Css.Conversion

/-!
# Parts of values

What is written for a part of a value comes to what is written for the resolved part, if the references
in it are to tokens with their own custom properties.

* `Draws.evaluates`: a part that is a reference;
* **`renders_amount`**: numbers with units, unless the number is a reference;
* `evaluates_stroke`, `evaluates_bezier`, `evaluates_weight`, `evaluates_number`: other simple parts;
  `renders_lineHeight`.
-/

namespace DesignTokens

theorem fits_iff {found expected : TokenType} : found.fits expected = true ↔ found = expected ∨
    found = .dimension ∧ expected = .fluidDimension ∨
      found = .fluidDimension ∧ expected = .dimension := by
  unfold TokenType.fits
  simp [or_assoc]

section Parts

variable {transforms : Transforms} {decls : List (String × List Fragment)} {σ : Reference → Json}
  {type : TokenType} {property : Option String} {j : Json}

theorem Draws.evaluates (draws : Draws transforms decls σ type property j) {r : Reference}
    (whole : Reference.ofJson? j = some r) {text : String}
    (conv : ∀ found, Accepted found (j.substitute σ) → Shaped found (j.substitute σ) →
      (∀ e ∈ askedType? type property, found.fits e = true) → found ≠ .gradient ∧
        convert? transforms "" found ⟨j.substitute σ, j.substitute σ⟩ = .ok (some (.single text))) :
    Evaluates decls r.text text := by
  obtain ⟨found, carried, fits⟩ := draws.reference whole
  obtain ⟨ne, same⟩ := conv found carried.accepted carried.shaped fits
  exact carried.evaluates (ofJson?_eq_some_iff.1 whole).2 ne same

/-! ## Amounts -/

theorem not_isAmount_of_isScalar {v : Json} (h : v.IsScalar) : ¬ IsAmount v := by
  rintro ⟨_, _, value, -⟩
  cases v with
  | arr _ | obj _ => cases h
  | null | bool _ | num _ | str _ => cases value

theorem quoteFamily_unit : ∀ unit ∈ units, quoteFamily unit = unit := by decide +kernel

theorem fontWeight?_unit : ∀ unit ∈ units, fontWeight? unit = none := by
  decide +kernel

theorem Carried.unit {path unit : String} {found : TokenType}
    (h : Carried transforms decls path found (.str unit)) (known : unit ∈ units) :
    found ≠ .gradient ∧
      convert? transforms "" found ⟨.str unit, .str unit⟩ = .ok (some (.single unit)) := by
  have amount : ¬ IsAmount (.str unit) := not_isAmount_of_isScalar trivial
  have whole : Reference.ofJson? (.str unit) = none := ofJson?_of_plain h.plain
  unfold convert?
  simp only [whole]
  cases found with
  | color | number | strokeStyle => exact ⟨by simp, rfl⟩
  | fontFamily =>
    refine ⟨by simp, ?_⟩
    simp only [familyText_of_isScalar h.plain trivial, familyItem, quoteFamily_unit unit known]
  | fontWeight =>
    refine ⟨by simp, ?_⟩
    simp only [weightText, fontWeight?_unit unit known]
  | dimension =>
    have passes : Passes (checkDimension (.str unit)) := h.accepted.passes .dimension rfl
    exact absurd (isAmount_of_dimension passes) amount
  | duration =>
    have passes : Passes (checkDuration (.str unit)) := h.accepted.passes .duration rfl
    exact absurd (isAmount_of_duration passes) amount
  | fluidDimension =>
    have passes : Passes (checkFluid (.str unit)) := h.accepted.passes .fluidDimension rfl
    have bound := (hasMember_of_fluid passes).1
    cases bound
  | cubicBezier =>
    have passes : Passes (checkCubicBezier (.str unit)) := h.accepted.passes .cubicBezier rfl
    have unknown : ∀ unit ∈ units, unit ∉ timingKeywords := by decide
    unfold checkCubicBezier at passes
    simp only [if_neg (unknown unit known)] at passes
    exact absurd passes (not_passes_singleton rfl)
  | typography | border | transition | shadow | gradient =>
    exact absurd (h.accepted.passes .composite rfl) (not_passes_singleton rfl)
  | unknown name =>
    obtain ⟨_, _, -, -, same⟩ := h.comes (by simp)
    have none := same ""
    rw [convert?_unknown, whole] at none
    cases none

theorem braceFree_unit : ∀ unit ∈ units, BraceFree unit := by decide

theorem braceFree_dimensionText {v : Json} (h : IsAmount v) : BraceFree (dimensionText v) := by
  obtain ⟨n, unit, value, hunit, known⟩ := h
  rw [dimensionText_of_parts value hunit]
  exact (braceFree_formatNumber _).append (braceFree_unit unit known)

theorem evaluates_unit (draws : Draws transforms decls σ type property j) {unit : String}
    (known : unit ∈ units) (resolved : j.substitute σ = .str unit) :
    ∃ text, j = .str text ∧ Evaluates decls text unit := by
  cases whole : Reference.ofJson? j with
  | some r =>
    refine ⟨r.text, (ofJson?_eq_some_iff.1 whole).1, ?_⟩
    obtain ⟨found, carried, -⟩ := draws.reference whole
    rw [resolved] at carried
    obtain ⟨ne, same⟩ := carried.unit known
    exact carried.evaluates (ofJson?_eq_some_iff.1 whole).2 ne same
  | none =>
    have same := Json.eq_of_substitute_isScalar σ whole (resolved ▸ trivial)
    rw [resolved] at same
    exact ⟨unit, same.symm, .refl (braceFree_unit unit known)⟩

theorem evaluates_amountReference (draws : Draws transforms decls σ type property j)
    (plain : (j.substitute σ).Plain) {asked : TokenType} (asks : askedType? type property = some asked)
    (lengths : asked ∈ [.dimension, .duration, .number]) (amount : IsAmount (j.substitute σ))
    {r : Reference} (whole : Reference.ofJson? j = some r) :
    Evaluates decls r.text (dimensionText (j.substitute σ)) := by
  refine draws.evaluates whole fun found _ shaped fits => ?_
  have fits := fits_iff.1 (fits asked asks)
  cases found with
  | dimension | duration => exact ⟨by simp, convert?_of_textOf? rfl (ofJson?_of_plain plain)⟩
  | number => exact absurd amount (not_isAmount_of_isScalar shaped)
  | fluidDimension =>
    obtain ⟨n, unit, value, hunit, -⟩ := amount
    refine absurd ⟨?_, ?_⟩ shaped
    · rw [Json.hasMember, value]
      rfl
    · rw [Json.hasMember, hunit]
      rfl
  | _ =>
    rcases fits with rfl | ⟨same, -⟩ | ⟨same, -⟩
    · exact absurd lengths (by simp)
    · cases same
    · cases same

theorem stuck_amount {q : Json} (quotable : j.Quotable) (hq : j.member? "value" = some q)
    {r : Reference} (hr : Reference.ofJson? q = some r) : Stuck (dimensionText j) := by
  obtain ⟨rfl, -⟩ := ofJson?_eq_some_iff.1 hr
  have unformatted : formatDimension? j = none := by
    unfold formatDimension?
    rw [hq]
    rfl
  cases j with
  | obj members =>
    unfold dimensionText
    rw [unformatted]
    exact Json.stuck_compact quotable hq hr
  | null | bool _ | num _ | str _ | arr _ => cases hq

/-- **A number with a unit**, as one part of a text. -/
theorem renders_amount (draws : Draws transforms decls σ type property j)
    (plain : (j.substitute σ).Plain) {asked : TokenType} (asks : askedType? type property = some asked)
    (lengths : asked ∈ [.dimension, .duration, .number]) (amount : IsAmount (j.substitute σ))
    {names : Prop} (quotable : names → j.Quotable) :
    RendersWithin decls names (SpelledAmount j) (dimensionText j) (dimensionText (j.substitute σ)) := by
  cases whole : Reference.ofJson? j with
  | some r =>
    have target := evaluates_amountReference draws plain asks lengths amount whole
    obtain ⟨rfl, -⟩ := ofJson?_eq_some_iff.1 whole
    exact target.renders fun part hp => by cases hp
  | none =>
    have free := braceFree_dimensionText amount
    obtain ⟨n, unit, value, hunit, known⟩ := amount
    have text := dimensionText_of_parts value hunit
    rw [Json.member?_substitute σ whole] at value hunit
    obtain ⟨q, hq, value⟩ := Option.map_eq_some_iff.1 value
    obtain ⟨u, hu, hunit⟩ := Option.map_eq_some_iff.1 hunit
    obtain ⟨utext, rfl, evaluates⟩ := evaluates_unit (draws.member hu) known hunit
    refine ⟨fun spelled => ?_, fun named unspelled => ?_, free⟩
    · have same := Json.eq_of_substitute_isScalar σ (spelled q hq) (value ▸ trivial)
      rw [value] at same
      rw [text, dimensionText_of_parts (same ▸ hq) hu]
      exact (Evaluates.refl (braceFree_formatNumber _)).append evaluates
    · have number : Reference.ofJson? q ≠ none := fun none => unspelled fun part hp => by
        rw [hq] at hp
        cases hp
        exact none
      obtain ⟨r, hr⟩ := Option.ne_none_iff_exists'.1 number
      exact stuck_amount (quotable named) hq hr

/-! ## Simple parts -/

theorem Draws.evaluates_of_asked (draws : Draws transforms decls σ type property j)
    {asked : TokenType} (asks : askedType? type property = some asked)
    (only : asked ≠ .dimension ∧ asked ≠ .fluidDimension ∧ asked ≠ .gradient) {text : String}
    (conv : Shaped asked (j.substitute σ) → convert? transforms "" asked
      ⟨j.substitute σ, j.substitute σ⟩ = .ok (some (.single text)))
    {r : Reference} (whole : Reference.ofJson? j = some r) : Evaluates decls r.text text := by
  refine draws.evaluates whole fun found _ shaped fits => ?_
  rcases fits_iff.1 (fits asked asks) with rfl | ⟨-, same⟩ | ⟨-, same⟩
  · exact ⟨only.2.2, conv shaped⟩
  · exact absurd same only.2.1
  · exact absurd same only.1

theorem Draws.map_points {items : List Json}
    (draws : Draws transforms decls σ type property (.arr items))
    (asks : askedType? type property = some .cubicBezier)
    (numbers : ∀ p ∈ items.map (Json.substitute σ), ∃ n, p = .num n) :
    items.map (Json.substitute σ) = items := by
  refine (List.map_congr_left fun item hi => ?_).trans (List.map_id items)
  obtain ⟨n, hn⟩ := numbers _ (List.mem_map_of_mem hi)
  cases hr : Reference.ofJson? item with
  | none => exact Json.eq_of_substitute_isScalar σ hr (hn ▸ trivial)
  | some r =>
    obtain ⟨found, carried, fits⟩ := (draws.item hi).reference hr
    rcases fits_iff.1 (fits _ asks) with rfl | ⟨-, same⟩ | ⟨-, same⟩
    · have passes : Passes (checkCubicBezier (item.substitute σ)) :=
        carried.accepted.passes .cubicBezier rfl
      rw [hn] at passes
      exact absurd passes (not_passes_singleton rfl)
    · cases same
    · cases same

section Simple

variable (draws : Draws transforms decls σ type property j) (plain : (j.substitute σ).Plain)

include draws plain

theorem evaluates_stroke (asks : askedType? type property = some .strokeStyle)
    (kind : ∀ items, j.substitute σ ≠ .arr items) :
    Evaluates decls (strokeText j) (strokeText (j.substitute σ)) := by
  cases whole : Reference.ofJson? j with
  | some r =>
    obtain ⟨rfl, -⟩ := ofJson?_eq_some_iff.1 whole
    exact draws.evaluates_of_asked asks (by simp)
      (fun _ => convert?_of_textOf? rfl (ofJson?_of_plain plain)) whole
  | none =>
    cases j with
    | obj members => exact .refl (by decide : BraceFree "dashed")
    | arr items => exact absurd (Json.substitute_arr σ items) (kind _)
    | null | bool _ | num _ | str _ =>
      rw [Json.substitute_of_isScalar σ whole trivial] at plain ⊢
      exact .refl (braceFree_scalarText plain trivial)

theorem evaluates_scalar {asked : TokenType} (asks : askedType? type property = some asked)
    (only : asked ≠ .dimension ∧ asked ≠ .fluidDimension ∧ asked ≠ .gradient) {text : Json → String}
    (htext : textOf? asked = some text) (reference : ∀ r : Reference, text (.str r.text) = r.text)
    (free : ∀ {v : Json}, v.Plain → v.IsScalar → BraceFree (text v))
    (scalar : (j.substitute σ).IsScalar) : Evaluates decls (text j) (text (j.substitute σ)) := by
  cases whole : Reference.ofJson? j with
  | some r =>
    obtain ⟨rfl, -⟩ := ofJson?_eq_some_iff.1 whole
    rw [reference]
    exact draws.evaluates_of_asked asks only
      (fun _ => convert?_of_textOf? htext (ofJson?_of_plain plain)) whole
  | none =>
    have same := Json.eq_of_substitute_isScalar σ whole scalar
    rw [same] at plain scalar ⊢
    exact .refl (free plain scalar)

theorem evaluates_weight (asks : askedType? type property = some .fontWeight)
    (scalar : (j.substitute σ).IsScalar) :
    Evaluates decls (weightText j) (weightText (j.substitute σ)) :=
  evaluates_scalar draws plain asks (by simp) rfl
    (fun r => by simp only [weightText, fontWeight?_reference]) braceFree_weightText scalar

theorem evaluates_number (asks : askedType? type property = some .number)
    (scalar : (j.substitute σ).IsScalar) :
    Evaluates decls (scalarText j) (scalarText (j.substitute σ)) :=
  evaluates_scalar draws plain asks (by simp) rfl (fun _ => rfl) braceFree_scalarText scalar

theorem evaluates_bezier (asks : askedType? type property = some .cubicBezier)
    (passes : Passes (checkCubicBezier (j.substitute σ))) :
    Evaluates decls (bezierText j) (bezierText (j.substitute σ)) := by
  cases whole : Reference.ofJson? j with
  | some r =>
    obtain ⟨rfl, -⟩ := ofJson?_eq_some_iff.1 whole
    exact draws.evaluates_of_asked asks (by simp)
      (fun _ => convert?_of_textOf? rfl (ofJson?_of_plain plain)) whole
  | none =>
    rcases kind_of_bezier passes with ⟨s, hs⟩ | ⟨points, hpoints, numbers⟩
    · have same := Json.eq_of_substitute_isScalar σ whole (hs ▸ trivial)
      rw [hs] at same plain ⊢
      rw [← same]
      exact .refl (braceFree_scalarText plain trivial)
    · cases j with
      | arr items =>
        rw [Json.substitute_arr] at hpoints passes plain ⊢
        obtain rfl : items.map (Json.substitute σ) = points := Json.arr.inj hpoints
        have same := draws.map_points asks numbers
        rw [same] at plain numbers ⊢
        refine .refl ((BraceFree.append (by decide) (.join (by decide) fun t ht => ?_)).append
          (by decide))
        obtain ⟨item, hi, rfl⟩ := List.mem_map.1 ht
        obtain ⟨n, rfl⟩ := numbers item hi
        exact braceFree_formatNumber _
      | str s =>
        rw [Json.substitute_of_isScalar σ whole trivial] at hpoints
        cases hpoints
      | null | bool _ | num _ | obj _ => cases hpoints

end Simple

theorem renders_lineHeight (draws : Draws transforms decls σ type property j)
    (plain : (j.substitute σ).Plain) (asks : askedType? type property = some .number)
    (passes : Passes (checkLineHeight (j.substitute σ))) {names : Prop}
    (quotable : names → j.Quotable) :
    RendersWithin decls names (SpelledAmount j) (dimensionText j) (dimensionText (j.substitute σ)) := by
  rcases kind_of_lineHeight passes with ⟨n, hn⟩ | amount
  · have resolved : (j.substitute σ).IsScalar := hn ▸ trivial
    have scalar : j.IsScalar := by
      cases j with
      | arr _ | obj _ => cases resolved
      | null | bool _ | num _ | str _ => trivial
    rw [dimensionText_of_isScalar scalar, dimensionText_of_isScalar resolved]
    refine (evaluates_number draws plain asks resolved).renders fun part hp => ?_
    cases j with
    | arr _ | obj _ => cases scalar
    | null | bool _ | num _ | str _ => cases hp
  · exact renders_amount draws plain asks (by simp) amount quotable

end Parts

end DesignTokens
