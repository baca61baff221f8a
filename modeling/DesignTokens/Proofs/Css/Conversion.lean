import DesignTokens.Css.Convert
import DesignTokens.Proofs.Steps

/-!
# Conversion of one type

A value that is nothing but a reference stays one, and only a text style has entries then. Any other value
is converted by its type.

* `convert?_of_whole`, `convert?_typographyAlias`: a value that is a reference;
* `convert?_color`, `convert?_typography`, `convert?_unknown`: colors, text styles, and no type at all;
* `textOf?`, `convert?_of_textOf?`: the types whose values become one text as they are written;
* `conversionOf?`, **`convert?_of_conversionOf?`**: the types whose values become one text that depends on
  their resolved parts; `single_of_conversionOf?`: one text under every path;
* `convertTypography_eq_ok_iff`: the entries of a text style.
-/

namespace DesignTokens

variable {transforms : Transforms} {path : String} {type : TokenType} {o : Operand}

/-! ## References -/

theorem convert?_of_whole {r : Reference} (whole : Reference.ofJson? o.raw = some r)
    (style : type ≠ .typography) :
    convert? transforms path type o = .ok (some (.single r.text)) := by
  unfold convert?
  rw [whole]
  cases type with
  | typography => exact absurd rfl style
  | _ => rfl

theorem convert?_typographyAlias {r : Reference} (whole : Reference.ofJson? o.raw = some r) :
    convert? transforms path .typography o = .ok (some (typographyAlias r o.resolved)) := by
  unfold convert?
  rw [whole]

theorem convert?_unknown (transforms : Transforms) (path name : String) (o : Operand) :
    convert? transforms path (.unknown name) o =
      .ok ((Reference.ofJson? o.raw).map fun r => .single r.text) := by
  unfold convert?
  cases Reference.ofJson? o.raw <;> rfl

/-! ## Values of their own -/

theorem convert?_color (whole : Reference.ofJson? o.raw = none) :
    convert? transforms path .color o = some <$> convertColor transforms path o := by
  unfold convert?
  rw [whole]

theorem convert?_typography (whole : Reference.ofJson? o.raw = none) :
    convert? transforms path .typography o = some <$> convertTypography transforms path o := by
  unfold convert?
  rw [whole]

/-- How a value is written that becomes one text and is not looked up for it. -/
def textOf? : TokenType → Option (Json → String)
  | .dimension | .duration => some dimensionText
  | .cubicBezier => some bezierText
  | .number => some scalarText
  | .fontFamily => some familyText
  | .fontWeight => some weightText
  | .strokeStyle => some strokeText
  | _ => none

theorem convert?_of_textOf? {text : Json → String} (htext : textOf? type = some text)
    (whole : Reference.ofJson? o.raw = none) :
    convert? transforms path type o = .ok (some (.single (text o.raw))) := by
  unfold convert?
  rw [whole]
  cases type with
  | dimension | duration | cubicBezier | number | fontFamily | fontWeight | strokeStyle =>
    cases htext
    rfl
  | color | fluidDimension | typography | shadow | border | transition | gradient | unknown _ =>
    cases htext

/-- How a value is written that becomes one text and is looked up for it. -/
def conversionOf? (transforms : Transforms) :
    TokenType → Option (String → Operand → Except ConvertError String)
  | .fluidDimension => some (convertFluid transforms)
  | .shadow => some (convertShadow transforms)
  | .border => some (convertBorder transforms)
  | .transition => some fun _ o => .ok (convertTransition o)
  | .gradient => some (convertGradient transforms)
  | _ => none

/-- **A value put together from parts.** -/
theorem convert?_of_conversionOf? {conversion : String → Operand → Except ConvertError String}
    (hconversion : conversionOf? transforms type = some conversion)
    (whole : Reference.ofJson? o.raw = none) :
    convert? transforms path type o = (some ∘ .single) <$> conversion path o := by
  unfold convert?
  rw [whole]
  cases type with
  | fluidDimension | shadow | border | transition | gradient =>
    cases hconversion
    rfl
  | color | dimension | duration | cubicBezier | number | fontFamily | fontWeight | typography
  | strokeStyle | unknown _ => cases hconversion

theorem single_of_conversionOf? {conversion : String → Operand → Except ConvertError String}
    (hconversion : conversionOf? transforms type = some conversion)
    (whole : Reference.ofJson? o.raw = none) {value : CssBody}
    (h : ∀ path, convert? transforms path type o = .ok (some ⟨value, []⟩)) :
    ∃ text, value = .single text ∧ ∀ path, conversion path o = .ok text := by
  have converts : ∀ path, ∃ text, conversion path o = .ok text ∧ value = .single text := by
    intro path
    have conv := h path
    rw [convert?_of_conversionOf? hconversion whole] at conv
    obtain ⟨text, ht, same⟩ := map_eq_ok.1 conv
    cases same
    exact ⟨text, ht, rfl⟩
  obtain ⟨text, -, rfl⟩ := converts ""
  refine ⟨text, rfl, fun path => ?_⟩
  obtain ⟨text', ht, same⟩ := converts path
  cases same
  exact ht

/-! ## Text styles -/

/-- The entry for a property that may be absent. -/
def stylePart? (transforms : Transforms) (path : String) (o : Operand) (kp : String × String) :
    Except ConvertError (Option (String × String)) :=
  match o.member? kp.1 with
  | none => .ok none
  | some part => do return some (kp.2, ← convertStyle transforms path kp.1 part)

theorem convertTypography_eq_ok_iff {v : CssValue} : convertTypography transforms path o = .ok v ↔
    ∃ parts, typographyProperties.filterMapM (stylePart? transforms path o) = .ok parts ∧
      v = ⟨.entries parts, []⟩ := by
  refine bind_eq_ok.trans (exists_congr fun parts => and_congr_right fun _ => ?_)
  exact ⟨fun h => (Except.ok.inj h).symm, fun h => h ▸ rfl⟩

end DesignTokens
