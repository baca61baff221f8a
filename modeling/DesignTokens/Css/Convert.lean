import DesignTokens.Css.Composite

/-!
# Conversion by type

* `convert?`: what a value of a type becomes; none for an unknown type. A value that is nothing but a
  reference stays one.
-/

namespace DesignTokens

/-- What a value of a type becomes, if the type has a form in stylesheets. -/
def convert? (transforms : Transforms) (path : String) (type : TokenType) (o : Operand) :
    Except ConvertError (Option CssValue) :=
  match Reference.ofJson? o.raw with
  | some r =>
    match type with
    | .typography => .ok (some (typographyAlias r o.resolved))
    | _ => .ok (some (.single r.text))
  | none =>
    match type with
    | .color => some <$> convertColor transforms path o
    | .dimension => .ok (some (.single (dimensionText o.raw)))
    | .fluidDimension => (some ∘ .single) <$> convertFluid transforms path o
    | .duration => .ok (some (.single (dimensionText o.raw)))
    | .cubicBezier => .ok (some (.single (bezierText o.raw)))
    | .number => .ok (some (.single (scalarText o.raw)))
    | .fontFamily => .ok (some (.single (familyText o.raw)))
    | .fontWeight => .ok (some (.single (weightText o.raw)))
    | .typography => some <$> convertTypography transforms path o
    | .shadow => (some ∘ .single) <$> convertShadow transforms path o
    | .border => (some ∘ .single) <$> convertBorder transforms path o
    | .transition => .ok (some (.single (convertTransition o)))
    | .gradient => (some ∘ .single) <$> convertGradient transforms path o
    | .strokeStyle => .ok (some (.single (strokeText o.raw)))
    | .unknown _ => .ok none

end DesignTokens
