import DesignTokens.Proofs.Css.Parts

/-!
# Colors

A color is written in one way, whatever it is part of: the path of the token is only for errors.

* **`convertColor_eq_ok_iff`**: what a color is converted to; `CssValue.primary`, **`innerColor_eq`**: a
  color inside another value;
* `colorText_of_ok`, `convertColor_of_ok`, `innerColor_of_ok`: the same text under another path;
* `innerColor_of_convertColor`: a color of its own and one inside another value;
* **`evaluates_innerColor`**: a color that may be a reference.
-/

namespace DesignTokens

section Colors

variable {transforms : Transforms} {decls : List (String × List Fragment)} {σ : Reference → Json}
  {type : TokenType} {property : Option String} {j : Json} {path : String}

theorem colorSpace_eq_ok {color : Json} {space : String} :
    colorSpace path color = .ok space ↔ color.member? "colorSpace" = some (.str space) := by
  unfold colorSpace
  cases color.member? "colorSpace" with
  | none => simp
  | some j => cases j <;> simp [Json.string?]

theorem hexFallback_eq_ok {color : Json} {space hex : String} :
    hexFallback path space color = .ok hex ↔ color.member? "hex" = some (.str hex) := by
  unfold hexFallback
  cases color.member? "hex" with
  | none => simp
  | some j => cases j <;> simp [Json.string?]

theorem colorText_of_ok {color : Json} {text : String} (h : colorText path color = .ok text)
    (path' : String) : colorText path' color = .ok text := by
  unfold colorText at h ⊢
  obtain ⟨space, hspace, h⟩ := bind_eq_ok.1 h
  refine bind_eq_ok.2 ⟨space, colorSpace_eq_ok.2 (colorSpace_eq_ok.1 hspace), ?_⟩
  split at h
  · simp only at h ⊢
    repeat' split at h
    all_goals first | (cases h; done) | simp_all
  · cases h

/-- The query behind which the notation of a color in this space stands. -/
def Transforms.query? (transforms : Transforms) (space : String) : Option String :=
  match transforms.colorFallback with
  | .native => none
  | .polyfill => featureQuery? space

theorem featureQuery?_of_query? {space query : String} (h : transforms.query? space = some query) :
    featureQuery? space = some query := by
  unfold Transforms.query? at h
  split at h
  · cases h
  · exact h

/-- **What a color is converted to**: a text as it is, and an object in the notation of its space, alone or
behind a query with its stand-in in front. -/
theorem convertColor_eq_ok_iff {o : Operand} {v : CssValue} :
    convertColor transforms path o = .ok v ↔ (∃ text, o.raw = .str text ∧ v = .single text) ∨
      (∀ s, o.raw ≠ .str s) ∧ ∃ space native,
        o.resolved.member? "colorSpace" = some (.str space) ∧ colorText path o.resolved = .ok native ∧
        match transforms.query? space with
        | none => v = .single native
        | some query => ∃ hex, o.resolved.member? "hex" = some (.str hex) ∧
            v = ⟨.single hex, [⟨query, native⟩]⟩ := by
  unfold convertColor Transforms.query?
  split
  · rename_i text raw
    simp [raw, eq_comm]
  · rename_i structured
    have ok_iff : ∀ w, (Except.ok w : Except ConvertError CssValue) = .ok v ↔ v = w := fun w =>
      ⟨fun h => (Except.ok.inj h).symm, fun h => h ▸ rfl⟩
    rw [or_iff_right fun ⟨text, raw, _⟩ => structured text raw, and_iff_right structured]
    simp only [bind_eq_ok, colorSpace_eq_ok, exists_and_left]
    refine exists_congr fun space => and_congr_right fun _ => exists_congr fun native =>
      and_congr_right fun _ => ?_
    cases transforms.colorFallback with
    | native => exact ok_iff _
    | polyfill =>
      cases featureQuery? space with
      | none => exact ok_iff _
      | some query =>
        refine bind_eq_ok.trans (exists_congr fun hex => and_congr hexFallback_eq_ok ?_)
        exact ok_iff _

/-- The text of a color for those that pass no query. -/
def CssValue.primary (v : CssValue) : String :=
  match v.body with
  | .single text => text
  | .entries _ => ""

/-- **A color inside another value** is written as it is for those that pass no query. -/
theorem innerColor_eq (transforms : Transforms) (path : String) (o : Operand) :
    innerColor transforms path o = CssValue.primary <$> convertColor transforms path o := by
  unfold innerColor convertColor
  split
  · rfl
  · cases colorSpace path o.resolved with
    | error e => rfl
    | ok space =>
      cases colorText path o.resolved with
      | error e => rfl
      | ok native =>
        cases transforms.colorFallback with
        | native => rfl
        | polyfill =>
          dsimp only [bind, Except.bind]
          cases featureQuery? space with
          | none => rfl
          | some query => cases hexFallback path space o.resolved <;> rfl

theorem body_of_convertColor {o : Operand} {v : CssValue} (h : convertColor transforms path o = .ok v) :
    v.body = .single v.primary := by
  rcases convertColor_eq_ok_iff.1 h with ⟨text, -, rfl⟩ | ⟨-, space, native, -, -, written⟩
  · rfl
  · split at written
    · obtain rfl := written
      rfl
    · obtain ⟨hex, -, rfl⟩ := written
      rfl

theorem convertColor_of_ok {o : Operand} {c : CssValue} (h : convertColor transforms path o = .ok c)
    (path' : String) : convertColor transforms path' o = .ok c := by
  rcases convertColor_eq_ok_iff.1 h with text | ⟨structured, space, native, hspace, hnative, written⟩
  · exact convertColor_eq_ok_iff.2 (.inl text)
  · exact convertColor_eq_ok_iff.2
      (.inr ⟨structured, space, native, hspace, colorText_of_ok hnative path', written⟩)

theorem innerColor_of_ok {o : Operand} {text : String} (h : innerColor transforms path o = .ok text)
    (path' : String) : innerColor transforms path' o = .ok text := by
  rw [innerColor_eq] at h ⊢
  obtain ⟨c, hc, same⟩ := map_eq_ok.1 h
  exact map_eq_ok.2 ⟨c, convertColor_of_ok hc path', same⟩

theorem innerColor_of_convertColor {o : Operand} {body : CssBody}
    (h : convertColor transforms path o = .ok ⟨body, []⟩) :
    ∃ text, body = .single text ∧ innerColor transforms path o = .ok text :=
  ⟨_, body_of_convertColor h, innerColor_eq transforms path o ▸ map_eq_ok.2 ⟨_, h, rfl⟩⟩

theorem braceFree_innerColor {o : Operand} (raw : o.raw.Plain) (resolved : o.resolved.Plain)
    {text : String} (h : innerColor transforms path o = .ok text) : BraceFree text := by
  rw [innerColor_eq] at h
  obtain ⟨c, hc, rfl⟩ := map_eq_ok.1 h
  rcases convertColor_eq_ok_iff.1 hc with ⟨s, hs, rfl⟩ | ⟨-, space, native, -, hnative, written⟩
  · rw [hs] at raw
    exact raw
  · split at written
    · obtain rfl := written
      exact braceFree_colorText hnative
    · obtain ⟨hex, hhex, rfl⟩ := written
      exact resolved.member? hhex

theorem convertColor_resolved {j v : Json} (hj : ∀ s, j ≠ .str s) (hv : ∀ s, v ≠ .str s) :
    convertColor transforms path ⟨j, v⟩ = convertColor transforms path ⟨v, v⟩ := by
  cases j with
  | str s => exact absurd rfl (hj s)
  | null | bool _ | num _ | arr _ | obj _ =>
    cases v with
    | str s => exact absurd rfl (hv s)
    | null | bool _ | num _ | arr _ | obj _ => rfl

theorem substitute_ne_str (h : ∀ s, j ≠ .str s) (s : String) : j.substitute σ ≠ .str s := by
  cases j with
  | str s => exact absurd rfl (h s)
  | null | bool _ | num _ | arr _ | obj _ => exact Json.noConfusion

theorem innerColor_resolved {j v : Json} (hj : ∀ s, j ≠ .str s) (hv : ∀ s, v ≠ .str s) :
    innerColor transforms path ⟨j, v⟩ = innerColor transforms path ⟨v, v⟩ := by
  rw [innerColor_eq, innerColor_eq, convertColor_resolved hj hv]

/-- **A color inside another value.** -/
theorem evaluates_innerColor (draws : Draws transforms decls σ type property j)
    (plain : (j.substitute σ).Plain) (asks : askedType? type property = some .color) {text : String}
    (h : innerColor transforms path (j.operand σ) = .ok text) :
    ∃ value, (∀ path', innerColor transforms path' ⟨j.substitute σ, j.substitute σ⟩ = .ok value) ∧
      Evaluates decls text value := by
  cases whole : Reference.ofJson? j with
  | some r =>
    obtain ⟨found, carried, fits⟩ := draws.reference whole
    obtain rfl : found = .color := by
      rcases fits_iff.1 (fits _ asks) with rfl | ⟨-, same⟩ | ⟨-, same⟩
      · rfl
      · cases same
      · cases same
    obtain ⟨body, value, -, -, same⟩ := carried.comes (by simp)
    have conv := same ""
    rw [convert?_color (ofJson?_of_plain plain)] at conv
    obtain ⟨c, hc, some⟩ := map_eq_ok.1 conv
    obtain rfl := Option.some.inj some
    obtain ⟨color, rfl, inner⟩ := innerColor_of_convertColor hc
    obtain ⟨rfl, valid⟩ := ofJson?_eq_some_iff.1 whole
    cases h
    exact ⟨color, innerColor_of_ok inner, carried.evaluates valid (by simp) (same "")⟩
  | none =>
    by_cases string : ∃ s, j = .str s
    · obtain ⟨s, rfl⟩ := string
      rw [Json.substitute_of_isScalar σ whole trivial] at plain ⊢
      cases h
      exact ⟨_, fun _ => rfl, .refl plain⟩
    · have hj : ∀ s, j ≠ .str s := fun s hs => string ⟨s, hs⟩
      have inner : innerColor transforms path ⟨j.substitute σ, j.substitute σ⟩ = .ok text := by
        rw [← innerColor_resolved hj (substitute_ne_str hj)]
        exact h
      exact ⟨text, innerColor_of_ok inner, .refl (braceFree_innerColor plain plain inner)⟩

end Colors

end DesignTokens
