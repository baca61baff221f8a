import DesignTokens.Css.Fluid
import DesignTokens.Proofs.Css.Doubles
import DesignTokens.Proofs.Steps
import Mathlib.Tactic.FieldSimp

/-!
# Sizes between two bounds

A fluid dimension as a size for every width of the viewport, with all numbers exact.

* `inPx`: a length in px; `inRem?_eq`: lengths in px, rem and em in rem;
* `FluidSize.sizeAt`: the size at a width, as a browser computes it; `FluidSize.lower`, `FluidSize.upper`:
  between what it stays;
* `onWay`, `progress`: the straight line through the bounds, by how far the width is on its way;
* `eval_through`, `sizeAt_between_of_apart`: the size is on this line, but not outside the bounds;
* `viewports_of_fine`: the widths in settings without a fault are positive and in order;
* `IsLengthOf`, `toRem?_eq_some_iff`; **`convertFluid_eq_ok_iff`**: a fluid dimension is written as the size
  between its bounds;
* **`size_between`**: the size is one bound up to the first width, the other from the second width on,
  and on the straight line in between.
-/

namespace DesignTokens

/-! ## Lengths -/

/-- A length in px, where a rem and an em are as long as the font size of the root. -/
def inPx (unit : String) (length : ℚ) : ℚ :=
  if unit = "px" then length else rootFontSize * length

theorem rootFontSize_pos : (0 : ℚ) < rootFontSize := by
  unfold rootFontSize
  norm_num

theorem inRem?_eq {unit : String} (known : unit ∈ ["px", "rem", "em"]) (length : ℚ) :
    inRem? unit length = some (inPx unit length / rootFontSize) := by
  have root := rootFontSize_pos.ne'
  simp only [List.mem_cons, List.not_mem_nil, or_false] at known
  rcases known with rfl | rfl | rfl
  · rfl
  · simp [inRem?, inPx, mul_div_cancel_left₀ _ root]
  · simp [inRem?, inPx, mul_div_cancel_left₀ _ root]

/-! ## Sizes -/

namespace FluidSize

/-- The size in rem at a width of the viewport in px. One hundredth of the width is `width / 100` px. -/
def sizeAt (size : FluidSize ℚ) (width : ℚ) : ℚ :=
  match size with
  | static size => size
  | clamp lower intercept slope upper =>
    max lower (min (intercept + slope * (width / 100 / rootFontSize)) upper)

/-- The least size in rem that is allowed. -/
def lower : FluidSize ℚ → ℚ
  | static size => size
  | clamp lower _ _ _ => lower

/-- The greatest size in rem that is allowed. -/
def upper : FluidSize ℚ → ℚ
  | static size => size
  | clamp _ _ _ upper => upper

theorem sizeAt_mem {size : FluidSize ℚ} (ordered : size.lower ≤ size.upper) (width : ℚ) :
    size.lower ≤ size.sizeAt width ∧ size.sizeAt width ≤ size.upper := by
  cases size with
  | static size => exact ⟨le_rfl, le_rfl⟩
  | clamp lower intercept slope upper =>
    exact ⟨le_max_left _ _, max_le ordered (min_le_right _ _)⟩

end FluidSize

/-! ## The straight line -/

/-- The number on the way from `a` to `b`, where `part` is 0 at `a` and 1 at `b`. -/
def onWay (a b part : ℚ) : ℚ := a + (b - a) * part

section Way

variable {a b part : ℚ}

theorem clamp_before (before : part ≤ 0) : max (min a b) (min (onWay a b part) (max a b)) = a := by
  unfold onWay
  rcases le_total a b with up | down
  · have below : a + (b - a) * part ≤ a := by nlinarith
    rw [min_eq_left up, max_eq_right up, min_eq_left (below.trans up), max_eq_left below]
  · have above : a ≤ a + (b - a) * part := by nlinarith
    rw [min_eq_right down, max_eq_left down, min_eq_right above, max_eq_right down]

theorem clamp_after (after : 1 ≤ part) : max (min a b) (min (onWay a b part) (max a b)) = b := by
  have reversed : onWay a b part = onWay b a (1 - part) := by
    unfold onWay
    ring
  rw [reversed, min_comm a b, max_comm a b]
  exact clamp_before (by linarith)

theorem clamp_between (start : 0 ≤ part) (finish : part ≤ 1) :
    max (min a b) (min (onWay a b part) (max a b)) = onWay a b part := by
  have low : min a b ≤ onWay a b part := by
    unfold onWay
    rcases le_total a b with up | down
    · rw [min_eq_left up]
      nlinarith
    · rw [min_eq_right down]
      nlinarith
  have high : onWay a b part ≤ max a b := by
    unfold onWay
    rcases le_total a b with up | down
    · rw [max_eq_right up]
      nlinarith
    · rw [max_eq_left down]
      nlinarith
  rw [min_eq_left high, max_eq_right low]

end Way

section Between

variable {narrow wide : ℚ}

/-- How far a width is on its way from `narrow` to `wide`. -/
def progress (narrow wide width : ℚ) : ℚ := (width - narrow) / (wide - narrow)

theorem rem_ne_rem (increasing : narrow < wide) :
    wide / (rootFontSize : ℚ) - narrow / rootFontSize ≠ 0 := by
  have root := rootFontSize_pos
  rw [← sub_div]
  exact (div_pos (sub_pos.2 increasing) root).ne'

theorem eval_through (increasing : narrow < wide) (a b width : ℚ) :
    let line := Line.through a b (narrow / rootFontSize) (wide / rootFontSize)
    line.intercept + line.slope * 100 * (width / 100 / rootFontSize) =
      onWay a b (progress narrow wide width) := by
  have apart := rem_ne_rem increasing
  have widths : wide - narrow ≠ 0 := (sub_pos.2 increasing).ne'
  have root := rootFontSize_pos.ne'
  simp only [Line.through, onWay, progress]
  field_simp
  ring

/-- Between bounds that are not taken as equal, the size is on the line through them as far as the bounds
allow. -/
theorem sizeAt_between_of_apart {epsilon a b : ℚ} (increasing : narrow < wide)
    (apart : epsilon ≤ |b - a|) (width : ℚ) :
    (FluidSize.between (|·|) epsilon narrow wide a b).sizeAt width =
      max (min a b) (min (onWay a b (progress narrow wide width)) (max a b)) := by
  rw [FluidSize.between, if_neg apart.not_gt, ← eval_through increasing]
  rcases le_or_gt a b with up | down
  · rw [if_pos up, min_eq_left up, max_eq_right up]
    rfl
  · rw [if_neg down.not_ge, min_eq_right down.le, max_eq_left down.le]
    rfl

variable (narrow wide) in
theorem lower_between {epsilon a b : ℚ} (apart : epsilon ≤ |b - a|) :
    (FluidSize.between (|·|) epsilon narrow wide a b).lower = min a b ∧
      (FluidSize.between (|·|) epsilon narrow wide a b).upper = max a b := by
  rw [FluidSize.between, if_neg apart.not_gt]
  rcases le_or_gt a b with up | down
  · rw [if_pos up, min_eq_left up, max_eq_right up]
    exact ⟨rfl, rfl⟩
  · rw [if_neg down.not_ge, min_eq_right down.le, max_eq_left down.le]
    exact ⟨rfl, rfl⟩

end Between

section Progress

variable {narrow wide width : ℚ}

theorem progress_nonpos (increasing : narrow < wide) (before : width ≤ narrow) :
    progress narrow wide width ≤ 0 :=
  div_nonpos_of_nonpos_of_nonneg (sub_nonpos.2 before) (sub_nonneg.2 increasing.le)

theorem one_le_progress (increasing : narrow < wide) (after : wide ≤ width) :
    1 ≤ progress narrow wide width :=
  (one_le_div (sub_pos.2 increasing)).2 (sub_le_sub_right after _)

theorem progress_nonneg (increasing : narrow < wide) (after : narrow ≤ width) :
    0 ≤ progress narrow wide width :=
  div_nonneg (sub_nonneg.2 after) (sub_nonneg.2 increasing.le)

theorem progress_le_one (increasing : narrow < wide) (before : width ≤ wide) :
    progress narrow wide width ≤ 1 :=
  (div_le_one (sub_pos.2 increasing)).2 (sub_le_sub_right before _)

end Progress

/-! ## Settings -/

theorem viewports_of_fine {settings : Settings} (fine : settings.fault? = none) {narrow wide : ℚ}
    (first : number? settings.transforms.fluid.min = some narrow)
    (second : number? settings.transforms.fluid.max = some wide) : 0 < narrow ∧ narrow < wide := by
  unfold Settings.fault? at fine
  dsimp only at fine
  split at fine
  · cases fine
  · rename_i positive
    split at fine
    · cases fine
    · rename_i increasing
      simp only [Bool.not_eq_true, Bool.not_eq_false', Bool.and_eq_true, decide_eq_true_eq] at positive
      refine ⟨(lt_iff_number number?_zero first).1 positive.1, ?_⟩
      exact lt_of_not_ge fun h => increasing ((le_iff_number second first).2 h)

theorem number?_fluidEpsilon : number? fluidEpsilon = some (1 / 2 ^ 52) := by
  rw [number?_of_unpack (m := 2 ^ 52) (e := -104) (s := .positive) (by norm_num) rfl]
  norm_num [Float.Model.UnpackedFloat.Sign.apply, zpow_neg]

/-! ## The size that is written -/

/-- A dimension has this number and this unit. -/
def IsLengthOf (j : Json) (unit : String) (length : Float) : Prop :=
  (j.member? "value").bind Json.float? = some length ∧ (j.member? "unit").bind Json.string? = some unit

theorem toRem?_eq_some_iff {j : Json} {size : Float} :
    toRem? j = some size ↔ ∃ unit length, IsLengthOf j unit length ∧ inRem? unit length = some size := by
  unfold toRem? IsLengthOf
  cases hvalue : j.member? "value" with
  | none => simp
  | some value => cases hunit : j.member? "unit" with
    | none => cases hlength : value.float? <;> simp [hlength]
    | some unit =>
      cases hlength : value.float? with
      | none => simp [hlength]
      | some length => cases hname : unit.string? <;> simp [hlength, hname]

theorem fluidBound_eq_ok_iff {path key : String} {fluid : Json} {size : Float} :
    fluidBound path key fluid = .ok size ↔
      ∃ bound unit length, fluid.member? key = some bound ∧ IsLengthOf bound unit length ∧
        inRem? unit length = some size := by
  unfold fluidBound
  cases hbound : fluid.member? key with
  | none => simp
  | some bound =>
    simp only [Option.bind_some, Option.some.injEq, exists_eq_left', exists_and_left]
    have lengths := @toRem?_eq_some_iff bound size
    cases hsize : toRem? bound <;> simp_all [eq_comm]

/-- **The text of a fluid dimension** is that of the size between its bounds `min` and `max`, each in rem,
while the width goes from the first to the second width of the settings. -/
theorem convertFluid_eq_ok_iff {transforms : Transforms} {path text : String} {o : Operand} :
    convertFluid transforms path o = .ok text ↔
      ∃ a b, (∃ min u length, o.resolved.member? "min" = some min ∧ IsLengthOf min u length ∧
          inRem? u length = some a) ∧
        (∃ max v length, o.resolved.member? "max" = some max ∧ IsLengthOf max v length ∧
          inRem? v length = some b) ∧
        text = (FluidSize.between Float.abs fluidEpsilon transforms.fluid.min transforms.fluid.max
          a b).text := by
  unfold convertFluid
  constructor
  · intro h
    obtain ⟨a, ha, h⟩ := bind_eq_ok.1 h
    obtain ⟨b, hb, h⟩ := bind_eq_ok.1 h
    cases h
    exact ⟨a, b, fluidBound_eq_ok_iff.1 ha, fluidBound_eq_ok_iff.1 hb, rfl⟩
  · rintro ⟨a, b, ha, hb, rfl⟩
    rw [fluidBound_eq_ok_iff.2 ha, fluidBound_eq_ok_iff.2 hb]
    rfl

/-! ## The size at every width -/

/-- **A fluid dimension** is its first bound up to the narrow width, its second bound from the wide width
on, and on the straight line in between; nothing is divided by zero, and the size stays between what is
given for it. This is so for all settings without a fault, and all bounds that are equal or not taken as
equal. -/
theorem size_between {settings : Settings} (fine : settings.fault? = none) {narrow wide epsilon : ℚ}
    (first : number? settings.transforms.fluid.min = some narrow)
    (second : number? settings.transforms.fluid.max = some wide)
    (threshold : number? fluidEpsilon = some epsilon) {u v : String}
    (known : u ∈ ["px", "rem", "em"]) (known' : v ∈ ["px", "rem", "em"])
    (length length' : ℚ) :
    ∃ a b, inRem? u length = some a ∧ rootFontSize * a = inPx u length ∧
      inRem? v length' = some b ∧ rootFontSize * b = inPx v length' ∧
      (rootFontSize : ℚ) ≠ 0 ∧ wide / (rootFontSize : ℚ) - narrow / rootFontSize ≠ 0 ∧
      (b = a ∨ epsilon ≤ |b - a| → ∀ size, size = FluidSize.between (|·|) epsilon narrow wide a b →
        (∀ width ≤ narrow, size.sizeAt width = a) ∧
        (∀ width ≥ wide, size.sizeAt width = b) ∧
        (∀ width ≥ narrow, width ≤ wide →
          size.sizeAt width = a + (b - a) * ((width - narrow) / (wide - narrow))) ∧
        size.lower ≤ size.upper ∧
        ∀ width, size.lower ≤ size.sizeAt width ∧ size.sizeAt width ≤ size.upper) := by
  obtain ⟨-, increasing⟩ := viewports_of_fine fine first second
  have root := rootFontSize_pos.ne'
  refine ⟨_, _, inRem?_eq known length, mul_div_cancel₀ _ root, inRem?_eq known' length',
    mul_div_cancel₀ _ root, root, rem_ne_rem increasing, ?_⟩
  generalize inPx u length / rootFontSize = a
  generalize inPx v length' / rootFontSize = b
  rintro (rfl | apart) size rfl
  · have positive : 0 < epsilon := by
      obtain rfl : 1 / 2 ^ 52 = epsilon := Option.some.inj (number?_fluidEpsilon.symm.trans threshold)
      positivity
    have same : FluidSize.between (|·|) epsilon narrow wide b b = .static b := by
      rw [FluidSize.between, if_pos (by simpa using positive)]
    rw [same]
    refine ⟨fun _ _ => rfl, fun _ _ => rfl, fun width _ _ => ?_, le_rfl, fun _ => ⟨le_rfl, le_rfl⟩⟩
    rw [sub_self, zero_mul, add_zero]
    rfl
  · have line := sizeAt_between_of_apart increasing apart
    obtain ⟨lower, upper⟩ := lower_between narrow wide apart
    have ordered : (FluidSize.between (|·|) epsilon narrow wide a b).lower ≤
        (FluidSize.between (|·|) epsilon narrow wide a b).upper := by
      rw [lower, upper]
      exact min_le_max
    refine ⟨fun width before => ?_, fun width after => ?_, fun width after before => ?_, ordered,
      fun width => FluidSize.sizeAt_mem ordered width⟩
    · rw [line, clamp_before (progress_nonpos increasing before)]
    · rw [line, clamp_after (one_le_progress increasing after)]
    · rw [line, clamp_between (progress_nonneg increasing after) (progress_le_one increasing before)]
      rfl

theorem number?_standard : number? Settings.standard.transforms.fluid.min = some 320 ∧
    number? Settings.standard.transforms.fluid.max = some 1200 := by
  constructor
  · rw [number?_of_unpack (m := 5 * 2 ^ 50) (e := -44) (s := .positive) (by norm_num) rfl]
    norm_num [Float.Model.UnpackedFloat.Sign.apply, zpow_neg]
  · rw [number?_of_unpack (m := 75 * 2 ^ 46) (e := -42) (s := .positive) (by norm_num) rfl]
    norm_num [Float.Model.UnpackedFloat.Sign.apply, zpow_neg]

/-- A size that shrinks from 32 px to 1 rem between the default widths. -/
theorem size_between_shrinking : Settings.standard.fault? = none ∧
    number? Settings.standard.transforms.fluid.min = some 320 ∧
    number? Settings.standard.transforms.fluid.max = some 1200 ∧
    number? fluidEpsilon = some (1 / 2 ^ 52) ∧
    inRem? "px" (32 : ℚ) = some 2 ∧ inRem? "rem" (1 : ℚ) = some 1 ∧ (1 / 2 ^ 52 : ℚ) ≤ |1 - 2| ∧
    ∃ size, size = FluidSize.between (|·|) (1 / 2 ^ 52) 320 1200 2 1 ∧
      size.sizeAt 300 = 2 ∧ size.sizeAt 760 = 3 / 2 ∧ size.sizeAt 1920 = 1 := by
  have fine : Settings.standard.fault? = none := by decide
  have two : inRem? "px" (32 : ℚ) = some 2 := by norm_num [inRem?, rootFontSize]
  have one : inRem? "rem" (1 : ℚ) = some 1 := rfl
  have apart : (1 / 2 ^ 52 : ℚ) ≤ |1 - 2| := by norm_num
  obtain ⟨first, second⟩ := number?_standard
  obtain ⟨a, b, ha, -, hb, -, -, -, sizes⟩ := size_between fine first second number?_fluidEpsilon
    (u := "px") (v := "rem") (by decide) (by decide) 32 1
  obtain rfl : 2 = a := Option.some.inj (two.symm.trans ha)
  obtain rfl : 1 = b := Option.some.inj (one.symm.trans hb)
  obtain ⟨before, after, between, -, -⟩ := sizes (.inr apart) _ rfl
  refine ⟨fine, first, second, number?_fluidEpsilon, two, one, apart, _, rfl, before 300 (by norm_num),
    ?_, after 1920 (by norm_num)⟩
  rw [between 760 (by norm_num) (by norm_num)]
  norm_num

end DesignTokens
