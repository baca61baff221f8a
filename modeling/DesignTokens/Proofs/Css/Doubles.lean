import Mathlib

/-!
# Doubles as rational numbers

A double that is neither infinite nor undefined stands for a rational number, and doubles are compared as
these numbers are.

* `unpackedNumber?`, `number?`: the number for which a double stands;
* `Canonical`: mantissas and exponents as they are unpacked, so that the larger exponent is the larger
  number: `magnitude_lt`, `compare_magnitude`;
* `compare_unpacked`: two doubles are compared as their numbers are;
* **`lt_iff_number`**, **`le_iff_number`**: and so are they ordered.
-/

namespace DesignTokens

open Float.Model UnpackedFloat

/-- The number for which a sign, a mantissa and an exponent stand. -/
def unpackedNumber? : UnpackedFloat → Option ℚ
  | .zero _ => some 0
  | .finite s m e _ => some (s.apply m * 2 ^ e)
  | .infinity _ => none
  | .notANumber => none

/-- The number for which a double stands. -/
def number? (x : Float) : Option ℚ := unpackedNumber? x.toModel.unpack

/-- A mantissa of 53 bits, unless the exponent is the least. -/
structure Canonical (m : ℕ) (e : ℤ) : Prop where
  lt : m < 2 ^ 53
  le : -1074 ≤ e
  full : e = -1074 ∨ 2 ^ 52 ≤ m

theorem canonical_of_unpack {x : Float.Model} {s : Sign} {m : ℕ} {e : ℤ} {pos : 0 < m}
    (h : x.unpack = .finite s m e pos) : Canonical m e := by
  have bias : ((Format.binary64.exponentBias : ℕ) : ℤ) = 1023 := rfl
  unfold Float.Model.unpack UnpackedFloat.unpack at h
  dsimp only at h
  split at h
  · split at h <;> cases h
  · split at h
    · rename_i zero
      split at h
      · cases h
      · injection h with _ mantissa exponent
        have bits := (@unpackMantissa .binary64 x.toBits.toBitVec).isLt
        rw [zero, bias] at exponent
        simp only [BitVec.toNat_ofNat, Nat.zero_mod, Nat.cast_zero] at exponent
        exact ⟨by omega, by omega, .inl (by omega)⟩
    · rename_i nonzero
      injection h with _ mantissa exponent
      have bits := (1#1 ++ @unpackMantissa .binary64 x.toBits.toBitVec).isLt
      have leading : 2 ^ 52 ≤ (1#1 ++ @unpackMantissa .binary64 x.toBits.toBitVec).toNat := by
        rw [BitVec.toNat_append, ← Nat.shiftLeft_add_eq_or_of_lt (BitVec.isLt _), Nat.shiftLeft_eq]
        exact Nat.le_add_right _ _
      have one : 1 ≤ (@unpackExponent .binary64 x.toBits.toBitVec).toNat :=
        Nat.one_le_iff_ne_zero.2 fun none => nonzero (BitVec.eq_of_toNat_eq none)
      rw [bias] at exponent
      exact ⟨by omega, by omega, .inr (by omega)⟩

/-- The number without its sign. -/
def magnitude (m : ℕ) (e : ℤ) : ℚ := m * 2 ^ e

variable {m m' : ℕ} {e e' : ℤ}

theorem magnitude_pos (pos : 0 < m) : 0 < magnitude m e := by
  have cast : (0 : ℚ) < m := Nat.cast_pos.2 pos
  unfold magnitude
  positivity

theorem magnitude_lt (h : Canonical m e) (h' : Canonical m' e') (below : e < e') :
    magnitude m e < magnitude m' e' := by
  have least := h.le
  have full : 2 ^ 52 ≤ m' := h'.full.resolve_left (by omega)
  have power : (2 : ℚ) ^ (e + 1) ≤ 2 ^ e' := zpow_le_zpow_right₀ (by norm_num) (by omega)
  have mantissa : (m : ℚ) < 2 ^ 53 := by exact_mod_cast h.lt
  have mantissa' : (2 : ℚ) ^ 52 ≤ m' := by exact_mod_cast full
  calc magnitude m e < 2 ^ 53 * 2 ^ e := by
        unfold magnitude
        gcongr
    _ = 2 ^ 52 * 2 ^ (e + 1) := by
        rw [zpow_add_one₀ (by norm_num)]
        ring
    _ ≤ magnitude m' e' := by
        unfold magnitude
        gcongr

theorem compare_magnitude (h : Canonical m e) (h' : Canonical m' e') :
    (compare e e').then (compare m m') = compare (magnitude m e) (magnitude m' e') := by
  rcases lt_trichotomy e e' with below | rfl | above
  · rw [compare_lt_iff_lt.2 below, compare_lt_iff_lt.2 (magnitude_lt h h' below)]
    rfl
  · have power : (0 : ℚ) < 2 ^ e := by positivity
    rw [compare_eq_iff_eq.2 rfl, Ordering.eq_then]
    unfold magnitude
    rcases lt_trichotomy m m' with less | rfl | more
    · rw [compare_lt_iff_lt.2 less, compare_lt_iff_lt.2]
      gcongr
    · rw [compare_eq_iff_eq.2 rfl, compare_eq_iff_eq.2 rfl]
    · rw [compare_gt_iff_gt.2 more, compare_gt_iff_gt.2]
      gcongr
  · rw [compare_gt_iff_gt.2 above, compare_gt_iff_gt.2 (magnitude_lt h' h above)]
    rfl

/-! ## With signs -/

theorem unpackedNumber?_finite {s : Sign} {pos : 0 < m} :
    unpackedNumber? (.finite s m e pos) =
      some (match s with | .positive => magnitude m e | .negative => -magnitude m e) := by
  cases s <;> exact congrArg some (by simp [magnitude, Sign.apply])

theorem compare_neg_neg (a b : ℚ) : compare (-a) (-b) = (compare a b).swap := by
  rcases lt_trichotomy a b with less | rfl | more
  · rw [compare_lt_iff_lt.2 less, compare_gt_iff_gt.2 (neg_lt_neg less)]
    rfl
  · rw [compare_eq_iff_eq.2 rfl, compare_eq_iff_eq.2 rfl]
    rfl
  · rw [compare_gt_iff_gt.2 more, compare_lt_iff_lt.2 (neg_lt_neg more)]
    rfl

/-- **Doubles are compared as their numbers are.** -/
theorem compare_unpacked {x y : Float.Model} {a b : ℚ} (ha : unpackedNumber? x.unpack = some a)
    (hb : unpackedNumber? y.unpack = some b) :
    x.unpack.compare y.unpack = some (compare a b) := by
  cases hx : x.unpack with
  | infinity _ | notANumber => cases hx ▸ ha
  | zero s =>
    obtain rfl : 0 = a := by simpa [hx, unpackedNumber?] using ha
    cases hy : y.unpack with
    | infinity _ | notANumber => cases hy ▸ hb
    | zero s' =>
      obtain rfl : 0 = b := by simpa [hy, unpackedNumber?] using hb
      rfl
    | finite s' m' e' pos' =>
      rw [hy, unpackedNumber?_finite] at hb
      have here := magnitude_pos (e := e') pos'
      cases s' <;> cases hb
      · exact congrArg some (compare_gt_iff_gt.2 (neg_lt_zero.2 here)).symm
      · exact congrArg some (compare_lt_iff_lt.2 here).symm
  | finite s m e pos =>
    rw [hx, unpackedNumber?_finite] at ha
    have here := magnitude_pos (e := e) pos
    cases hy : y.unpack with
    | infinity _ | notANumber => cases hy ▸ hb
    | zero s' =>
      obtain rfl : 0 = b := by simpa [hy, unpackedNumber?] using hb
      cases s <;> cases ha
      · exact congrArg some (compare_lt_iff_lt.2 (neg_lt_zero.2 here)).symm
      · exact congrArg some (compare_gt_iff_gt.2 here).symm
    | finite s' m' e' pos' =>
      rw [hy, unpackedNumber?_finite] at hb
      have here' := magnitude_pos (e := e') pos'
      have sizes := compare_magnitude (canonical_of_unpack hx) (canonical_of_unpack hy)
      cases s <;> cases s' <;> cases ha <;> cases hb
      · rw [compare_neg_neg, ← sizes]
        rfl
      · exact congrArg some (compare_lt_iff_lt.2 (by linarith)).symm
      · exact congrArg some (compare_gt_iff_gt.2 (by linarith)).symm
      · exact congrArg some sizes

variable {x y : Float} {a b : ℚ}

theorem lt_iff_number (hx : number? x = some a) (hy : number? y = some b) : x < y ↔ a < b := by
  have compared : x.toModel.unpack.compare y.toModel.unpack = some (compare a b) :=
    compare_unpacked hx hy
  have ordered : x < y ↔ x.toModel.unpack.lt y.toModel.unpack = true :=
    decide_eq_true_iff (p := x.toModel < y.toModel)
  rw [ordered, UnpackedFloat.lt, compared, ← compare_lt_iff_lt]
  simp

theorem le_iff_number (hx : number? x = some a) (hy : number? y = some b) : x ≤ y ↔ a ≤ b := by
  have compared : x.toModel.unpack.compare y.toModel.unpack = some (compare a b) :=
    compare_unpacked hx hy
  have ordered : x ≤ y ↔ x.toModel.unpack.le y.toModel.unpack = true :=
    decide_eq_true_iff (p := x.toModel ≤ y.toModel)
  rw [ordered, UnpackedFloat.le, compared, ← compare_le_iff_le]
  simp [Ordering.isLE_iff_ne_gt]

theorem number?_zero : number? 0 = some 0 := rfl

theorem number?_of_unpack {s : Sign} (pos : 0 < m)
    (unpacked : x.toModel.unpack = .finite s m e pos) : number? x = some ((s.apply m : ℚ) * 2 ^ e) := by
  rw [number?, unpacked]
  rfl

end DesignTokens
