import DesignTokens.Css.Convert
import DesignTokens.Proofs.Css.Fragments
import DesignTokens.Proofs.Steps
import DesignTokens.Proofs.Text.Pieces

/-!
# Converted values without references

Numbers, colors, sizes and fonts are written without braces, whatever stands in the value, as long as
its strings have none and nothing is written as a JSON text.

* `Numeral`: a text of letters, digits, points and signs; **`numeral_layout`**;
* `braceFree_formatNumber`, `braceFree_fluidText`, `braceFree_colorText`: numbers and what is made of
  them;
* `Json.Plain`: a value whose strings have no opening brace;
* `braceFree_scalarText`, `braceFree_familyItem`, `braceFree_weightText`: simple values.
-/

namespace DesignTokens

/-! ## Numbers -/

/-- A character of a number: a letter or a digit, a point or a sign. -/
def isNumeral (c : Char) : Bool := c.isAlphanum || c ∈ ['.', '+', '-']

/-- The text has only characters of numbers. -/
def Numeral (text : String) : Prop := text.toList.all isNumeral = true

instance (text : String) : Decidable (Numeral text) :=
  inferInstanceAs (Decidable (text.toList.all isNumeral = true))

theorem Numeral.append {a b : String} (ha : Numeral a) (hb : Numeral b) : Numeral (a ++ b) := by
  unfold Numeral
  rw [String.toList_append, List.all_append, ha, hb]
  rfl

theorem numeral_ofList {cs : List Char} (h : ∀ c ∈ cs, isNumeral c = true) :
    Numeral (String.ofList cs) := by
  unfold Numeral
  rw [String.toList_ofList]
  exact List.all_eq_true.2 h

theorem Numeral.notMem {text : String} (h : Numeral text) {c : Char} (hc : isNumeral c = false) :
    c ∉ text.toList := fun mem => by
  have := List.all_eq_true.1 h c mem
  rw [hc] at this
  cases this

theorem Numeral.braceFree {text : String} (h : Numeral text) : BraceFree text := h.notMem rfl

theorem numeral_of_mem_toDigits {n : Nat} {c : Char} (h : c ∈ Nat.toDigits 10 n) :
    isNumeral c = true := by
  have := Nat.isDigit_of_mem_toDigits (by decide) (by decide) h
  simp [isNumeral, Char.isAlphanum, this]

theorem numeral_of_mem_replicate {k : Nat} {c : Char} (h : c ∈ List.replicate k '0') :
    isNumeral c = true := by
  obtain rfl := List.eq_of_mem_replicate h
  rfl

theorem numeral_toString_nat (n : Nat) : Numeral (toString n) := by
  rw [Nat.toString_eq_repr, Nat.repr_eq_ofList_toDigits]
  exact numeral_ofList fun c => numeral_of_mem_toDigits

theorem numeral_toString_int (i : Int) : Numeral (toString i) := by
  rw [Int.toString_eq_repr]
  cases i with
  | ofNat n => exact numeral_toString_nat n
  | negSucc n =>
    show Numeral ("-" ++ toString (n + 1))
    exact Numeral.append (by decide) (numeral_toString_nat _)

theorem numeral_positional (whole : Bool) (n : Nat) (e : Int) :
    Numeral (Decimal.positional whole n e) := by
  unfold Decimal.positional
  simp only
  split
  · refine Numeral.append (numeral_ofList fun c hc => ?_) (by split <;> decide)
    rcases List.mem_append.1 hc with hc | hc
    · exact numeral_of_mem_toDigits hc
    · exact numeral_of_mem_replicate hc
  · have padded : ∀ k, ∀ c ∈ List.replicate k '0' ++ Nat.toDigits 10 n, isNumeral c = true := by
      intro k c hc
      rcases List.mem_append.1 hc with hc | hc
      · exact numeral_of_mem_replicate hc
      · exact numeral_of_mem_toDigits hc
    refine Numeral.append (Numeral.append ?_ (by decide)) ?_
    · exact numeral_ofList fun c hc => padded _ c (List.mem_of_mem_take hc)
    · exact numeral_ofList fun c hc => padded _ c (List.mem_of_mem_drop hc)

theorem numeral_scientific (n : Nat) (top : Int) : Numeral (Decimal.scientific n top) := by
  unfold Decimal.scientific
  refine Numeral.append (Numeral.append ?_ (by split <;> decide)) (numeral_toString_nat _)
  have digits : ∀ c ∈ Nat.toDigits 10 n, isNumeral c = true := fun c => numeral_of_mem_toDigits
  split
  · decide
  · rename_i hd
    exact numeral_ofList (hd ▸ digits)
  · rename_i d rest _ hd
    rw [hd] at digits
    refine numeral_ofList fun c hc => ?_
    rcases List.mem_cons.1 hc with rfl | hc
    · exact digits c List.mem_cons_self
    · rcases List.mem_cons.1 hc with rfl | hc
      · rfl
      · exact digits c (List.mem_cons_of_mem _ hc)

/-- **However a number is laid out.** -/
theorem numeral_layout (l : Decimal.Layout) (x : Float) : Numeral (l.text x) := by
  unfold Decimal.Layout.text
  split
  · decide
  · refine Numeral.append (by split <;> decide) ?_
    split
    · decide
    · unfold Decimal.Layout.magnitude
      simp only
      split
      · exact numeral_positional _ _ _
      · split
        · exact numeral_positional _ _ _
        · exact numeral_scientific _ _

theorem numeral_formatNumber (x : Float) : Numeral (formatNumber x) := by
  unfold formatNumber
  split
  · decide
  · exact numeral_layout _ _

theorem braceFree_formatNumber (x : Float) : BraceFree (formatNumber x) :=
  (numeral_formatNumber x).braceFree

theorem braceFree_formatRounded (x : Float) (places : Int) : BraceFree (formatRounded x places) :=
  braceFree_formatNumber _

theorem braceFree_append {a b : String} : BraceFree (a ++ b) ↔ BraceFree a ∧ BraceFree b := by
  simp [BraceFree, not_or]

theorem braceFree_text (size : FluidSize Float) : BraceFree size.text := by
  unfold FluidSize.text
  cases size with
  | static size => exact (braceFree_formatRounded _ _).append (by decide)
  | clamp lower intercept slope upper =>
    simp only [braceFree_append, braceFree_formatRounded, and_true]
    decide

theorem braceFree_fluidText (viewports : Viewports) (min max : Float) :
    BraceFree (fluidText viewports min max) :=
  braceFree_text _

theorem braceFree_channel (x : Float) : BraceFree (channel x) := (numeral_toString_int _).braceFree

/-! ## Values -/

/-- No string in the value, however deep, has an opening brace. -/
def Json.Plain (j : Json) : Prop := j.AllStrings BraceFree

/-! ## Simple values -/

theorem braceFree_scalarText {j : Json} (plain : j.Plain) (scalar : j.IsScalar) :
    BraceFree (scalarText j) := by
  cases j with
  | str s => exact plain
  | num n => exact braceFree_formatNumber _
  | bool b => cases b <;> decide
  | null => decide
  | arr items => cases scalar
  | obj members => cases scalar

theorem dimensionText_of_parts {j : Json} {n : Number} {unit : String}
    (value : j.member? "value" = some (.num n)) (hunit : j.member? "unit" = some (.str unit)) :
    dimensionText j = formatNumber n.toFloat ++ unit := by
  unfold dimensionText formatDimension?
  rw [value, hunit]
  rfl

theorem dimensionText_of_isScalar {j : Json} (scalar : j.IsScalar) :
    dimensionText j = scalarText j := by
  unfold dimensionText formatDimension?
  cases j with
  | arr items => cases scalar
  | obj members => cases scalar
  | null | bool _ | num _ | str _ => rfl

theorem mem_of_mem_trim {text : String} {c : Char} (h : c ∈ (Text.trim text).toList) : c ∈ text.toList := by
  unfold Text.trim at h
  rw [String.toList_ofList, List.mem_reverse] at h
  have front := (List.dropWhile_sublist _).subset h
  rw [List.mem_reverse] at front
  exact (List.dropWhile_sublist _).subset front

theorem braceFree_quoteFamily {name : String} (h : BraceFree name) : BraceFree (quoteFamily name) := by
  have trimmed : BraceFree (Text.trim name) := fun mem => h (mem_of_mem_trim mem)
  unfold quoteFamily
  simp only
  split
  · exact trimmed
  · split
    · exact trimmed
    · split
      · unfold BraceFree
        rw [String.toList_ofList]
        intro hm
        rcases List.mem_append.1 hm with hm | hm
        · rcases List.mem_cons.1 hm with hm | hm
          · exact absurd hm (by decide)
          · obtain ⟨c, hc, hm⟩ := List.mem_flatMap.1 hm
            split at hm
            · simp at hm
            · obtain rfl := List.mem_singleton.1 hm
              exact trimmed hc
        · exact absurd hm (by decide)
      · exact trimmed

/-- The text of a family in a list. -/
def familyItem : Json → String
  | .str name => quoteFamily name
  | j => scalarText j

theorem familyText_arr (names : List Json) :
    familyText (.arr names) = Text.join ", " (names.map familyItem) := by
  unfold familyText
  rfl

theorem braceFree_familyItem {j : Json} (plain : j.Plain) (scalar : j.IsScalar) :
    BraceFree (familyItem j) := by
  cases j with
  | str s => exact braceFree_quoteFamily plain
  | null | bool _ | num _ | arr _ | obj _ => exact braceFree_scalarText plain scalar

theorem not_startsWith_of_braceFree {text : String} (h : BraceFree text) :
    Text.startsWith "\x7b" text = false := by
  rw [← Bool.not_eq_true, Text.startsWith_iff]
  rintro ⟨rest, rfl⟩
  exact h (by simp [String.toList_append])

theorem familyText_of_isScalar {j : Json} (plain : j.Plain) (scalar : j.IsScalar) :
    familyText j = familyItem j := by
  cases j with
  | str s =>
    show (if Text.startsWith "\x7b" s then s else quoteFamily s) = quoteFamily s
    rw [not_startsWith_of_braceFree plain]
    rfl
  | null | bool _ | num _ => rfl
  | arr items => cases scalar
  | obj members => cases scalar

theorem braceFree_weightText {j : Json} (plain : j.Plain) (scalar : j.IsScalar) :
    BraceFree (weightText j) := by
  cases j with
  | str s =>
    unfold weightText
    simp only
    split
    · exact (numeral_toString_nat _).braceFree
    · exact plain
  | null | bool _ | num _ => exact braceFree_scalarText plain scalar
  | arr items => cases scalar
  | obj members => cases scalar

/-! ## Colors -/

theorem braceFree_alphaText (color : Json) : BraceFree (alphaText color) := by
  unfold alphaText
  split
  · split
    · exact BraceFree.append (by decide) (braceFree_formatNumber _)
    · decide
  · decide

theorem braceFree_colorText {path : String} {color : Json} {text : String}
    (h : colorText path color = .ok text) : BraceFree text := by
  unfold colorText at h
  obtain ⟨space, -, h⟩ := bind_eq_ok.1 h
  split at h
  · simp only at h
    split at h
    · cases h
      simp only [braceFree_append, braceFree_channel, braceFree_alphaText, and_true]
      decide
    · split at h
      · cases h
        simp only [toString, braceFree_append, braceFree_formatNumber, braceFree_alphaText, and_true]
        decide
      · split at h
        · cases h
          simp only [toString, braceFree_append, braceFree_formatNumber, braceFree_alphaText, and_true]
          decide
        · split at h
          · cases h
            simp only [toString, braceFree_append, braceFree_formatNumber, braceFree_alphaText,
              and_true]
            decide
          · cases h
  · cases h

end DesignTokens
