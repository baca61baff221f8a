import DesignTokens.Proofs.Css.Types

/-!
# What a converted text is put together from

Whatever the value of a token is, a text that it is converted to has pieces that the value brings along,
as they are, and around them nothing but numbers, a few words, blanks, commas and the parentheses of
functions. No assumption is made about the strings of the value.

* `Json.Inside`: a part of a value at any depth; `Operand.Within`: a part of an operand;
* `Operand.Brings`: the texts that an operand brings along;
* `Inert`: a text of numbers, words, blanks and commas;
* `Composed`: a text of both kinds, with functions around; `Composed.join`;
* `composed_dimensionText`, `composed_familyText`, `composed_innerColor`: simple values;
* `composed_shadow`, `composed_gradient`, `composed_style`: composite values;
* **`composed_convert?`**: every text that a value of any type is converted to.
-/

namespace DesignTokens

/-! ## Parts of values -/

/-- The value is the other one, or stands in it at some depth. -/
inductive Json.Inside (part : Json) : Json → Prop
  | here : Inside part part
  | item {j : Json} {items : List Json} (h : j ∈ items) (inside : Inside part j) :
    Inside part (.arr items)
  | member {m : String × Json} {members : List (String × Json)} (h : m ∈ members)
    (inside : Inside part m.2) : Inside part (.obj members)

namespace Json

variable {i j part : Json}

theorem inside_of_member? {key : String} (h : j.member? key = some part) : part.Inside j := by
  cases j with
  | obj members => exact .member (Table.mem_of_find?_eq_some h) .here
  | null | bool _ | num _ | str _ | arr _ => cases h

theorem inside_of_item? {index : Nat} (h : j.item? index = some part) : part.Inside j := by
  cases j with
  | arr items => exact .item (List.mem_of_getElem? h) .here
  | null | bool _ | num _ | str _ | obj _ => cases h

theorem Inside.trans (h : i.Inside j) (hj : j.Inside part) : i.Inside part := by
  induction hj with
  | here => exact h
  | item mem _ ih => exact .item mem ih
  | member mem _ ih => exact .member mem ih

theorem Inside.holds (h : i.Inside j) {s : String} (hs : i.Holds s) : j.Holds s := by
  induction h with
  | here => exact hs
  | item mem _ ih => exact .item mem ih
  | member mem _ ih => exact .member mem ih

theorem holds_of_inside {s : String} (h : (str s).Inside j) : j.Holds s := h.holds .here

theorem inside_of_holds {s : String} (h : j.Holds s) : (str s).Inside j := by
  induction h with
  | here => exact .here
  | item mem _ ih => exact .item mem ih
  | member mem _ ih => exact .member mem ih

theorem Exact.of_inside (h : j.Exact) (inside : i.Inside j) : i.Exact :=
  allStrings_iff.2 fun s hs => allStrings_iff.1 h s (inside.holds hs)

end Json

/-! ## Operands -/

namespace Operand

variable {o p : Operand}

/-- The operand is a part of the other one: what is written stands in what is written there, and the
resolved value in the resolved value or, where that lacks it, in what is written. -/
structure Within (p o : Operand) : Prop where
  raw : p.raw.Inside o.raw
  resolved : p.resolved.Inside o.raw ∨ p.resolved.Inside o.resolved

theorem within_of_map {f : Json → Option Json}
    (inside : ∀ {j part}, f j = some part → part.Inside j)
    (h : ((f o.raw).map fun raw => (⟨raw, (f o.resolved).getD raw⟩ : Operand)) = some p) :
    p.Within o := by
  obtain ⟨raw, hraw, rfl⟩ := Option.map_eq_some_iff.1 h
  refine ⟨inside hraw, ?_⟩
  cases hresolved : f o.resolved with
  | none => exact .inl (inside hraw)
  | some resolved => exact .inr (inside hresolved)

theorem within_of_member? {key : String} (h : o.member? key = some p) : p.Within o :=
  within_of_map Json.inside_of_member? h

theorem within_of_mem_items (h : p ∈ o.items) : p.Within o := by
  obtain ⟨index, -, hp⟩ := List.mem_filterMap.1 h
  exact within_of_map Json.inside_of_item? hp

/-- A text that the value brings along: one of its strings, the family name in a string, or the JSON text
of a list or an object in it. -/
inductive Brings (o : Operand) : String → Prop
  | string {s : String} (h : o.raw.Holds s ∨ o.resolved.Holds s) : Brings o s
  | family {s : String} (h : o.raw.Holds s) : Brings o (quoteFamily s)
  | json {j : Json} (h : j.Inside o.raw) (kind : ¬ j.IsScalar) : Brings o j.compact

theorem Brings.of_within {t : String} (h : p.Brings t) (w : p.Within o) : o.Brings t := by
  cases h with
  | string h =>
    rcases h with h | h
    · exact .string (.inl (w.raw.holds h))
    · exact .string (w.resolved.imp (·.holds h) (·.holds h))
  | family h => exact .family (w.raw.holds h)
  | json h kind => exact .json (h.trans w.raw) kind

end Operand

/-! ## Composed texts -/

/-- A character of a number or a word, or one between them. -/
def isInert (c : Char) : Bool := isNumeral c || c ∈ [' ', ',', '%', '*']

/-- The text has only numbers, words and what stands between them. -/
def Inert (text : String) : Prop := text.toList.all isInert = true

instance (text : String) : Decidable (Inert text) :=
  inferInstanceAs (Decidable (text.toList.all isInert = true))

theorem Inert.append {a b : String} (ha : Inert a) (hb : Inert b) : Inert (a ++ b) := by
  unfold Inert
  rw [String.toList_append, List.all_append, ha, hb]
  rfl

theorem Inert.braceFree {text : String} (h : Inert text) : BraceFree text := fun mem =>
  absurd (List.all_eq_true.1 h _ mem) (by decide)

theorem Numeral.inert {text : String} (h : Numeral text) : Inert text :=
  List.all_eq_true.2 fun c hc => by simp [isInert, List.all_eq_true.1 h c hc]

/-- The text opens the parentheses of a function, perhaps with an inert first argument. -/
def OpensCall (text : String) : Prop :=
  ∃ name first, Inert name ∧ Inert first ∧ text = name ++ "(" ++ first

/-- The text closes the parentheses of a function. -/
def ClosesCall (text : String) : Prop := ∃ last, Inert last ∧ text = last ++ ")"

theorem closesCall : ClosesCall ")" := ⟨"", by decide⟩

theorem OpensCall.braceFree {text : String} (h : OpensCall text) : BraceFree text := by
  obtain ⟨name, first, hname, hfirst, rfl⟩ := h
  exact (hname.braceFree.append (by decide)).append hfirst.braceFree

theorem ClosesCall.braceFree {text : String} (h : ClosesCall text) : BraceFree text := by
  obtain ⟨last, hlast, rfl⟩ := h
  exact hlast.braceFree.append (by decide)

/-- The text has pieces that the operand brings along, between inert ones and the parentheses of
functions. -/
inductive Composed (o : Operand) : String → Prop
  | inert {t : String} (h : Inert t) : Composed o t
  | slash : Composed o " / "
  | brought {t : String} (h : o.Brings t) : Composed o t
  | append {a b : String} (ha : Composed o a) (hb : Composed o b) : Composed o (a ++ b)
  | call {opening inside closing : String} (opens : OpensCall opening) (h : Composed o inside)
    (closes : ClosesCall closing) : Composed o (opening ++ inside ++ closing)

namespace Composed

variable {o p : Operand}

theorem of_within {t : String} (h : Composed p t) (w : p.Within o) : Composed o t := by
  induction h with
  | inert h => exact .inert h
  | slash => exact .slash
  | brought h => exact .brought (h.of_within w)
  | append _ _ iha ihb => exact .append iha ihb
  | call opens _ closes ih => exact .call opens ih closes

theorem string {s : String} (h : o.raw.Holds s ∨ o.resolved.Holds s) : Composed o s :=
  .brought (.string h)

theorem number (x : Float) : Composed o (formatNumber x) := .inert (numeral_formatNumber x).inert

theorem join {sep : String} (hs : Inert sep) {texts : List String} (h : ∀ t ∈ texts, Composed o t) :
    Composed o (Text.join sep texts) :=
  Text.join_induction (.inert (by decide)) append (.inert hs) h

end Composed

section Operands

variable {o : Operand} {transforms : Transforms} {path : String}

/-! ## Simple values -/

section Simple

variable {j : Json} (inside : j.Inside o.raw)

include inside

theorem composed_scalarText : Composed o (scalarText j) := by
  cases j with
  | str s => exact .string (.inl (Json.holds_of_inside inside))
  | num n => exact .number _
  | null => exact .inert (by decide)
  | bool b => exact .inert (by cases b <;> decide)
  | arr _ | obj _ => exact .brought (.json inside id)

theorem composed_dimensionText : Composed o (dimensionText j) := by
  unfold dimensionText
  cases hf : formatDimension? j with
  | none => exact composed_scalarText inside
  | some text =>
    unfold formatDimension? at hf
    obtain ⟨value, -, hf⟩ := Option.bind_eq_some_iff.1 hf
    obtain ⟨amount, -, hf⟩ := Option.bind_eq_some_iff.1 hf
    obtain ⟨unit, hu, hf⟩ := Option.bind_eq_some_iff.1 hf
    obtain ⟨s, hs, hf⟩ := Option.bind_eq_some_iff.1 hf
    cases hf
    cases unit with
    | str u =>
      obtain rfl := Option.some.inj hs
      have held := Json.holds_of_inside ((Json.inside_of_member? hu).trans inside)
      exact .append (.number amount) (.string (.inl held))
    | null | bool _ | num _ | arr _ | obj _ => cases hs

theorem composed_bezierText : Composed o (bezierText j) := by
  cases j with
  | arr points =>
    have opens : OpensCall "cubic-bezier(" := ⟨"cubic-bezier", "", by decide⟩
    refine .call opens (.join (by decide) fun t ht => ?_) closesCall
    obtain ⟨p, hp, rfl⟩ := List.mem_map.1 ht
    exact composed_scalarText ((Json.Inside.item hp .here).trans inside)
  | null | bool _ | num _ | str _ | obj _ => exact composed_scalarText inside

theorem composed_strokeText : Composed o (strokeText j) := by
  cases j with
  | obj members => exact .inert (by decide : Inert "dashed")
  | null | bool _ | num _ | str _ | arr _ => exact composed_scalarText inside

theorem composed_angleText : Composed o (angleText j) := by
  cases j with
  | num n => exact .append (.number _) (.inert (by decide))
  | null | bool _ | str _ | arr _ | obj _ => exact composed_scalarText inside

theorem composed_positionText : Composed o (positionText j) := by
  cases j with
  | num n => exact .append (.number _) (.inert (by decide))
  | str s =>
    have opens : OpensCall "calc(" := ⟨"calc", "", by decide⟩
    have closes : ClosesCall " * 100%)" := ⟨" * 100%", by decide⟩
    exact .call opens (.string (.inl (Json.holds_of_inside inside))) closes
  | null | bool _ | arr _ | obj _ => exact composed_scalarText inside

theorem composed_weightText : Composed o (weightText j) := by
  cases j with
  | str s =>
    unfold weightText
    simp only
    split
    · exact .inert (numeral_toString_nat _).inert
    · exact .string (.inl (Json.holds_of_inside inside))
  | null | bool _ | num _ | arr _ | obj _ => exact composed_scalarText inside

theorem composed_familyText : Composed o (familyText j) := by
  cases j with
  | arr names =>
    rw [familyText_arr]
    refine .join (by decide) fun t ht => ?_
    obtain ⟨name, hname, rfl⟩ := List.mem_map.1 ht
    have part := (Json.Inside.item hname .here).trans inside
    cases name with
    | str s => exact .brought (.family (Json.holds_of_inside part))
    | null | bool _ | num _ | arr _ | obj _ => exact composed_scalarText part
  | str s =>
    have held := Json.holds_of_inside inside
    unfold familyText
    simp only
    split
    · exact .string (.inl held)
    · exact .brought (.family held)
  | null | bool _ | num _ | obj _ => exact composed_scalarText inside

end Simple

/-! ## Colors and sizes -/

theorem composed_alphaText (color : Json) : Composed o (alphaText color) := by
  unfold alphaText
  split
  · split
    · exact .append .slash (.number _)
    · exact .inert (by decide)
  · exact .inert (by decide)

theorem inert_formatNumber (x : Float) : Inert (formatNumber x) := (numeral_formatNumber x).inert

theorem inert_channel (x : Float) : Inert (channel x) := (numeral_toString_int _).inert

theorem composed_function {opening components : String} (color : Json)
    (opens : OpensCall opening) (inert : Inert components) :
    Composed o (opening ++ (components ++ alphaText color) ++ ")") :=
  .call opens (.append (.inert inert) (composed_alphaText color)) closesCall

theorem composed_colorText {color : Json} {text : String} (h : colorText path color = .ok text) :
    Composed o text := by
  have blank : Inert " " := by decide
  have percent : Inert "%" := by decide
  have apart : Inert "% " := by decide
  unfold colorText at h
  obtain ⟨space, -, h⟩ := bind_eq_ok.1 h
  split at h
  · rename_i a b c _
    -- three components, with blanks between them
    have channels : Inert (channel a ++ " " ++ channel b ++ " " ++ channel c) :=
      ((((inert_channel a).append blank).append (inert_channel b)).append blank).append
        (inert_channel c)
    have numbers : Inert (formatNumber a ++ " " ++ formatNumber b ++ " " ++ formatNumber c) :=
      ((((inert_formatNumber a).append blank).append (inert_formatNumber b)).append blank).append
        (inert_formatNumber c)
    have shares : Inert (formatNumber a ++ " " ++ formatNumber b ++ "% " ++ formatNumber c ++ "%") :=
      (((((inert_formatNumber a).append blank).append (inert_formatNumber b)).append apart).append
        (inert_formatNumber c)).append percent
    simp only at h
    split at h
    · cases h
      simpa only [String.append_assoc] using
        composed_function color (⟨"rgb", "", by decide⟩ : OpensCall "rgb(") channels
    · split at h
      · cases h
        simpa only [String.append_assoc, toString] using
          composed_function color
            (⟨"color", "display-p3 ", by decide⟩ : OpensCall "color(display-p3 ") numbers
      · split at h
        · cases h
          simpa only [String.append_assoc, toString] using
            composed_function color (⟨"oklch", "", by decide⟩ : OpensCall "oklch(") numbers
        · split at h
          · cases h
            simpa only [String.append_assoc, toString] using
              composed_function color (⟨"hsl", "", by decide⟩ : OpensCall "hsl(") shares
          · cases h
  · cases h

theorem composed_color {v : CssValue} (h : convertColor transforms path o = .ok v) :
    ∀ t ∈ v.texts, Composed o t := by
  rcases convertColor_eq_ok_iff.1 h with ⟨s, hs, rfl⟩ | ⟨-, space, native, -, hnative, written⟩
  · simpa [CssValue.texts, CssValue.single] using Composed.string (.inl (hs ▸ .here))
  · have native := composed_colorText (o := o) hnative
    split at written
    · obtain rfl := written
      simpa [CssValue.texts, CssValue.single] using native
    · obtain ⟨hex, hhex, rfl⟩ := written
      have stand : Composed o hex :=
        .string (.inr (Json.holds_of_inside (Json.inside_of_member? hhex)))
      simp [CssValue.texts, native, stand]

theorem composed_innerColor {text : String} (h : innerColor transforms path o = .ok text) :
    Composed o text := by
  rw [innerColor_eq] at h
  obtain ⟨v, hv, rfl⟩ := map_eq_ok.1 h
  exact composed_color hv _ (by simp [CssValue.texts, body_of_convertColor hv])

theorem composed_fluid {text : String} (h : convertFluid transforms path o = .ok text) :
    Composed o text := by
  obtain ⟨min, -, h⟩ := bind_eq_ok.1 h
  obtain ⟨max, -, h⟩ := bind_eq_ok.1 h
  cases h
  have rounded (x : Float) (places : Int) : Inert (formatRounded x places) := inert_formatNumber _
  show Composed o (FluidSize.text _)
  unfold FluidSize.text
  split
  · exact .inert ((rounded _ _).append (by decide))
  · rename_i lower intercept slope upper _
    have opens : OpensCall "clamp(" := ⟨"clamp", "", by decide⟩
    have closes : ClosesCall "rem)" := ⟨"rem", by decide⟩
    have sizes : Inert (formatRounded lower 4 ++ "rem, " ++ formatRounded intercept 2 ++ "rem + " ++
        formatRounded slope 2 ++ "vw, " ++ formatRounded upper 4) :=
      (((((((rounded _ _).append (by decide)).append (rounded _ _)).append (by decide)).append
        (rounded _ _)).append (by decide)).append (rounded _ _))
    simpa only [String.append_assoc] using Composed.call (o := o) opens (.inert sizes) closes

/-! ## Parts of composite values -/

theorem composed_part {key : String} {read : Json → String}
    (reads : ∀ {o : Operand} {j : Json}, j.Inside o.raw → Composed o (read j)) :
    ∀ t ∈ o.part key read, Composed o t := by
  intro t ht
  unfold Operand.part at ht
  cases hm : o.member? key with
  | none =>
    rw [hm] at ht
    cases ht
  | some part =>
    rw [hm] at ht
    obtain rfl := List.mem_singleton.1 ht
    exact reads (Operand.within_of_member? hm).raw

theorem composed_colorPart {texts : List String} (h : o.colorPart transforms path = .ok texts) :
    ∀ t ∈ texts, Composed o t := by
  unfold Operand.colorPart at h
  split at h
  · rename_i part hm
    obtain ⟨text, ht, h⟩ := bind_eq_ok.1 h
    cases h
    simpa using (composed_innerColor ht).of_within (Operand.within_of_member? hm)
  · cases h
    simp

theorem composed_items {f : Operand → Except ConvertError String}
    (each : ∀ {part text}, f part = .ok text → Composed part text) {texts : List String}
    (h : o.items.mapM f = .ok texts) : ∀ t ∈ texts, Composed o t := by
  intro t ht
  obtain ⟨same, at_index⟩ := List.forall₂_iff_get.1 (mapM_eq_ok.1 h)
  obtain ⟨i, hi, rfl⟩ := List.mem_iff_getElem.1 ht
  have hi' : i < o.items.length := same ▸ hi
  exact (each (at_index i hi' hi)).of_within (Operand.within_of_mem_items (List.getElem_mem hi'))

/-! ## Composite values -/

theorem composed_border {text : String} (h : convertBorder transforms path o = .ok text) :
    Composed o text := by
  obtain ⟨color, hcolor, h⟩ := bind_eq_ok.1 h
  cases h
  refine .join (by decide) (List.forall_mem_append.2 ⟨List.forall_mem_append.2 ⟨?_, ?_⟩, ?_⟩)
  · exact composed_part composed_dimensionText
  · exact composed_part composed_strokeText
  · exact composed_colorPart hcolor

theorem composed_transition : Composed o (convertTransition o) := by
  refine .join (by decide) (List.forall_mem_append.2 ⟨List.forall_mem_append.2 ⟨?_, ?_⟩, ?_⟩)
  · exact composed_part composed_dimensionText
  · exact composed_part composed_bezierText
  · exact composed_part composed_dimensionText

theorem composed_length (key : String) :
    Composed o (((o.member? key).map fun p => dimensionText p.raw).getD "0") := by
  cases hm : o.member? key with
  | none => exact .inert (by decide : Inert "0")
  | some part => exact composed_dimensionText (Operand.within_of_member? hm).raw

theorem composed_layer {text : String} (h : convertLayer transforms path o = .ok text) :
    Composed o text := by
  unfold convertLayer at h
  split at h
  · rename_i s hs
    cases h
    exact .string (.inl (hs ▸ .here))
  · obtain ⟨color, hcolor, h⟩ := bind_eq_ok.1 h
    cases h
    refine .join (by decide) ?_
    simp only [List.forall_mem_append]
    refine ⟨⟨⟨?_, fun t ht => ?_⟩, composed_part composed_dimensionText⟩, composed_colorPart hcolor⟩
    · split
      · simpa using Composed.inert (by decide : Inert "inset")
      · simp
    · obtain ⟨key, -, rfl⟩ := List.mem_map.1 ht
      exact composed_length key

theorem composed_shadow {text : String} (h : convertShadow transforms path o = .ok text) :
    Composed o text := by
  unfold convertShadow at h
  split at h
  · obtain ⟨texts, hts, h⟩ := bind_eq_ok.1 h
    cases h
    exact .join (by decide) (composed_items composed_layer hts)
  · exact composed_layer h

theorem composed_stop {text : String} (h : convertStop transforms path o = .ok text) :
    Composed o text := by
  have position : ∀ t ∈ o.part "position" positionText, Composed o t :=
    composed_part composed_positionText
  unfold convertStop at h
  split at h
  · rename_i part hm
    obtain ⟨color, hcolor, h⟩ := bind_eq_ok.1 h
    cases h
    have color := (composed_innerColor hcolor).of_within (Operand.within_of_member? hm)
    exact .join (by decide) (List.forall_mem_cons.2 ⟨color, position⟩)
  · cases h
    have color : Composed o "transparent" := .inert (by decide)
    exact .join (by decide) (List.forall_mem_cons.2 ⟨color, position⟩)

theorem composed_stops {angle : List String} (angles : ∀ t ∈ angle, Composed o t) {stops : Operand}
    (w : stops.Within o) {text : String} (h : convertStops transforms path angle stops = .ok text) :
    Composed o text := by
  obtain ⟨texts, hts, h⟩ := bind_eq_ok.1 h
  cases h
  refine .join (by decide) (List.forall_mem_append.2 ⟨angles, fun t ht => ?_⟩)
  exact (composed_items composed_stop hts t ht).of_within w

theorem Operand.within_self : o.Within o := ⟨.here, .inr .here⟩

theorem composed_kind :
    Composed o (((o.resolved.member? "type").bind Json.string?).getD "linear") := by
  cases hk : (o.resolved.member? "type").bind Json.string? with
  | none => exact .inert (by decide : Inert "linear")
  | some kind =>
    obtain ⟨part, hp, hs⟩ := Option.bind_eq_some_iff.1 hk
    cases part with
    | str s =>
      obtain rfl := Option.some.inj hs
      exact .string (.inr (Json.holds_of_inside (Json.inside_of_member? hp)))
    | null | bool _ | num _ | arr _ | obj _ => cases hs

theorem composed_gradient {text : String} (h : convertGradient transforms path o = .ok text) :
    Composed o text := by
  have linear : OpensCall "linear-gradient(" := ⟨"linear-gradient", "", by decide⟩
  have other : OpensCall "-gradient(" := ⟨"-gradient", "", by decide⟩
  unfold convertGradient at h
  split at h
  · obtain ⟨stops, hstops, h⟩ := bind_eq_ok.1 h
    cases h
    exact .call linear (composed_stops (by simp) Operand.within_self hstops) closesCall
  · simp only at h
    split at h
    · cases h
      exact .append composed_kind (.call other (.inert (by decide : Inert "")) closesCall)
    · rename_i stops hm
      obtain ⟨texts, hstops, h⟩ := bind_eq_ok.1 h
      cases h
      have angles : ∀ t ∈ (o.part "angle" angleText).map fun a =>
          if ((o.resolved.member? "type").bind Json.string?).getD "linear" = "conic" then "from " ++ a
          else a, Composed o t := by
        intro t ht
        obtain ⟨angle, ha, rfl⟩ := List.mem_map.1 ht
        have angle := composed_part composed_angleText angle ha
        split
        · exact .append (.inert (by decide)) angle
        · exact angle
      have inside := composed_stops angles (Operand.within_of_member? hm) hstops
      simpa only [String.append_assoc] using
        composed_kind.append (.call other inside closesCall)

/-! ## Text styles -/

theorem composed_style {key text : String} (h : convertStyle transforms path key o = .ok text) :
    Composed o text := by
  unfold convertStyle at h
  split at h
  · cases h
    exact composed_familyText .here
  · split at h
    · cases h
      exact composed_weightText .here
    · split at h
      · exact composed_fluid h
      · cases h
        exact composed_dimensionText .here

theorem composed_typography {v : CssValue} (h : convertTypography transforms path o = .ok v) :
    ∃ parts, v = ⟨.entries parts, []⟩ ∧ ∀ p ∈ parts, Composed o p.2 := by
  obtain ⟨parts, hparts, rfl⟩ := convertTypography_eq_ok_iff.1 h
  refine ⟨parts, rfl, fun p hp => ?_⟩
  obtain ⟨kp, -, hkp⟩ := ((filterMapM_eq_ok hparts).2 p).1 hp
  rcases stylePart?_eq_ok.1 hkp with ⟨-, none⟩ | ⟨part, text, hpart, ht, some⟩
  · cases none
  · cases some
    exact (composed_style ht).of_within (Operand.within_of_member? hpart)

/-! ## All types -/

theorem Composed.single {text : String} (h : Composed o text) :
    ∀ t ∈ (CssValue.single text).texts, Composed o t := by
  intro t mem
  obtain rfl : t = text := by simpa [CssValue.texts, CssValue.single] using mem
  exact h

theorem composed_map {conversion : Except ConvertError String} {v : CssValue}
    (h : (some ∘ CssValue.single) <$> conversion = .ok (some v))
    (composed : ∀ {text}, conversion = .ok text → Composed o text) : ∀ t ∈ v.texts, Composed o t := by
  obtain ⟨text, ht, same⟩ := map_eq_ok.1 h
  cases same
  exact (composed ht).single

theorem composed_value {type : TokenType} {v : CssValue} (whole : Reference.ofJson? o.raw = none)
    (h : convert? transforms path type o = .ok (some v)) : ∀ t ∈ v.texts, Composed o t := by
  unfold convert? at h
  rw [whole] at h
  cases type with
  | unknown name => cases h
  | color =>
    obtain ⟨c, hc, some⟩ := map_eq_ok.1 h
    cases some
    exact composed_color hc
  | typography =>
    obtain ⟨c, hc, some⟩ := map_eq_ok.1 h
    cases some
    obtain ⟨parts, rfl, composed⟩ := composed_typography hc
    intro t ht
    obtain ⟨p, hp, rfl⟩ : ∃ p ∈ parts, p.2 = t := by simpa [CssValue.texts] using ht
    exact composed p hp
  | fluidDimension => exact composed_map h composed_fluid
  | shadow => exact composed_map h composed_shadow
  | border => exact composed_map h composed_border
  | gradient => exact composed_map h composed_gradient
  | dimension | duration =>
    cases h
    exact (composed_dimensionText .here).single
  | cubicBezier =>
    cases h
    exact (composed_bezierText .here).single
  | number =>
    cases h
    exact (composed_scalarText .here).single
  | fontFamily =>
    cases h
    exact (composed_familyText .here).single
  | fontWeight =>
    cases h
    exact (composed_weightText .here).single
  | transition =>
    cases h
    exact composed_transition.single
  | strokeStyle =>
    cases h
    exact (composed_strokeText .here).single

/-- **Every text that a value is converted to** is put together from what the value brings along, unless
the value is a reference to a text style. -/
theorem composed_convert? {type : TokenType} {v : CssValue}
    (style : type = .typography → Reference.ofJson? o.raw = none)
    (h : convert? transforms path type o = .ok (some v)) : ∀ t ∈ v.texts, Composed o t := by
  cases whole : Reference.ofJson? o.raw with
  | some r =>
    have ne : type ≠ .typography := fun same => by cases (style same).symm.trans whole
    rw [convert?_of_whole whole ne] at h
    cases h
    obtain ⟨raw, -⟩ := ofJson?_eq_some_iff.1 whole
    exact (Composed.string (.inl (raw ▸ .here))).single
  | none => exact composed_value whole h

end Operands

end DesignTokens
