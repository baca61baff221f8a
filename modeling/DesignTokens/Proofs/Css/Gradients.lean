import DesignTokens.Proofs.Css.Readings

/-!
# Gradients

A gradient is written with one text for each stop of the value as written. A stop that is a reference
has no color and no position there, and stops that are a reference as a whole are none at all; so what is
written shows the stops of the resolved value exactly if they are written out.

* `gradientKind`, `anglePart`, `stopItems`, `gradientText`: the parts of a gradient;
* `shownStops`: a text for each stop of the resolved value, with a use in place of a color or a position
  that is written as a reference;
* `WrittenOut`: the stops, and each of them, are no reference;
* `exists_stops_of_convertGradient`: what a gradient is converted to; **`shownStops_eq_ok_iff`**: its stops
  are shown exactly if they are written out;
* `renderReferences_gradientText`, **`shownStops_declared`**: the same as it is declared;
* `ExpandTo`, **`expandTo_anglePart_iff`**: an angle that is a reference; `scalarText_ne_angleText`: one to a
  number never has its unit.
-/

namespace DesignTokens

/-! ## The parts of a gradient -/

/-- The kind of a gradient: a linear one, if nothing else is said. -/
def gradientKind (v : Json) : String := ((v.member? "type").bind Json.string?).getD "linear"

/-- The stops of a gradient as a whole. -/
def stopsPart? : Json → Option Json
  | .arr items => some (.arr items)
  | j => j.member? "stops"

/-- The stops of a gradient, which are none if they are a reference as a whole. -/
def stopItems (j : Json) : List Json := ((stopsPart? j).bind Json.items?).getD []

/-- What stands in front of the angle of a gradient of a kind. -/
def angleStart (kind : String) : String := if kind = "conic" then "from " else ""

/-- The angle in front of the stops of a gradient of a kind, if there is one. -/
def anglePart (kind : String) (j : Json) : List String :=
  ((j.member? "angle").map fun angle => angleStart kind ++ angleText angle).toList

/-- A gradient of a kind, with an angle and stops. -/
def gradientText (kind : String) (parts : List String) : String :=
  kind ++ "-gradient(" ++ Text.join ", " parts ++ ")"

theorem mem_gradientText {kind part : String} {parts : List String} (hp : part ∈ parts) {c : Char}
    (hc : c ∈ part.toList) : c ∈ (gradientText kind parts).toList := by
  unfold gradientText
  simp only [String.toList_append]
  exact List.mem_append_left _ (List.mem_append_right _ (Text.mem_join hp hc))

/-- The stops as a whole, and each of them, are no reference. -/
def WrittenOut (j : Json) : Prop :=
  (∀ part, stopsPart? j = some part → Reference.ofJson? part = none) ∧
    ∀ stop ∈ stopItems j, Reference.ofJson? stop = none

/-- A gradient stop has a color, and a number as its position. -/
structure IsStop (v : Json) : Prop where
  color : ∃ c, v.member? "color" = some c
  position : ∃ n, v.member? "position" = some (.num n)

section Shown

variable (use : Reference → String) (transforms : Transforms) (path : String)

/-- The color of a stop, or the use of what its color is written as a reference to. -/
def shownColor (w v : Json) : Except ConvertError String :=
  match (w.member? "color").bind Reference.ofJson? with
  | some r => .ok (use r)
  | none =>
    let color := (v.member? "color").getD .null
    innerColor transforms path ⟨color, color⟩

/-- The position of a stop in percent, from the use of what it is written as a reference to. -/
def shownPosition (w v : Json) : String :=
  match (w.member? "position").bind Reference.ofJson? with
  | some r => "calc(" ++ use r ++ " * 100%)"
  | none => positionText ((v.member? "position").getD .null)

/-- The text of a stop as written and as resolved: its color and its position. -/
def shownStop (stop : Json × Json) : Except ConvertError String := do
  let color ← shownColor use transforms path stop.1 stop.2
  return color ++ " " ++ shownPosition use stop.1 stop.2

/-- Stops as written beside the resolved ones; what is not written stands as it is resolved. -/
def beside : List Json → List Json → List (Json × Json)
  | _, [] => []
  | [], v :: vs => (v, v) :: beside [] vs
  | w :: ws, v :: vs => (w, v) :: beside ws vs

/-- The texts of the stops of a resolved gradient, one for each, beside the gradient as written. -/
def shownStops (w v : Json) : Except ConvertError (List String) :=
  (beside (stopItems w) (stopItems v)).mapM (shownStop use transforms path)

end Shown

theorem map_snd_beside (ws vs : List Json) : (beside ws vs).map Prod.snd = vs := by
  induction vs generalizing ws with
  | nil => cases ws <;> rfl
  | cons v vs ih => cases ws <;> rw [beside, List.map_cons, ih]

theorem length_beside (ws vs : List Json) : (beside ws vs).length = vs.length := by
  rw [← List.length_map, map_snd_beside]

theorem beside_map (f : Json → Json) (ws : List Json) :
    beside ws (ws.map f) = ws.map fun w => (w, f w) := by
  induction ws with
  | nil => rfl
  | cons w ws ih => rw [List.map_cons, beside, ih, List.map_cons]

/-! ## Gradients without errors -/

theorem isStop_of_checkStops {stops : List Json} (h : Passes (checkStops stops)) :
    2 ≤ stops.length ∧ ∀ stop ∈ stops, IsStop stop := by
  unfold checkStops at h
  split at h
  · exact absurd h (not_passes_singleton rfl)
  · rename_i enough
    refine ⟨Nat.le_of_not_lt enough, fun stop hs => ?_⟩
    have fields := passes_checkNumbered h stop hs
    have position : (⟨"position", true, checkPosition⟩ : Field) ∈
        [⟨"color", true, checkColor⟩, ⟨"position", true, checkPosition⟩] := by simp
    refine ⟨exists_part_of_checkFields fields (List.mem_cons_self ..) rfl, ?_⟩
    obtain ⟨part, hp⟩ := exists_part_of_checkFields fields position rfl
    have passes : Passes (checkPosition part) := (passes_checkFields fields).2 _ position part hp
    cases part with
    | num n => exact ⟨n, hp⟩
    | null | bool _ | str _ | arr _ | obj _ => exact absurd passes (not_passes_singleton rfl)

theorem stops_of_checkGradient {v : Json} (h : Passes (checkGradient v)) :
    ∃ stops, stopsPart? v = some (.arr stops) ∧ 2 ≤ stops.length ∧ ∀ stop ∈ stops, IsStop stop := by
  unfold checkGradient at h
  split at h
  · exact ⟨_, rfl, isStop_of_checkStops h⟩
  · split at h
    · rename_i stops hs
      obtain ⟨part, hp, hs⟩ := Option.bind_eq_some_iff.1 hs
      cases part with
      | arr items =>
        cases hs
        exact ⟨stops, hp, isStop_of_checkStops (passes_issuesUnder.1 h)⟩
      | null | bool _ | num _ | str _ | obj _ => cases hs
    · exact absurd h (not_passes_singleton rfl)
  · exact absurd h (not_passes_singleton rfl)

theorem stopItems_of_stopsPart? {j part : Json} (hp : stopsPart? j = some part) :
    stopItems j = part.items?.getD [] := by
  unfold stopItems
  rw [hp]
  rfl

theorem eq_or_member?_of_stopsPart? {j part : Json} (hp : stopsPart? j = some part) :
    j = part ∨ j.member? "stops" = some part := by
  cases j with
  | arr items => exact .inl (Option.some.inj hp)
  | null | bool _ | num _ | str _ | obj _ => exact .inr hp

theorem exists_of_mem_stopItems {j stop : Json} (h : stop ∈ stopItems j) :
    ∃ part items, stopsPart? j = some part ∧ part = .arr items ∧ stop ∈ items := by
  cases hp : stopsPart? j with
  | none => simp [stopItems, hp] at h
  | some part =>
    rw [stopItems_of_stopsPart? hp] at h
    cases part with
    | arr items => exact ⟨_, items, rfl, rfl, h⟩
    | null | bool _ | num _ | str _ | obj _ => cases h

section Converted

variable {transforms : Transforms} {path : String} {σ : Reference → Json} {j : Json}

theorem stopsPart?_substitute (whole : Reference.ofJson? j = none) :
    stopsPart? (j.substitute σ) = (stopsPart? j).map (Json.substitute σ) := by
  cases j with
  | arr items => rw [Json.substitute_arr]; exact congrArg some (Json.substitute_arr σ items).symm
  | str s => rw [Json.substitute_of_isScalar σ whole trivial]; rfl
  | null | bool _ | num _ => rfl
  | obj members => exact Json.member?_substitute σ whole "stops"

theorem items_operand_eq (j : Json) :
    (j.operand σ).items = (j.items?.getD []).map (Json.operand σ) := by
  cases j with
  | arr items => exact Json.items_operand σ items
  | null | bool _ | num _ | str _ | obj _ => rfl

theorem part_angle (j : Json) (kind : String) :
    ((j.operand σ).part "angle" angleText).map (fun a => if kind = "conic" then "from " ++ a else a) =
      anglePart kind j := by
  unfold Operand.part anglePart angleStart
  rw [Json.member?_operand]
  cases j.member? "angle" with
  | none => rfl
  | some angle =>
    by_cases conic : kind = "conic"
    · simp [conic, Json.operand]
    · simp [conic, Json.operand]

theorem exists_stops_of_convertStops {part : Json} (hp : stopsPart? j = some part)
    {angle : List String} {text : String}
    (conv : convertStops transforms path angle (part.operand σ) = .ok text) :
    ∃ stops, text = Text.join ", " (angle ++ stops) ∧
      ((stopItems j).map (Json.operand σ)).mapM (convertStop transforms path) = .ok stops := by
  obtain ⟨stops, hstops, conv⟩ := bind_eq_ok.1 conv
  cases conv
  rw [items_operand_eq, ← stopItems_of_stopsPart? hp] at hstops
  exact ⟨stops, rfl, hstops⟩

/-- **What a gradient is converted to**: its kind, its angle and its stops, the last two as written. -/
theorem exists_stops_of_convertGradient (passes : Passes (checkGradient (j.substitute σ)))
    (whole : Reference.ofJson? j = none) {text : String}
    (conv : convertGradient transforms path (j.operand σ) = .ok text) :
    ∃ stops, text = gradientText (gradientKind (j.substitute σ))
        (anglePart (gradientKind (j.substitute σ)) j ++ stops) ∧
      ((stopItems j).map (Json.operand σ)).mapM (convertStop transforms path) = .ok stops := by
  obtain ⟨resolved, hr, -, -⟩ := stops_of_checkGradient passes
  rw [stopsPart?_substitute whole] at hr
  obtain ⟨part, hp, -⟩ := Option.map_eq_some_iff.1 hr
  cases j with
  | arr items =>
    obtain ⟨joined, hstops, conv⟩ := bind_eq_ok.1 conv
    cases conv
    obtain ⟨stops, rfl, texts⟩ := exists_stops_of_convertStops (j := .arr items) rfl hstops
    refine ⟨stops, ?_, texts⟩
    rw [Json.substitute_arr]
    rfl
  | obj members =>
    unfold convertGradient at conv
    dsimp only [Json.operand] at conv
    rw [← Json.operand, Json.member?_operand,
      show (Json.obj members).member? "stops" = some part from hp] at conv
    obtain ⟨joined, hstops, conv⟩ := bind_eq_ok.1 conv
    cases conv
    obtain ⟨stops, rfl, texts⟩ := exists_stops_of_convertStops hp hstops
    refine ⟨stops, ?_, texts⟩
    rw [part_angle]
    rfl
  | null | bool _ | num _ | str _ => cases hp

/-! ## One stop -/

theorem convertStop_of_reference {r : Reference} (whole : Reference.ofJson? j = some r) :
    convertStop transforms path (j.operand σ) = .ok "transparent" := by
  obtain ⟨rfl, -⟩ := ofJson?_eq_some_iff.1 whole
  show Except.ok (Text.join " " ["transparent"]) = _
  rw [Text.join, String.intercalate_singleton]

theorem innerColor_eq_shownColor {c : Json} (color : j.member? "color" = some c) :
    innerColor transforms path (c.operand σ) =
      shownColor Reference.text transforms path j (j.substitute σ) := by
  unfold shownColor
  rw [color, member?_resolved σ (Json.whole_of_member? color) color]
  cases hr : Reference.ofJson? c with
  | some r =>
    obtain ⟨rfl, -⟩ := ofJson?_eq_some_iff.1 hr
    rw [Option.bind_some, hr]
    rfl
  | none =>
    rw [Option.bind_some, hr]
    by_cases string : ∃ s, c = .str s
    · obtain ⟨s, rfl⟩ := string
      rw [Json.substitute_of_isScalar σ hr trivial]
      rfl
    · have hc : ∀ s, c ≠ .str s := fun s hs => string ⟨s, hs⟩
      exact innerColor_resolved hc (substitute_ne_str hc)

theorem positionText_eq_shownPosition {p : Json} (position : j.member? "position" = some p)
    (number : ∃ n, p.substitute σ = .num n) :
    positionText p = shownPosition Reference.text j (j.substitute σ) := by
  unfold shownPosition
  rw [position, member?_resolved σ (Json.whole_of_member? position) position]
  cases hr : Reference.ofJson? p with
  | some r =>
    obtain ⟨rfl, -⟩ := ofJson?_eq_some_iff.1 hr
    rw [Option.bind_some, hr]
    rfl
  | none =>
    obtain ⟨n, hn⟩ := number
    have scalar : (p.substitute σ).IsScalar := hn ▸ trivial
    rw [Option.bind_some, hr, Json.eq_of_substitute_isScalar σ hr scalar]
    rfl

theorem convertStop_eq_shownStop (whole : Reference.ofJson? j = none)
    (stop : IsStop (j.substitute σ)) : convertStop transforms path (j.operand σ) =
      shownStop Reference.text transforms path (j, j.substitute σ) := by
  obtain ⟨⟨color, hc⟩, n, hn⟩ := stop
  rw [Json.member?_substitute σ whole] at hc hn
  obtain ⟨c, hc, -⟩ := Option.map_eq_some_iff.1 hc
  obtain ⟨p, hp, number⟩ := Option.map_eq_some_iff.1 hn
  unfold convertStop shownStop Operand.part
  rw [Json.member?_operand, Json.member?_operand, hc, hp, ← innerColor_eq_shownColor hc,
    ← positionText_eq_shownPosition hp ⟨n, number⟩]
  show (innerColor transforms path (c.operand σ) >>= fun color =>
    .ok (Text.join " " [color, positionText p])) = _
  simp only [Text.join, String.intercalate_cons_cons, String.intercalate_singleton]
  rfl

theorem shownStop_ne_transparent {use : Reference → String} {stop : Json × Json} :
    shownStop use transforms path stop ≠ .ok "transparent" := by
  intro h
  obtain ⟨color, -, h⟩ := bind_eq_ok.1 h
  have same := congrArg String.toList (Except.ok.inj h)
  have blank : ' ' ∈ "transparent".toList := by
    rw [← same]
    simp
  revert blank
  decide

theorem convertStop_eq_shownStop_iff (stop : Reference.ofJson? j = none → IsStop (j.substitute σ)) :
    shownStop Reference.text transforms path (j, j.substitute σ) =
      convertStop transforms path (j.operand σ) ↔ Reference.ofJson? j = none := by
  cases whole : Reference.ofJson? j with
  | none => simp [convertStop_eq_shownStop whole (stop whole)]
  | some r =>
    rw [convertStop_of_reference whole]
    simp [shownStop_ne_transparent]

/-! ## All stops -/

theorem shownStops_ne_of_reference (passes : Passes (checkGradient (j.substitute σ)))
    {part : Json} (hp : stopsPart? j = some part) {r : Reference}
    (hr : Reference.ofJson? part = some r) {stops : List String}
    (conv : ((stopItems j).map (Json.operand σ)).mapM (convertStop transforms path) = .ok stops) :
    shownStops Reference.text transforms path j (j.substitute σ) ≠ .ok stops := by
  intro shown
  obtain ⟨resolved, hresolved, enough, -⟩ := stops_of_checkGradient passes
  have none : stopItems j = [] := by
    obtain ⟨rfl, -⟩ := ofJson?_eq_some_iff.1 hr
    exact stopItems_of_stopsPart? hp
  have lengths := (mapM_eq_ok.1 shown).length_eq
  rw [length_beside, stopItems_of_stopsPart? hresolved, ← (mapM_eq_ok.1 conv).length_eq, none] at lengths
  have : resolved.length = 0 := lengths
  omega

/-- **The stops of a gradient without errors are shown exactly if they are written out.** -/
theorem shownStops_eq_ok_iff (passes : Passes (checkGradient (j.substitute σ)))
    (whole : Reference.ofJson? j = none) {stops : List String}
    (conv : ((stopItems j).map (Json.operand σ)).mapM (convertStop transforms path) = .ok stops) :
    shownStops Reference.text transforms path j (j.substitute σ) = .ok stops ↔ WrittenOut j := by
  obtain ⟨resolved, hresolved, -, each⟩ := stops_of_checkGradient passes
  have items : stopItems (j.substitute σ) = resolved := stopItems_of_stopsPart? hresolved
  rw [stopsPart?_substitute whole] at hresolved
  obtain ⟨part, hp, hresolved⟩ := Option.map_eq_some_iff.1 hresolved
  cases hr : Reference.ofJson? part with
  | some r =>
    refine iff_of_false (shownStops_ne_of_reference passes hp hr conv) fun ⟨written, _⟩ => ?_
    cases (written part hp).symm.trans hr
  | none =>
    obtain ⟨list, rfl⟩ : ∃ list, part = .arr list := by
      cases part with
      | arr list => exact ⟨list, rfl⟩
      | str s => cases (Json.substitute_of_isScalar σ hr trivial).symm.trans hresolved
      | null | bool _ | num _ | obj _ => cases hresolved
    rw [Json.substitute_arr] at hresolved
    obtain rfl := Json.arr.inj hresolved
    have own : stopItems j = list := stopItems_of_stopsPart? hp
    have alike : ∀ stop ∈ list, shownStop Reference.text transforms path (stop, stop.substitute σ) =
        convertStop transforms path (stop.operand σ) ↔ Reference.ofJson? stop = none :=
      fun stop hs => convertStop_eq_shownStop_iff fun _ => each _ (List.mem_map_of_mem hs)
    unfold shownStops WrittenOut
    rw [items, own, beside_map, List.mapM_map]
    rw [own, List.mapM_map] at conv
    rw [mapM_eq_ok_iff_agree conv]
    constructor
    · refine fun agree => ⟨fun part' hp' => ?_, fun stop hs => (alike stop hs).1 (agree stop hs)⟩
      cases hp.symm.trans hp'
      rfl
    · exact fun ⟨_, written⟩ stop hs => (alike stop hs).2 (written stop hs)

/-! ## Gradients as they are declared -/

/-- The use of the custom property of what a reference is to. -/
def Reference.use (r : Reference) : String := Name.use (Name.customProperty r.path)

theorem shownColor_declared {w v : Json} (plain : v.Plain) {text : String}
    (h : shownColor Reference.text transforms path w v = .ok text) :
    Clear text ∧ shownColor Reference.use transforms path w v = .ok (Name.renderReferences text) := by
  unfold shownColor at h ⊢
  cases hr : (w.member? "color").bind Reference.ofJson? with
  | some r =>
    rw [hr] at h
    cases h
    obtain ⟨c, -, whole⟩ := Option.bind_eq_some_iff.1 hr
    have valid := (ofJson?_eq_some_iff.1 whole).2
    exact ⟨clear_reference valid, by rw [renderReferences_reference valid]; rfl⟩
  | none =>
    rw [hr] at h
    have color : ((v.member? "color").getD .null).Plain := by
      cases hc : v.member? "color" with
      | some c => exact plain.member? hc
      | none => trivial
    have free := braceFree_innerColor color color h
    exact ⟨free.clear, by rw [renderReferences_of_braceFree free]; exact h⟩

theorem shownPosition_declared {w v : Json} (stop : IsStop v) :
    Name.renderReferences (shownPosition Reference.text w v) = shownPosition Reference.use w v := by
  unfold shownPosition
  cases hr : (w.member? "position").bind Reference.ofJson? with
  | some r =>
    obtain ⟨p, -, whole⟩ := Option.bind_eq_some_iff.1 hr
    have valid := (ofJson?_eq_some_iff.1 whole).2
    have start : BraceFree "calc(" := by decide
    have stop : BraceFree " * 100%)" := by decide
    show Name.renderReferences ("calc(" ++ r.text ++ " * 100%)") = "calc(" ++ r.use ++ " * 100%)"
    rw [(start.clear.append (clear_reference valid)).renderReferences_append,
      start.clear.renderReferences_append, renderReferences_of_braceFree start,
      renderReferences_of_braceFree stop, renderReferences_reference valid]
    rfl
  | none =>
    obtain ⟨n, hn⟩ := stop.position
    rw [hn]
    exact renderReferences_of_braceFree ((braceFree_formatNumber _).append (by decide : BraceFree "%"))

theorem shownStop_declared {stop : Json × Json} (plain : stop.2.Plain) (fine : IsStop stop.2)
    {text : String} (h : shownStop Reference.text transforms path stop = .ok text) :
    shownStop Reference.use transforms path stop = .ok (Name.renderReferences text) := by
  obtain ⟨color, hcolor, h⟩ := bind_eq_ok.1 h
  cases h
  obtain ⟨clear, declared⟩ := shownColor_declared plain hcolor
  have blank : BraceFree " " := by decide
  refine bind_eq_ok.2 ⟨_, declared, ?_⟩
  rw [(clear.append blank.clear).renderReferences_append, clear.renderReferences_append,
    renderReferences_of_braceFree blank, shownPosition_declared fine]
  rfl

theorem plain_of_mem_stopItems {v : Json} (plain : v.Plain) : ∀ stop ∈ stopItems v, stop.Plain := by
  intro stop hs
  obtain ⟨part, items, hp, rfl, hs⟩ := exists_of_mem_stopItems hs
  rcases eq_or_member?_of_stopsPart? hp with rfl | hp
  · exact Json.AllStrings.of_mem plain hs
  · exact Json.AllStrings.of_mem (plain.member? hp) hs

/-- **Shown stops as they are declared**: with uses of custom properties in place of references. -/
theorem shownStops_declared {w v : Json} (passes : Passes (checkGradient v)) (plain : v.Plain)
    {stops : List String} (h : shownStops Reference.text transforms path w v = .ok stops) :
    shownStops Reference.use transforms path w v = .ok (stops.map Name.renderReferences) := by
  obtain ⟨resolved, hresolved, -, each⟩ := stops_of_checkGradient passes
  have items : stopItems v = resolved := stopItems_of_stopsPart? hresolved
  have fine : ∀ stop ∈ beside (stopItems w) (stopItems v), stop.2.Plain ∧ IsStop stop.2 := by
    intro stop hs
    have mem : stop.2 ∈ stopItems v := map_snd_beside (stopItems w) (stopItems v) ▸
      List.mem_map_of_mem hs
    exact ⟨plain_of_mem_stopItems plain _ mem, each _ (items ▸ mem)⟩
  refine mapM_eq_ok.2 (List.forall₂_map_right_iff.2 ?_)
  refine ((List.forall₂_and_left _ _).2 ⟨fine, mapM_eq_ok.1 h⟩).imp ?_
  rintro stop text ⟨⟨plain, fine⟩, shown⟩
  exact shownStop_declared plain fine shown

theorem braceFree_angleStart (kind : String) : BraceFree (angleStart kind) := by
  unfold angleStart
  split <;> decide

theorem clear_of_mem_stops (settles : j.Settles σ) {stops : List String}
    (conv : ((stopItems j).map (Json.operand σ)).mapM (convertStop transforms path) = .ok stops) :
    ∀ t ∈ stops, Clear t := by
  have each := mapM_eq_ok.1 conv
  rw [List.forall₂_map_left_iff] at each
  intro t ht
  obtain ⟨i, hi, rfl⟩ := List.mem_iff_getElem.1 ht
  have hi' : i < (stopItems j).length := each.length_eq ▸ hi
  obtain ⟨part, items, hp, rfl, hs⟩ := exists_of_mem_stopItems (List.getElem_mem hi')
  have inside : (Json.arr items).Settles σ := by
    rcases eq_or_member?_of_stopsPart? hp with rfl | hp
    · exact settles
    · exact settles.member hp
  exact (readFrom_composed (inside.item hs) (composed_stop (each.get hi' hi))).clear

theorem braceFree_gradientKind {v : Json} (plain : v.Plain) : BraceFree (gradientKind v) := by
  unfold gradientKind
  cases hk : (v.member? "type").bind Json.string? with
  | none => exact (by decide : BraceFree "linear")
  | some kind =>
    obtain ⟨part, hp, hs⟩ := Option.bind_eq_some_iff.1 hk
    exact (plain.member? hp).string? hs

/-- **A gradient as it is declared**, part by part. -/
theorem renderReferences_gradientText (settles : j.Settles σ) {stops : List String}
    (conv : ((stopItems j).map (Json.operand σ)).mapM (convertStop transforms path) = .ok stops) :
    Name.renderReferences (gradientText (gradientKind (j.substitute σ))
        (anglePart (gradientKind (j.substitute σ)) j ++ stops)) =
      gradientText (gradientKind (j.substitute σ))
        ((anglePart (gradientKind (j.substitute σ)) j ++ stops).map Name.renderReferences) := by
  have kind : BraceFree (gradientKind (j.substitute σ)) := braceFree_gradientKind settles.plain
  generalize gradientKind (j.substitute σ) = kind' at kind ⊢
  have angle : ∀ t ∈ anglePart kind' j, Clear t := by
    intro t ht
    obtain ⟨a, ha, rfl⟩ := Option.map_eq_some_iff.1 (Option.mem_toList.1 ht)
    have angle := composed_angleText (o := j.operand σ) (Json.inside_of_member? ha)
    exact (braceFree_angleStart kind').clear.append (readFrom_composed settles angle).clear
  have parts := List.forall_mem_append.2 ⟨angle, clear_of_mem_stops settles conv⟩
  have start := kind.append (by decide : BraceFree "-gradient(")
  have comma : BraceFree ", " := by decide
  have joined : Clear (Text.join ", " (anglePart kind' j ++ stops)) :=
    Text.join_induction (BraceFree.clear (by decide)) Clear.append comma.clear parts
  unfold gradientText
  rw [(start.clear.append joined).renderReferences_append, start.clear.renderReferences_append,
    renderReferences_of_braceFree start, renderReferences_of_braceFree (by decide : BraceFree ")"),
    renderReferences_join comma parts]

/-! ## Angles -/

theorem anglePart_substitute (whole : Reference.ofJson? j = none)
    (none : ∀ angle, j.member? "angle" = some angle → angle.references = []) (kind : String) :
    anglePart kind (j.substitute σ) = anglePart kind j := by
  unfold anglePart
  rw [Json.member?_substitute σ whole]
  cases ha : j.member? "angle" with
  | none => rfl
  | some angle => rw [Option.map_some, Json.substitute_of_references_eq_nil σ (none angle ha)]

/-- Texts come to others when all uses in them are replaced. -/
def ExpandTo (decls : List (String × List Fragment)) (texts values : List String) : Prop :=
  ∃ k, texts.map (fun t => (expand decls)^[k] (fragments t)) = values.map fragments

theorem braceFree_angleText {angle : Json} (plain : angle.Plain) (scalar : angle.IsScalar) :
    BraceFree (angleText angle) := by
  cases angle with
  | num n => exact (braceFree_formatNumber _).append (by decide : BraceFree "deg")
  | null | bool _ | str _ => exact braceFree_scalarText plain scalar
  | arr _ | obj _ => cases scalar

theorem scalarText_ne_angleText (n : Number) : scalarText (.num n) ≠ angleText (.num n) := by
  intro same
  have lengths := congrArg String.length same
  rw [show angleText (.num n) = scalarText (.num n) ++ "deg" from rfl, String.length_append] at lengths
  have : "deg".length = 3 := rfl
  omega

/-- **An angle that is a reference** comes to the text of the value that it stands for exactly if what is
referred to comes to that text. -/
theorem expandTo_anglePart_iff {decls : List (String × List Fragment)} {w v angle value : Json}
    {r : Reference} {text : String} (hw : w.member? "angle" = some angle)
    (whole : Reference.ofJson? angle = some r) (hv : v.member? "angle" = some value)
    (plain : value.Plain) (scalar : value.IsScalar) (comes : Evaluates decls r.text text)
    (kind : String) :
    ExpandTo decls (anglePart kind w) (anglePart kind v) ↔ text = angleText value := by
  obtain ⟨rfl, -⟩ := ofJson?_eq_some_iff.1 whole
  have start := braceFree_angleStart kind
  have behind : ∀ k, (expand decls)^[k] (fragments (angleStart kind ++ r.text)) =
      fragments (angleStart kind ++ angleText value) ↔
        (expand decls)^[k] (fragments r.text) = fragments (angleText value) := by
    intro k
    rw [fragments_append_of_braceFree start, fragments_append_of_braceFree start,
      iterate_expand_append, iterate_expand_chars, List.append_cancel_left_eq]
  have parts : ExpandTo decls (anglePart kind w) (anglePart kind v) ↔
      ∃ k, (expand decls)^[k] (fragments r.text) = fragments (angleText value) := by
    unfold ExpandTo anglePart
    rw [hw, hv]
    simp only [Option.map_some, Option.toList_some, List.map_singleton, List.cons.injEq, and_true]
    exact exists_congr behind
  rw [parts]
  constructor
  · exact fun steps => comes.unique ⟨comes.clear, braceFree_angleText plain scalar, steps⟩
  · rintro rfl
    exact comes.steps

end Converted

end DesignTokens
