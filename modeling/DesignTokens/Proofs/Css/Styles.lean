import DesignTokens.Proofs.Css.Composites

/-!
# Text styles

A text style becomes one custom property for each of its properties. One that refers to another text
style refers to each of the custom properties of that one.

* `customProperty_append`: the custom property of a sub-property; `isPath_append`: its path;
* `SpelledStyle`, `renders_style`: one property of a text style;
* `BodyRenders`: bodies that come to others under a condition;
* **`renders_typography`**: a text style with its own properties; **`keys_of_typography`**: which these
  are; **`evaluates_typographyAlias`**: a text style that refers to another.
-/

namespace DesignTokens

/-! ## Names of sub-properties -/

theorem splitOn_of_notMem {sep : Char} {text : String} (h : sep ∉ text.toList) :
    Text.splitOn sep text = [text] := by
  have piece : ∀ p ∈ [text], sep ∉ p.toList := by simpa using h
  have := Text.splitOn_join piece (by simp)
  rwa [Text.join, String.intercalate_singleton] at this

theorem customProperty_append {path property : String} (h : '.' ∉ property.toList) :
    Name.customProperty (path ++ "." ++ property) =
      Name.customProperty path ++ "-" ++ Name.kebab property := by
  have split := Text.splitOn_append '.' path property
  rw [splitOn_of_notMem h] at split
  unfold Name.customProperty Name.kebabPath
  rw [show "." = String.singleton '.' from rfl, split, List.map_append, Text.join, Text.join,
    String.intercalate_append_of_ne_nil (by simp [Text.splitOn_ne_nil]) (by simp)]
  simp [String.append_assoc]

theorem isPath_append {path property : List Char} (h : Reference.isPath path = true)
    (hp : Reference.isPath property = true) :
    Reference.isPath (path ++ '.' :: property) = true := by
  unfold Reference.isPath at h hp ⊢
  rw [Bool.and_eq_true] at h hp ⊢
  rw [Text.splitChars_eq_splitOn] at h hp ⊢
  rw [List.splitOn_append_cons_self, List.all_append, List.all_append, List.all_cons, h.1, h.2, hp.1,
    hp.2]
  exact ⟨by decide, rfl⟩

/-! ## One property -/

theorem fluidBound_of_ok {path key : String} {v : Json} {x : Float}
    (h : fluidBound path key v = .ok x) (path' : String) : fluidBound path' key v = .ok x := by
  unfold fluidBound at h ⊢
  split at h
  · exact h
  · cases h

theorem convertFluid_of_ok {transforms : Transforms} {path text : String} {o : Operand}
    (h : convertFluid transforms path o = .ok text) (path' : String) (raw : Json) :
    convertFluid transforms path' ⟨raw, o.resolved⟩ = .ok text ∧ BraceFree text := by
  obtain ⟨min, hmin, h⟩ := bind_eq_ok.1 h
  obtain ⟨max, hmax, h⟩ := bind_eq_ok.1 h
  cases h
  refine ⟨bind_eq_ok.2 ⟨min, fluidBound_of_ok hmin path', ?_⟩, braceFree_fluidText _ _ _⟩
  exact bind_eq_ok.2 ⟨max, fluidBound_of_ok hmax path', rfl⟩

/-- A property of a text style is spelled out. -/
def SpelledStyle (key : String) (part : Json) : Prop :=
  if key = "fontFamily" then SpelledFamily part
  else if key = "fontWeight" then True
  else if key = "fontSize" ∧ part.hasMember "min" = true ∧ part.hasMember "max" = true then True
  else SpelledAmount part

theorem spelledOut_typography_iff {j : Json} : SpelledOut .typography j ↔
    ∀ kp ∈ typographyProperties, ∀ part, j.member? kp.1 = some part → SpelledStyle kp.1 part := by
  simp only [SpelledOut, amountsOf, familiesOf, typographyProperties, SpelledStyle, Json.mem_parts,
    List.forall_mem_append, List.mem_filter, List.mem_cons, List.not_mem_nil, or_false,
    exists_eq_left, Bool.not_and, Bool.or_eq_true, Bool.not_eq_eq_eq_not, Bool.not_true, and_imp,
    exists_eq_or_imp, ↓existsAndEq, true_and, if_true_left, not_and, Bool.not_eq_true,
    forall_eq_or_imp, ↓reduceIte, String.reduceEq, not_false_eq_true, forall_const,
    not_true_eq_false, IsEmpty.forall_iff, implies_true, forall_eq]
  constructor
  · rintro ⟨⟨size, others⟩, family⟩
    refine ⟨family, fun part hp bounds => size part hp ?_, fun part hp => others part (.inl hp),
      fun part hp => others part (.inr hp)⟩
    cases hmin : part.hasMember "min" with
    | false => exact .inl rfl
    | true => exact .inr (bounds hmin)
  · rintro ⟨family, size, spacing, height⟩
    refine ⟨⟨fun part hp bounds => size part hp fun hmin => ?_, fun part hp =>
      hp.elim (spacing part) (height part)⟩, family⟩
    exact bounds.resolve_left (by simp [hmin])

/-- What is checked of a text style. -/
def typographyFields : List Field := [
  ⟨"fontFamily", true, checkFontFamily⟩,
  ⟨"fontSize", true, checkSize⟩,
  ⟨"fontWeight", false, checkFontWeight⟩,
  ⟨"letterSpacing", false, checkDimension⟩,
  ⟨"lineHeight", false, checkLineHeight⟩]

section Style

variable {transforms : Transforms} {decls : List (String × List Fragment)} {σ : Reference → Json}
  {j : Json} {names : Prop} {path : String}

variable (σ) in
theorem hasMember_resolved (whole : Reference.ofJson? j = none) (key : String) :
    (j.substitute σ).hasMember key = j.hasMember key := by
  unfold Json.hasMember
  rw [Json.member?_substitute σ whole, Option.isSome_map]

theorem string?_of_hasMember {v : Json} {key : String} (h : v.hasMember key = true) :
    v.string? = none := by
  cases v with
  | obj members => rfl
  | null | bool _ | num _ | str _ | arr _ => cases h

theorem spelledStyle_fontSize {part : Json}
    (h : ¬ (part.hasMember "min" = true ∧ part.hasMember "max" = true)) :
    SpelledStyle "fontSize" part ↔ SpelledAmount part := by
  simp [SpelledStyle, h]

theorem convertStyle_fontSize (path' : String) (o : Operand) :
    convertStyle transforms path' "fontSize" o =
      if o.isFluid then convertFluid transforms path' o else .ok (dimensionText o.raw) := by
  simp [convertStyle]

theorem renders_fluidSize (draws : Draws transforms decls σ .typography (some "fontSize") j)
    (plain : (j.substitute σ).Plain) (min : (j.substitute σ).hasMember "min" = true)
    (max : (j.substitute σ).hasMember "max" = true) {text : String}
    (h : convertStyle transforms path "fontSize" (j.operand σ) = .ok text) :
    ∃ value, (∀ path', convertFluid transforms path' ⟨j.substitute σ, j.substitute σ⟩ = .ok value) ∧
      Renders decls names (SpelledStyle "fontSize" j) text value := by
  rw [convertStyle_fontSize] at h
  cases whole : Reference.ofJson? j with
  | some r =>
    obtain ⟨found, carried, fits⟩ := draws.reference whole
    obtain rfl : found = .fluidDimension := by
      rcases fits_iff.1 (fits _ rfl) with rfl | ⟨-, same⟩ | ⟨rfl, -⟩
      · exact absurd ⟨min, max⟩ carried.shaped
      · cases same
      · rfl
    obtain ⟨body, value, -, -, same⟩ := carried.comes (by simp)
    obtain ⟨size, rfl, sizes⟩ := single_of_conversionOf? rfl (ofJson?_of_plain plain) same
    obtain ⟨rfl, valid⟩ := ofJson?_eq_some_iff.1 whole
    cases h
    have evaluates := carried.evaluates valid (by simp) (same "")
    refine ⟨size, sizes, (evaluates.renders ?_).renders⟩
    exact (spelledStyle_fontSize (by simp [Json.hasMember, Json.member?])).2 fun part hp => by
      cases hp
  | none =>
    have bounds := And.intro (hasMember_resolved σ whole "min") (hasMember_resolved σ whole "max")
    rw [min, max] at bounds
    have raw : (j.operand σ).isFluid = true := by
      simp [Operand.isFluid, Json.operand, string?_of_hasMember bounds.1.symm, min, max]
    rw [raw, if_pos rfl] at h
    have free := (convertFluid_of_ok h path (j.substitute σ)).2
    refine ⟨text, fun path' => (convertFluid_of_ok h path' _).1,
      ((Evaluates.refl free).renders ?_).renders⟩
    simp [SpelledStyle, ← bounds.1, ← bounds.2]

theorem renders_size (draws : Draws transforms decls σ .typography (some "fontSize") j)
    (plain : (j.substitute σ).Plain) (quotable : names → j.Quotable)
    (passes : Passes (checkSize (j.substitute σ))) {text : String}
    (h : convertStyle transforms path "fontSize" (j.operand σ) = .ok text) :
    ∃ value, (∀ path', convertStyle transforms path' "fontSize" ((j.substitute σ).operand σ) =
        .ok value) ∧ Renders decls names (SpelledStyle "fontSize" j) text value := by
  rw [Json.operand_of_plain σ plain]
  simp only [convertStyle_fontSize]
  rcases size_of_checkSize passes with ⟨min, max⟩ | ⟨amount, min, max⟩
  · have fluid : (⟨j.substitute σ, j.substitute σ⟩ : Operand).isFluid = true := by
      simp [Operand.isFluid, string?_of_hasMember min, min, max]
    simp only [fluid, if_true]
    exact renders_fluidSize draws plain min max h
  · have resolved : (⟨j.substitute σ, j.substitute σ⟩ : Operand).isFluid = false := by
      simp [Operand.isFluid, min]
    have raw : (j.operand σ).isFluid = false := by simp [Operand.isFluid, Json.operand, min]
    simp only [convertStyle_fontSize, raw, Bool.false_eq_true, if_false] at h
    simp only [resolved, Bool.false_eq_true, if_false]
    cases h
    refine ⟨_, fun _ => rfl, ((renders_amount draws plain rfl (by simp) amount quotable).congr
      ?_).renders⟩
    refine (spelledStyle_fontSize fun bounds => ?_).symm
    cases whole : Reference.ofJson? j with
    | some r =>
      obtain ⟨rfl, -⟩ := ofJson?_eq_some_iff.1 whole
      cases bounds.1
    | none =>
      rw [hasMember_resolved σ whole, bounds.1] at min
      cases min

/-- **One property of a text style.** -/
theorem renders_style {key property : String} (hkey : (key, property) ∈ typographyProperties)
    (draws : Draws transforms decls σ .typography (some key) j) (plain : (j.substitute σ).Plain)
    (quotable : names → j.Quotable)
    (passes : ∀ check required, ⟨key, required, check⟩ ∈ typographyFields →
      Passes (check (j.substitute σ))) {text : String}
    (h : convertStyle transforms path key (j.operand σ) = .ok text) :
    ∃ value, (∀ path', convertStyle transforms path' key ((j.substitute σ).operand σ) = .ok value) ∧
      Renders decls names (SpelledStyle key j) text value := by
  simp only [typographyProperties, List.mem_cons, Prod.mk.injEq, List.not_mem_nil, or_false] at hkey
  rcases hkey with ⟨rfl, -⟩ | ⟨rfl, -⟩ | ⟨rfl, -⟩ | ⟨rfl, -⟩ | ⟨rfl, -⟩
  · have family := kind_of_family (passes checkFontFamily true (by simp [typographyFields]))
    cases h
    refine ⟨_, fun _ => rfl, renders_family draws plain rfl ?_ quotable⟩
    rcases family with ⟨s, hs⟩ | ⟨items, hi, strings⟩
    · exact .inl (hs ▸ trivial)
    · refine .inr ⟨items, hi, fun item hm => ?_⟩
      obtain ⟨s, rfl⟩ := strings item hm
      trivial
  · exact renders_size draws plain quotable
      (passes checkSize true (by simp [typographyFields])) h
  · have weight := kind_of_weight (passes checkFontWeight false (by simp [typographyFields]))
    cases h
    refine ⟨_, fun _ => rfl, ?_⟩
    have scalar : (j.substitute σ).IsScalar := by
      rcases weight with ⟨s, hs⟩ | ⟨n, hn⟩
      · exact hs ▸ trivial
      · exact hn ▸ trivial
    exact ((evaluates_weight draws plain rfl scalar).renders (by simp [SpelledStyle])).renders
  · have amount := isAmount_of_dimension (passes checkDimension false (by simp [typographyFields]))
    cases h
    refine ⟨_, fun _ => rfl, ((renders_amount draws plain rfl (by simp) amount quotable).congr
      ?_).renders⟩
    simp [SpelledStyle]
  · have height := passes checkLineHeight false (by simp [typographyFields])
    cases h
    refine ⟨_, fun _ => rfl, ((renders_lineHeight draws plain rfl height quotable).congr
      ?_).renders⟩
    simp [SpelledStyle]

end Style

/-! ## All properties -/

section Body

variable (decls : List (String × List Fragment)) (names ok : Prop)

/-- A body that comes to another one if a value is spelled out, and otherwise never does. -/
structure BodyRenders (body value : CssBody) : Prop where
  evaluates : ok → BodyEvaluates decls body value
  differs : names → ¬ ok → ∀ path k, (body.declarations path).map (fun d =>
    (d.1, (expand decls)^[k] d.2)) ≠ value.declarations path

variable {decls names ok} {ok' : Prop}

namespace BodyRenders

theorem congr {body value : CssBody} (h : BodyRenders decls names ok body value)
    (same : ok ↔ ok') : BodyRenders decls names ok' body value := by
  rwa [← propext same]

theorem single {text value : String} (h : Renders decls names ok text value) :
    BodyRenders decls names ok (.single text) (.single value) := by
  refine ⟨fun spelled => .single (h.evaluates spelled), fun named unspelled path k same => ?_⟩
  have := (List.cons.inj same).1
  exact h.differs named unspelled k (congrArg Prod.snd this)

theorem nil (spelled : ok) : BodyRenders decls names ok (.entries []) (.entries []) :=
  ⟨fun _ => .entries .nil, fun _ unspelled => absurd spelled unspelled⟩

theorem cons {property text value : String} {parts values : List (String × String)}
    (h : Renders decls names ok text value)
    (hs : BodyRenders decls names ok' (.entries parts) (.entries values)) :
    BodyRenders decls names (ok ∧ ok') (.entries ((property, text) :: parts))
      (.entries ((property, value) :: values)) := by
  refine ⟨fun spelled => ?_, fun named unspelled path k same => ?_⟩
  · cases hs.evaluates spelled.2 with
    | entries rest => exact .entries (.cons ⟨rfl, h.evaluates spelled.1⟩ rest)
  · obtain ⟨first, rest⟩ := List.cons.inj same
    by_cases spelled : ok
    · exact hs.differs named (fun spelled' => unspelled ⟨spelled, spelled'⟩) path k rest
    · exact h.differs named spelled k (congrArg Prod.snd first)

end BodyRenders

end Body

section Typography

variable {transforms : Transforms} {decls : List (String × List Fragment)} {σ : Reference → Json}
  {j : Json} {names : Prop} {path : String}

theorem stylePart?_eq_ok {o : Operand} {kp : String × String} {entry : Option (String × String)} :
    stylePart? transforms path o kp = .ok entry ↔
      o.member? kp.1 = none ∧ entry = none ∨
        ∃ part text, o.member? kp.1 = some part ∧ convertStyle transforms path kp.1 part = .ok text ∧
          entry = some (kp.2, text) := by
  unfold stylePart?
  cases o.member? kp.1 with
  | none => simp [eq_comm]
  | some part =>
    show (convertStyle transforms path kp.1 part >>= _) = _ ↔ _
    rw [bind_eq_ok]
    constructor
    · rintro ⟨text, ht, same⟩
      exact .inr ⟨part, text, rfl, ht, (Except.ok.inj same).symm⟩
    · rintro (⟨absent, -⟩ | ⟨part', text, same, ht, rfl⟩)
      · cases absent
      · cases same
        exact ⟨text, ht, rfl⟩

theorem renders_styles (draws : Draws transforms decls σ .typography none j)
    (plain : (j.substitute σ).Plain) (whole : Reference.ofJson? j = none)
    (quotable : names → j.Quotable)
    (passes : ∀ f ∈ typographyFields, ∀ part, (j.substitute σ).member? f.name = some part →
      Passes (f.check part)) :
    ∀ {l parts : List (String × String)}, (∀ kp ∈ l, kp ∈ typographyProperties) →
    l.filterMapM (stylePart? transforms path (j.operand σ)) = .ok parts →
    ∃ values, (∀ path', l.filterMapM (stylePart? transforms path' ((j.substitute σ).operand σ)) =
        .ok values) ∧
      BodyRenders decls names
        (∀ kp ∈ l, ∀ part, j.member? kp.1 = some part → SpelledStyle kp.1 part)
        (.entries parts) (.entries values)
  | [], parts, _, h => by
    cases h
    exact ⟨[], fun _ => rfl, .nil (by simp)⟩
  | (key, property) :: rest, parts, known, h => by
    obtain ⟨known, others⟩ := List.forall_mem_cons.1 known
    obtain ⟨entry, rests, hentry, hrests, rfl⟩ := filterMapM_cons_eq_ok.1 h
    obtain ⟨values, sames, renders⟩ := renders_styles draws plain whole quotable passes others hrests
    have resolved := Json.member?_operand σ (j.substitute σ) key
    rw [Json.member?_substitute σ whole] at resolved
    rcases stylePart?_eq_ok.1 hentry with ⟨absent, rfl⟩ | ⟨part, text, present, ht, rfl⟩
    · rw [Json.member?_operand, Option.map_eq_none_iff] at absent
      rw [absent] at resolved
      refine ⟨values, fun path' => filterMapM_cons_eq_ok.2
        ⟨none, values, stylePart?_eq_ok.2 (.inl ⟨resolved, rfl⟩), sames path', rfl⟩, renders.congr ?_⟩
      simp [absent]
    · rw [Json.member?_operand, Option.map_eq_some_iff] at present
      obtain ⟨part, present, rfl⟩ := present
      rw [present] at resolved
      have member := member?_resolved σ whole present
      obtain ⟨value, same, first⟩ := renders_style known (draws.member present)
        (plain.member? member) (fun named => (quotable named).member? present)
        (fun check required hf => passes ⟨key, required, check⟩ hf _ member) ht
      refine ⟨(property, value) :: values, fun path' => filterMapM_cons_eq_ok.2
        ⟨some (property, value), values, stylePart?_eq_ok.2 (.inr ⟨_, value, resolved, same path', rfl⟩),
          sames path', rfl⟩, (BodyRenders.cons first renders).congr ?_⟩
      simp [present]

/-- **A text style with its own properties.** -/
theorem renders_typography (draws : Draws transforms decls σ .typography none j)
    (plain : (j.substitute σ).Plain) (whole : Reference.ofJson? j = none)
    (quotable : names → j.Quotable) (passes : Passes (checkTypography (j.substitute σ)))
    {c : CssValue} (h : convertTypography transforms path (j.operand σ) = .ok c) :
    ∃ value, (∀ path', convertTypography transforms path' ((j.substitute σ).operand σ) =
        .ok ⟨value, []⟩) ∧
      BodyRenders decls names (SpelledOut .typography j) c.body value := by
  have fields := (passes_checkFields passes).2
  obtain ⟨parts, hparts, h⟩ := convertTypography_eq_ok_iff.1 h
  cases h
  obtain ⟨values, sames, renders⟩ :=
    renders_styles draws plain whole quotable fields (fun _ h => h) hparts
  exact ⟨.entries values, fun path' => convertTypography_eq_ok_iff.2 ⟨values, sames path', rfl⟩,
    renders.congr spelledOut_typography_iff.symm⟩

/-! ## References to other text styles -/

theorem keys_styles {o : Operand} : ∀ {l parts : List (String × String)},
    l.filterMapM (stylePart? transforms path o) = .ok parts →
      parts.map Prod.fst = (l.filter fun kp => o.raw.hasMember kp.1).map Prod.snd
  | [], parts, h => by
    cases h
    rfl
  | (key, property) :: rest, parts, h => by
    obtain ⟨entry, rests, hentry, hrests, rfl⟩ := filterMapM_cons_eq_ok.1 h
    have keys := keys_styles hrests
    rcases stylePart?_eq_ok.1 hentry with ⟨absent, rfl⟩ | ⟨part, text, present, -, rfl⟩
    · have lacks : ¬ o.raw.hasMember key = true := by
        unfold Operand.member? at absent
        simp [Json.hasMember, Option.map_eq_none_iff.1 absent]
      rw [List.filter_cons, if_neg lacks, ← keys]
      rfl
    · have has : o.raw.hasMember key = true := by
        obtain ⟨raw, member, -⟩ := Option.map_eq_some_iff.1 present
        simp [Json.hasMember, member]
      rw [List.filter_cons, if_pos has, List.map_cons, ← keys]
      rfl

/-- **The sub-properties of a text style** are those of the value that it refers to, or its own. -/
theorem keys_of_typography {o : Operand} {v : CssValue}
    (h : convert? transforms path .typography o = .ok (some v)) :
    ∃ parts, v = ⟨.entries parts, []⟩ ∧ parts.map Prod.fst =
      (typographyProperties.filter fun kp =>
        if (Reference.ofJson? o.raw).isSome then o.resolved.hasMember kp.1
        else o.raw.hasMember kp.1).map Prod.snd := by
  cases whole : Reference.ofJson? o.raw with
  | some r =>
    rw [convert?_typographyAlias whole] at h
    cases h
    exact ⟨_, rfl, List.map_map⟩
  | none =>
    rw [convert?_typography whole] at h
    obtain ⟨c, hc, same⟩ := map_eq_ok.1 h
    cases same
    obtain ⟨parts, hparts, rfl⟩ := convertTypography_eq_ok_iff.1 hc
    exact ⟨parts, rfl, keys_styles hparts⟩

theorem isPath_property : ∀ kp ∈ typographyProperties, '.' ∉ kp.2.toList ∧
    Reference.isPath kp.2.toList = true := by
  decide

/-- **A text style that refers to another one.** -/
theorem evaluates_typographyAlias {r : Reference} {v : Json}
    (carried : Carried transforms decls r.path .typography v)
    (valid : Reference.isPath r.path.toList = true) :
    ∃ value, (∀ path', convert? transforms path' .typography ⟨v, v⟩ = .ok (some ⟨value, []⟩)) ∧
      BodyEvaluates decls (typographyAlias r v).body value := by
  obtain ⟨body, value, finds, comes, same⟩ := carried.comes (by simp)
  refine ⟨value, same, ?_⟩
  have conv := same ""
  rw [convert?_typography (ofJson?_of_plain carried.plain)] at conv
  obtain ⟨c, hc, some⟩ := map_eq_ok.1 conv
  obtain rfl := Option.some.inj some
  obtain ⟨values, hvalues, hc⟩ := convertTypography_eq_ok_iff.1 hc
  cases hc
  cases comes with
  | entries comes =>
    rename_i parts
    have same : parts.map Prod.fst = values.map Prod.fst := by
      rw [← List.forall₂_eq_eq_eq, List.forall₂_map_left_iff, List.forall₂_map_right_iff]
      exact comes.imp fun _ _ h => h.1
    have keys := same.trans (keys_styles hvalues)
    have alias' : (typographyAlias r v).body =
        .entries (parts.map fun d => (d.1, Reference.text ⟨r.path ++ "." ++ d.1⟩)) := by
      have entries := congrArg
        (List.map fun p => (p, Reference.text ⟨r.path ++ "." ++ p⟩)) keys
      rw [List.map_map, List.map_map] at entries
      exact congrArg CssBody.entries entries.symm
    have known : ∀ d ∈ parts, '.' ∉ d.1.toList ∧ Reference.isPath d.1.toList = true := by
      intro d hd
      obtain ⟨kp, hkp, property⟩ := List.mem_map.1 (keys ▸ List.mem_map_of_mem hd)
      rw [← property]
      exact isPath_property kp (List.mem_filter.1 hkp).1
    rw [alias']
    refine .entries (List.forall₂_map_left_iff.2 ?_)
    refine ((List.forall₂_and_left _ _).2 ⟨fun d hd => And.intro hd (known d hd), comes⟩).imp ?_
    rintro d value ⟨⟨hd, dotFree, isPath⟩, property, evaluates⟩
    refine ⟨property, .reference ?_ ?_ evaluates⟩
    · rw [String.toList_append, String.toList_append, List.append_assoc]
      exact isPath_append valid isPath
    · rw [customProperty_append dotFree]
      exact finds _ (List.mem_map.2 ⟨d, hd, rfl⟩)

end Typography

end DesignTokens
