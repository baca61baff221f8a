import DesignTokens.Lint.Rule

/-!
# Values without errors

What the shape of a value is when no rule finds an error in it. Warnings are no errors, and some types
have no rule: nothing is known of their values.

* `Passes`: no issue is an error; `passes_checkFields`, `passes_checkNumbered`: the parts of a value
  without errors have none; `exists_part_of_checkFields`: those that are required are there;
* `IsAmount`: a number and its unit; `isAmount_of_units`: a value without errors has them;
* `Accepted`: no rule finds an error; **`accepted_iff_lintToken`**.
-/

namespace DesignTokens

/-- No issue is an error. -/
def Passes (issues : List Issue) : Prop := ∀ i ∈ issues, i.level ≠ .error

theorem passes_append {is js : List Issue} : Passes (is ++ js) ↔ Passes is ∧ Passes js :=
  List.forall_mem_append

theorem passes_issuesUnder {property : String} {is : List Issue} :
    Passes (issuesUnder property is) ↔ Passes is := by
  unfold Passes issuesUnder
  rw [List.forall_mem_map]
  rfl

theorem not_passes_of_mem {is : List Issue} {i : Issue} (hi : i ∈ is) (h : i.level = .error) :
    ¬ Passes is := fun passes => passes i hi h

theorem not_passes_singleton {i : Issue} (h : i.level = .error) : ¬ Passes [i] :=
  not_passes_of_mem (List.mem_singleton.2 rfl) h

/-! ## Kinds of values -/

namespace Json

theorem exists_of_string? {j : Json} {s : String} (h : j.string? = some s) : j = .str s := by
  cases j with
  | str t => cases h; rfl
  | null | bool _ | num _ | arr _ | obj _ => cases h

theorem exists_of_float? {j : Json} {x : Float} (h : j.float? = some x) : ∃ n, j = .num n := by
  cases j with
  | num n => exact ⟨n, rfl⟩
  | null | bool _ | str _ | arr _ | obj _ => cases h

theorem exists_of_isSome_float? {j : Json} (h : j.float?.isSome = true) : ∃ n, j = .num n := by
  obtain ⟨x, hx⟩ := Option.isSome_iff_exists.1 h
  exact exists_of_float? hx

end Json

/-! ## Amounts -/

/-- The units of lengths and times. -/
def units : List String := ["px", "rem", "ms", "s"]

/-- A number and its unit. -/
def IsAmount (j : Json) : Prop :=
  ∃ n unit, j.member? "value" = some (.num n) ∧ j.member? "unit" = some (.str unit) ∧ unit ∈ units

theorem isAmount_of_parts {j : Json} (value : (j.member? "value").bind Json.float? ≠ none)
    (hunit : ∃ unit ∈ units, (j.member? "unit").bind Json.string? = some unit) : IsAmount j := by
  obtain ⟨x, hx⟩ := Option.ne_none_iff_exists'.1 value
  obtain ⟨unit, known, hs⟩ := hunit
  obtain ⟨v, hv, hx⟩ := Option.bind_eq_some_iff.1 hx
  obtain ⟨u, hu, hs⟩ := Option.bind_eq_some_iff.1 hs
  obtain ⟨n, rfl⟩ := Json.exists_of_float? hx
  obtain rfl := Json.exists_of_string? hs
  exact ⟨n, unit, hv, hu, known⟩

/-- A value without errors has an amount, if everything but a number is an error in place of its number, and
everything but one of these units in place of its unit. -/
theorem isAmount_of_units {j : Json} {amount : List Issue} {other : String → Issue} {missing : Issue}
    (allowed : List String) (known : allowed ⊆ units)
    (number : (j.member? "value").bind Json.float? = none → ¬ Passes amount)
    (others : ∀ unit, (other unit).level = .error) (absent : missing.level = .error)
    (h : Passes (amount ++ match (j.member? "unit").bind Json.string? with
      | some unit => if unit ∈ allowed then [] else [other unit]
      | none => [missing])) : IsAmount j := by
  obtain ⟨passes, unit⟩ := passes_append.1 h
  refine isAmount_of_parts (fun none => number none passes) ?_
  split at unit
  · rename_i unit' found
    split at unit
    · rename_i mem
      exact ⟨unit', known mem, found⟩
    · exact absurd unit (not_passes_singleton (others unit'))
  · exact absurd unit (not_passes_singleton absent)

theorem isAmount_of_dimension {j : Json} (h : Passes (checkDimension j)) : IsAmount j := by
  cases j with
  | obj members =>
    refine isAmount_of_units ["px", "rem"] (by simp [units]) (fun none => ?_) (fun _ => rfl) rfl h
    rw [none]
    exact not_passes_singleton rfl
  | null | bool _ | num _ | str _ | arr _ => exact absurd h (not_passes_singleton rfl)

theorem isAmount_of_duration {j : Json} (h : Passes (checkDuration j)) : IsAmount j := by
  cases j with
  | obj members =>
    refine isAmount_of_units ["ms", "s"] (by simp [units]) (fun none => ?_) (fun _ => rfl) rfl h
    rw [none]
    exact not_passes_singleton rfl
  | null | bool _ | num _ | str _ | arr _ => exact absurd h (not_passes_singleton rfl)

theorem hasMember_of_checkBound {bound : String} {j : Json} (h : Passes (checkBound bound j)) :
    j.hasMember bound = true := by
  unfold checkBound at h
  unfold Json.hasMember
  cases hb : j.member? bound with
  | some part => rfl
  | none =>
    rw [hb] at h
    exact absurd h (not_passes_singleton rfl)

theorem hasMember_of_fluid {j : Json} (h : Passes (checkFluid j)) :
    j.hasMember "min" = true ∧ j.hasMember "max" = true := by
  cases j with
  | obj members =>
    obtain ⟨min, max⟩ := passes_append.1 h
    exact ⟨hasMember_of_checkBound min, hasMember_of_checkBound max⟩
  | null | bool _ | num _ | str _ | arr _ => exact absurd h (not_passes_singleton rfl)

theorem size_of_checkSize {j : Json} (h : Passes (checkSize j)) :
    j.hasMember "min" = true ∧ j.hasMember "max" = true ∨
      IsAmount j ∧ j.hasMember "min" = false ∧ j.hasMember "max" = false := by
  unfold checkSize at h
  split at h
  · exact .inl (hasMember_of_fluid h)
  · rename_i bounds
    rw [Bool.or_eq_true, not_or, Bool.not_eq_true, Bool.not_eq_true] at bounds
    exact .inr ⟨isAmount_of_dimension h, bounds⟩

/-! ## Other simple values -/

theorem kind_of_weight {j : Json} (h : Passes (checkFontWeight j)) :
    (∃ s, j = .str s) ∨ ∃ n, j = .num n := by
  cases j with
  | str s => exact .inl ⟨s, rfl⟩
  | num n => exact .inr ⟨n, rfl⟩
  | null | bool _ | arr _ | obj _ => exact absurd h (not_passes_singleton rfl)

theorem ne_arr_of_stroke {j : Json} (h : Passes (checkStroke j)) (items : List Json) :
    j ≠ .arr items := by
  rintro rfl
  exact not_passes_singleton rfl h

theorem kind_of_bezier {j : Json} (h : Passes (checkCubicBezier j)) :
    (∃ s, j = .str s) ∨ ∃ points, j = .arr points ∧ ∀ p ∈ points, ∃ n, p = .num n := by
  unfold checkCubicBezier at h
  split at h
  · exact .inl ⟨_, rfl⟩
  · rename_i a b c d
    split at h
    · rename_i xa xb xc xd
      refine .inr ⟨_, rfl, fun p hp => ?_⟩
      simp only [List.mem_cons, List.not_mem_nil, or_false] at hp
      rcases hp with rfl | rfl | rfl | rfl
      · exact Json.exists_of_float? xa
      · exact Json.exists_of_float? xb
      · exact Json.exists_of_float? xc
      · exact Json.exists_of_float? xd
    · exact absurd h (not_passes_singleton rfl)
  · exact absurd h (not_passes_singleton rfl)

theorem kind_of_family {j : Json} (h : Passes (checkFontFamily j)) :
    (∃ s, j = .str s) ∨ ∃ names, j = .arr names ∧ ∀ n ∈ names, ∃ s, n = .str s := by
  cases j with
  | str s => exact .inl ⟨s, rfl⟩
  | arr names =>
    refine .inr ⟨names, rfl, fun n hn => ?_⟩
    by_cases valid : (!names.isEmpty && names.all fun n => n.string?.isSome) = true
    · have all := List.all_eq_true.1 (Bool.and_eq_true_iff.1 valid).2 n hn
      obtain ⟨s, hs⟩ := Option.isSome_iff_exists.1 all
      exact ⟨s, Json.exists_of_string? hs⟩
    · unfold checkFontFamily at h
      simp only [if_neg valid] at h
      exact absurd h (not_passes_singleton rfl)
  | null | bool _ | num _ | obj _ => exact absurd h (not_passes_singleton rfl)

theorem kind_of_lineHeight {j : Json} (h : Passes (checkLineHeight j)) :
    (∃ n, j = .num n) ∨ IsAmount j := by
  unfold checkLineHeight at h
  split at h
  · rename_i number
    exact .inl (Json.exists_of_isSome_float? number)
  · exact .inr (isAmount_of_dimension h)

/-! ## Parts -/

theorem passes_issues_of_checkFields {kind : String} {fields : List Field} {j : Json}
    (h : Passes (checkFields kind fields j)) :
    (∃ members, j = .obj members) ∧ ∀ f ∈ fields, Passes (f.issues kind j) := by
  unfold checkFields at h
  split at h
  · exact ⟨⟨_, rfl⟩, fun f hf i hi => h i (List.mem_flatMap.2 ⟨f, hf, hi⟩)⟩
  · exact absurd h (not_passes_singleton rfl)

theorem passes_checkFields {kind : String} {fields : List Field} {j : Json}
    (h : Passes (checkFields kind fields j)) :
    (∃ members, j = .obj members) ∧
      ∀ f ∈ fields, ∀ part, j.member? f.name = some part → Passes (f.check part) := by
  obtain ⟨object, issues⟩ := passes_issues_of_checkFields h
  refine ⟨object, fun f hf part hp => ?_⟩
  have issues := issues f hf
  unfold Field.issues at issues
  rw [hp] at issues
  exact passes_issuesUnder.1 issues

theorem exists_part_of_checkFields {kind : String} {fields : List Field} {j : Json}
    (h : Passes (checkFields kind fields j)) {f : Field} (hf : f ∈ fields)
    (required : f.required = true) : ∃ part, j.member? f.name = some part := by
  have issues := (passes_issues_of_checkFields h).2 f hf
  unfold Field.issues at issues
  cases hp : j.member? f.name with
  | some part => exact ⟨part, rfl⟩
  | none =>
    rw [hp] at issues
    simp only [required, if_true] at issues
    exact absurd issues (not_passes_singleton rfl)

theorem passes_checkNumbered {check : Json → List Issue} {parts : List Json}
    (h : Passes (checkNumbered check parts)) : ∀ p ∈ parts, Passes (check p) := by
  intro p hp
  obtain ⟨index, inside, rfl⟩ := List.mem_iff_getElem.1 hp
  have numbered : (parts[index], index) ∈ parts.zipIdx :=
    List.mk_mem_zipIdx_iff_getElem?.2 (List.getElem?_eq_getElem inside)
  have under : Passes (issuesUnder (toString index) (check parts[index])) := fun i hi =>
    h i (List.mem_flatMap.2 ⟨_, numbered, hi⟩)
  exact passes_issuesUnder.1 under

theorem layers_of_shadow {j : Json} (h : Passes (checkShadow j)) :
    (∃ layers, j = .arr layers ∧ ∀ l ∈ layers, Passes (checkLayer l)) ∨ Passes (checkLayer j) := by
  unfold checkShadow at h
  split at h
  · exact absurd h (not_passes_singleton rfl)
  · exact .inl ⟨_, rfl, passes_checkNumbered h⟩
  · exact .inr h

/-! ## Tokens -/

/-- No rule finds an error in a value of a type. -/
def Accepted (type : TokenType) (j : Json) : Prop :=
  ∀ e ∈ valueIssues Rule.all type j, e.2.level ≠ .error

theorem Accepted.passes {type : TokenType} {j : Json} (h : Accepted type j) (rule : Rule)
    (applies : rule.applies type = true) : Passes (rule.check type j) := by
  intro i hi
  have all : rule ∈ Rule.all := by cases rule <;> decide
  refine h (rule, i) (List.mem_flatMap.2 ⟨rule, List.mem_filter.2 ⟨all, applies⟩, ?_⟩)
  exact List.mem_map.2 ⟨i, hi, rfl⟩

theorem isError_diagnostic (i : Issue) (rule : String) (t : ResolvedToken) :
    (i.diagnostic rule t).isError = true ↔ i.level = .error := by
  unfold Issue.diagnostic Diagnostic.isError
  cases i.property <;> exact decide_eq_true_iff

/-- **A value is accepted exactly if no finding about its token is an error.** -/
theorem accepted_iff_lintToken {t : ResolvedToken} {type : TokenType} (h : t.type = some type) :
    Accepted type t.value ↔ ¬ ∃ d ∈ lintToken Rule.all t, d.isError = true := by
  unfold Accepted lintToken
  rw [h]
  constructor
  · rintro accepted ⟨d, hd, error⟩
    obtain ⟨⟨rule, i⟩, hi, rfl⟩ := List.mem_map.1 hd
    exact accepted _ hi ((isError_diagnostic i rule.name t).1 error)
  · intro none e he error
    exact none ⟨_, List.mem_map.2 ⟨e, he, rfl⟩, (isError_diagnostic e.2 e.1.name t).2 error⟩

end DesignTokens
