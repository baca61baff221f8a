import DesignTokens.Proofs.Compile.Suppression
import DesignTokens.Proofs.Css.Parts

/-!
# Aliases of tokens without errors

A token that is nothing but a reference has the value of its target, and may have a type of its own
that fits. A dimension fits where a fluid one is asked for, and a fluid one where a dimension is; but
the rules for their values differ. An alias of one as the other is without errors only if its value is
both: a number with a unit that has two bounds as well.

* `IsLength`, `passes_checkDimension_iff`; `IsFluid`, `passes_checkFluid_iff`: what the two rules ask for;
* `Aliases`: a reference to another token is the whole value, perhaps through further ones;
* `Denotes.of_aliases`: the value and the type of an alias;
* `accepted_iff_of_fits`: a value without errors under a type that fits;
* **`lintToken_alias_iff`**: when an alias is without errors, and in stylesheets.
-/

namespace DesignTokens

open Relation

/-! ## Lengths -/

/-- A number of `px` or `rem`. -/
def IsLength (j : Json) : Prop :=
  ∃ n unit, j.member? "value" = some (.num n) ∧ j.member? "unit" = some (.str unit) ∧
    unit ∈ ["px", "rem"]

/-- Two bounds that are lengths. -/
def IsFluid (j : Json) : Prop :=
  ∃ min max, j.member? "min" = some min ∧ j.member? "max" = some max ∧ IsLength min ∧ IsLength max

theorem passes_nil : Passes [] := by simp [Passes]

theorem passes_checkDimension_iff {j : Json} : Passes (checkDimension j) ↔ IsLength j := by
  constructor
  · intro h
    obtain ⟨n, unit, value, hunit, -⟩ := isAmount_of_dimension h
    refine ⟨n, unit, value, hunit, ?_⟩
    cases j with
    | obj members =>
      have units := (passes_append.1 h).2
      rw [hunit] at units
      simp only [Option.bind_some, Json.string?] at units
      by_contra other
      rw [if_neg other] at units
      exact not_passes_singleton rfl units
    | null | bool _ | num _ | str _ | arr _ => cases value
  · rintro ⟨n, unit, value, hunit, known⟩
    cases j with
    | obj members =>
      refine passes_append.2 ⟨?_, ?_⟩
      · rw [value]
        exact passes_nil
      · rw [hunit]
        simp only [Option.bind_some, Json.string?, if_pos known]
        exact passes_nil
    | null | bool _ | num _ | str _ | arr _ => cases value

theorem passes_checkBound_iff {bound : String} {j : Json} :
    Passes (checkBound bound j) ↔ ∃ part, j.member? bound = some part ∧ IsLength part := by
  unfold checkBound
  cases hb : j.member? bound with
  | none => simpa using not_passes_singleton rfl
  | some part => simp [passes_issuesUnder, passes_checkDimension_iff]

theorem passes_checkFluid_iff {j : Json} : Passes (checkFluid j) ↔ IsFluid j := by
  cases j with
  | obj members =>
    show Passes (checkBound "min" _ ++ checkBound "max" _) ↔ _
    rw [passes_append, passes_checkBound_iff, passes_checkBound_iff]
    constructor
    · rintro ⟨⟨min, hmin, lower⟩, max, hmax, upper⟩
      exact ⟨min, max, hmin, hmax, lower, upper⟩
    · rintro ⟨min, max, hmin, hmax, lower, upper⟩
      exact ⟨⟨min, hmin, lower⟩, max, hmax, upper⟩
  | null | bool _ | num _ | str _ | arr _ =>
    exact iff_of_false (not_passes_singleton rfl) fun ⟨_, _, absent, _⟩ => nomatch absent

theorem accepted_iff_passes (rule : Rule) {type : TokenType}
    (only : Rule.all.filter (·.applies type) = [rule]) {j : Json} :
    Accepted type j ↔ Passes (rule.check type j) := by
  unfold Accepted Passes valueIssues
  rw [only, List.flatMap_singleton, List.forall_mem_map]

theorem accepted_dimension_iff {j : Json} : Accepted .dimension j ↔ IsLength j :=
  (accepted_iff_passes .dimension rfl).trans passes_checkDimension_iff

theorem accepted_fluid_iff {j : Json} : Accepted .fluidDimension j ↔ IsFluid j :=
  (accepted_iff_passes .fluidDimension rfl).trans passes_checkFluid_iff

/-! ## Types that fit -/

theorem fits_refl (type : TokenType) : type.fits type = true := fits_iff.2 (.inl rfl)

theorem fits_trans {a b c : TokenType} (ab : a.fits b = true) (bc : b.fits c = true) :
    a.fits c = true := by
  rw [fits_iff] at *
  rcases ab with rfl | ⟨rfl, rfl⟩ | ⟨rfl, rfl⟩
  · exact bc
  · rcases bc with rfl | ⟨h, -⟩ | ⟨-, rfl⟩
    · exact .inr (.inl ⟨rfl, rfl⟩)
    · cases h
    · exact .inl rfl
  · rcases bc with rfl | ⟨-, rfl⟩ | ⟨h, -⟩
    · exact .inr (.inr ⟨rfl, rfl⟩)
    · exact .inl rfl
    · cases h

/-- **A value without errors under a type that fits its own**: the types are the same, or the value is
both a length and a fluid one. -/
theorem accepted_iff_of_fits {found own : TokenType} {j : Json} (valid : Accepted found j)
    (fits : found.fits own = true) : Accepted own j ↔ own = found ∨ IsLength j ∧ IsFluid j := by
  rcases fits_iff.1 fits with rfl | ⟨rfl, rfl⟩ | ⟨rfl, rfl⟩
  · exact iff_of_true valid (.inl rfl)
  · rw [accepted_dimension_iff] at valid
    simp [accepted_fluid_iff, valid]
  · rw [accepted_fluid_iff] at valid
    simp [accepted_dimension_iff, valid]

/-! ## Aliases -/

section Aliases

variable (all : Contexts Flat) (c : Context)

/-- The whole value of `t` is a reference to `u`. -/
def IsAliasOf (t u : FlatToken) : Prop :=
  ∃ r, Reference.ofJson? t.value = some r ∧ lookup? all c r.path = some u

/-- The whole value of `t` is a reference to `u`, or to an alias of `u`. -/
def Aliases : FlatToken → FlatToken → Prop := TransGen (IsAliasOf all c)

variable {all c} {t u : FlatToken} {R S : Resolved}

/-- **The value and the type of an alias of one token.** -/
theorem IsAliasOf.denotes (refers : IsAliasOf all c t u) (h : Denotes all c t R) :
    ∃ S, Denotes all c u S ∧ R = ⟨S.value, t.type <|> S.type⟩ ∧ Compatible t.type S.type := by
  obtain ⟨r, whole, seen⟩ := refers
  have used : (⟨r, none⟩ : Use) ∈ t.uses := by simp [FlatToken.uses_of_alias whole]
  cases h with
  | intro target found seen' denotes compatible =>
    obtain rfl : target r = u := Option.some.inj ((seen' _ used).symm.trans seen)
    refine ⟨found r, denotes _ used, ?_, compatible _ used⟩
    rw [Json.substitute_reference _ whole]
    simp [settledType, whole]

theorem IsAliasOf.exists_type (refers : IsAliasOf all c t u) (h : Denotes all c t R)
    (target : Denotes all c u S) {type : TokenType} (typed : S.type = some type) :
    R.value = S.value ∧ ∃ own, R.type = some own ∧ type.fits own = true := by
  obtain ⟨S', denotes, rfl, compatible⟩ := refers.denotes h
  obtain rfl := target.unique denotes
  refine ⟨rfl, ?_⟩
  cases ht : t.type with
  | none => exact ⟨type, by simpa using typed, fits_refl type⟩
  | some own => exact ⟨own, rfl, compatible own ht type typed⟩

/-- **The value and the type of an alias**, through any number of other aliases. -/
theorem Denotes.of_aliases (refers : Aliases all c t u) (h : Denotes all c t R)
    (target : Denotes all c u S) {type : TokenType} (typed : S.type = some type) :
    R.value = S.value ∧ ∃ own, R.type = some own ∧ type.fits own = true := by
  -- from the first alias on; each has the type of the next one or one that it fits
  induction refers using TransGen.head_induction_on generalizing R with
  | single refers => exact refers.exists_type h target typed
  | head refers _ ih =>
    obtain ⟨M, middle, -, -⟩ := refers.denotes h
    obtain ⟨value, between, hbetween, fits⟩ := ih middle
    obtain ⟨value', own, hown, fits'⟩ := refers.exists_type h middle hbetween
    exact ⟨value'.trans value, own, hown, fits_trans fits fits'⟩

/-! ## Findings and stylesheets -/

/-- **When an alias is without errors.** An alias of a token whose value is without errors has that
value. It is without errors itself exactly if it has the type of its target, or the value is both a
length and a fluid one; and in trees of documents, with a type that is known, exactly then it is in the
stylesheets. -/
theorem lintToken_alias_iff (keyed : all.Keyed) (ht : t ∈ declared all c) (refers : Aliases all c t u)
    {rt : ResolvedToken} (hrt : (resolveAll all).token? c t.path = some rt) {type : TokenType}
    {value : Json} (denotes : Denotes all c u ⟨value, some type⟩) (valid : Accepted type value) :
    rt.value = value ∧
    ((¬ ∃ d ∈ lintToken Rule.all rt, d.isError = true) ↔
      rt.type = some type ∨ IsLength value ∧ IsFluid value) ∧
    ∀ trees, all = flatten trees → (∀ t ∈ trees, t.Parsed) → ∀ modifiers settings out,
      compile trees modifiers settings = .ok out → type.isKnown = true →
        (out.converts c t.path ↔ rt.type = some type ∨ IsLength value ∧ IsFluid value) := by
  obtain ⟨-, denotesAlias⟩ := denotes_of_mem_declared keyed ht hrt
  obtain ⟨same, own, hown, fits⟩ := denotesAlias.of_aliases refers denotes rfl
  dsimp only at same hown
  have lints : (¬ ∃ d ∈ lintToken Rule.all rt, d.isError = true) ↔
      rt.type = some type ∨ IsLength value ∧ IsFluid value := by
    rw [← accepted_iff_lintToken hown, same, accepted_iff_of_fits valid fits, hown, Option.some.injEq]
  refine ⟨same, lints, ?_⟩
  rintro trees rfl parsed modifiers settings out h known
  have known' : own.isKnown = true := by
    rcases fits_iff.1 fits with rfl | ⟨-, rfl⟩ | ⟨-, rfl⟩
    · exact known
    · rfl
    · rfl
  rw [← lints, ← isFaulty_iff_lintToken parsed hrt, ← reports_iff h]
  exact ⟨not_reports_of_converts h, converts_of_not_reports h parsed hrt hown known'⟩

end Aliases

/-! ## A gap that grows -/

/-- A whole number of pixels. -/
def pixels (n : Int) : Json := .obj [("value", .num (.integer n)), ("unit", .str "px")]

/-- A size with two bounds. -/
def gapValue : Json := .obj [("min", pixels 16), ("max", pixels 32)]

/-- A fluid dimension, and two aliases of it: one without a type, and one that is a dimension. -/
def gapTree : Tree where
  context := .base
  tokens := ⟨.empty, [
    ("gap", .token ⟨gapValue, some .fluidDimension, none, none, some ⟨"gap.json"⟩⟩),
    ("row", .token ⟨.str "\x7bgap\x7d", none, none, none, some ⟨"gap.json"⟩⟩),
    ("pad", .token ⟨.str "\x7bgap\x7d", some .dimension, none, none, some ⟨"gap.json"⟩⟩)]⟩
  file := ⟨"gap.json"⟩

/-- The document of these sizes. -/
def gapDocument : Json := .obj [
  ("gap", .obj [("$type", .str "fluidDimension"), ("$value", gapValue)]),
  ("row", .obj [("$value", .str "\x7bgap\x7d")]),
  ("pad", .obj [("$type", .str "dimension"), ("$value", .str "\x7bgap\x7d")])]

theorem parsed_gapTree : gapTree.Parsed := by
  refine ⟨⟨"gap.json"⟩, gapDocument, ?_, rfl⟩
  simp [gapDocument, gapValue, pixels, Json.Distinct, Json.MembersDistinct]

/-- A merged size. -/
def gapToken (path : String) (value : Json) (type : Option TokenType) : FlatToken :=
  ⟨path, [path], value, type, none, none, ⟨⟨"gap.json"⟩, .base⟩⟩

theorem resolveAll_gapTree : resolveAll (flatten [gapTree]) =
    ⟨⟨[(.base, ⟨[("gap", ⟨gapToken "gap" gapValue (some .fluidDimension), gapValue⟩),
      ("row", ⟨gapToken "row" (.str "\x7bgap\x7d") (some .fluidDimension), gapValue⟩),
      ("pad", ⟨gapToken "pad" (.str "\x7bgap\x7d") (some .dimension), gapValue⟩)]⟩)]⟩, []⟩ :=
  resolveAll_of_within 2 rfl

theorem exists_compile_gapTree : ∃ out, compile [gapTree] [] .standard = .ok out := by
  rw [compile_of_fault?_eq_none (by decide), resolveAll_gapTree]
  exact ⟨_, rfl⟩

theorem isFluid_gapValue : IsFluid gapValue :=
  ⟨pixels 16, pixels 32, rfl, rfl, ⟨_, _, rfl, rfl, by simp⟩, ⟨_, _, rfl, rfl, by simp⟩⟩

theorem not_isLength_gapValue : ¬ IsLength gapValue := fun ⟨_, _, value, _⟩ => nomatch value

theorem aliases_gapTree : ∀ a ∈ [("row", none), ("pad", some .dimension)],
    gapToken a.1 (.str "\x7bgap\x7d") a.2 ∈ declared (flatten [gapTree]) .base ∧
      Aliases (flatten [gapTree]) .base (gapToken a.1 (.str "\x7bgap\x7d") a.2)
        (gapToken "gap" gapValue (some .fluidDimension)) := by
  intro a ha
  refine ⟨?_, .single ⟨⟨"gap"⟩, ?_, rfl⟩⟩
  · simp only [List.mem_cons, List.not_mem_nil, or_false] at ha
    rcases ha with rfl | rfl
    · exact .tail _ (.head _)
    · exact .tail _ (.tail _ (.head _))
  · show Reference.parse? "\x7bgap\x7d" = some ⟨"gap"⟩
    decide

theorem denotes_gap : Denotes (flatten [gapTree]) .base (gapToken "gap" gapValue (some .fluidDimension))
    ⟨gapValue, some .fluidDimension⟩ := by
  have gap : (resolveAll (flatten [gapTree])).token? .base "gap" =
      some ⟨gapToken "gap" gapValue (some .fluidDimension), gapValue⟩ := by
    rw [resolveAll_gapTree]
    rfl
  have declared : gapToken "gap" gapValue (some .fluidDimension) ∈ declared (flatten [gapTree]) .base :=
    .head _
  exact (denotes_of_mem_declared (keyed_flatten [gapTree]) declared gap).2

/-- The alias without a type is in the stylesheet. -/
theorem converts_row : (∀ t ∈ [gapTree], t.Parsed) ∧ Accepted .fluidDimension gapValue ∧
    ∃ out, compile [gapTree] [] .standard = .ok out ∧ out.converts .base "row" := by
  have parsed : ∀ t ∈ [gapTree], t.Parsed := by simpa using parsed_gapTree
  have valid := accepted_fluid_iff.2 isFluid_gapValue
  obtain ⟨out, h⟩ := exists_compile_gapTree
  obtain ⟨declared, aliases⟩ := aliases_gapTree ("row", none) (by simp)
  have row : (resolveAll (flatten [gapTree])).token? .base "row" =
      some ⟨gapToken "row" (.str "\x7bgap\x7d") (some .fluidDimension), gapValue⟩ := by
    rw [resolveAll_gapTree]
    rfl
  obtain ⟨-, -, converts⟩ :=
    lintToken_alias_iff (keyed_flatten [gapTree]) declared aliases row denotes_gap valid
  exact ⟨parsed, valid, out, h, (converts _ rfl parsed _ _ _ h rfl).2 (.inl rfl)⟩

/-- **An alias that is refused**: the other alias has a type that fits, and an error is found in the
value in which none is found under the type of the target. It is not in the stylesheet. -/
theorem not_converts_pad : (∀ t ∈ [gapTree], t.Parsed) ∧
    ∃ t ∈ declared (flatten [gapTree]) .base, ∃ u value rt out,
      Aliases (flatten [gapTree]) .base t u ∧
      (resolveAll (flatten [gapTree])).token? .base t.path = some rt ∧
      Denotes (flatten [gapTree]) .base u ⟨value, some .fluidDimension⟩ ∧
      Accepted .fluidDimension value ∧ (∃ d ∈ lintToken Rule.all rt, d.isError = true) ∧
      compile [gapTree] [] .standard = .ok out ∧ ¬ out.converts .base t.path := by
  have parsed : ∀ t ∈ [gapTree], t.Parsed := by simpa using parsed_gapTree
  have valid := accepted_fluid_iff.2 isFluid_gapValue
  obtain ⟨out, h⟩ := exists_compile_gapTree
  obtain ⟨declared, aliases⟩ := aliases_gapTree ("pad", some .dimension) (by simp)
  have pad : (resolveAll (flatten [gapTree])).token? .base "pad" =
      some ⟨gapToken "pad" (.str "\x7bgap\x7d") (some .dimension), gapValue⟩ := by
    rw [resolveAll_gapTree]
    rfl
  have error : ∃ d ∈ lintToken Rule.all
      ⟨gapToken "pad" (.str "\x7bgap\x7d") (some .dimension), gapValue⟩, d.isError = true := by
    by_contra fine
    exact not_isLength_gapValue (accepted_dimension_iff.1 ((accepted_iff_lintToken rfl).2 fine))
  refine ⟨parsed, _, declared, _, _, _, out, aliases, pad, denotes_gap, valid, error, h, fun converts => ?_⟩
  exact not_reports_of_converts h converts
    ((reports_iff h).2 ((isFaulty_iff_lintToken parsed pad).2 error))

end DesignTokens
