import DesignTokens.Proofs.Css.Written
import DesignTokens.Proofs.Resolution.Settled

/-!
# Which tokens are converted

Before a context is converted, the paths that will be declared are predicted from the types of its
tokens, and references to them are kept. The conversion itself keeps a reference that is a whole value
before it looks at the type. So what is converted is what was predicted and, besides, strays: aliases
of an unknown type that refer to a token of the base. Seen from the context, what that token refers to
is of an unknown type; in the base it is not.

* `isSome_convertToken?_iff`: when a token is converted;
* `Strays`: such aliases; `not_isDeclared_of_alias`, `not_strays_base`: what they refer to is not
  declared in their own context, and none is in the base;
* **`convertAll_predicted`**: the tokens that are converted are the predicted ones and the strays.
-/

namespace DesignTokens

/-! ## One token -/

theorem isSome_convert?_iff {transforms : Transforms} {path : String} {type : TokenType} {o : Operand}
    {v : Option CssValue} (h : convert? transforms path type o = .ok v) :
    v.isSome = true ↔ type.isKnown = true ∨ (Reference.ofJson? o.raw).isSome = true := by
  by_cases known : type.isKnown = true
  · exact iff_of_true (isSome_convert? h known) (.inl known)
  · cases type with
    | unknown name =>
      rw [convert?_unknown] at h
      cases h
      simp [TokenType.isKnown]
    | _ => exact absurd rfl known

/-- **When a token is converted.** -/
theorem isSome_convertToken?_iff {transforms : Transforms} {errors : List Diagnostic}
    {paths : List String} {t : ResolvedToken} {r : Option CssToken}
    (h : convertToken? transforms errors paths t = .ok r) :
    r.isSome = true ↔ isFaulty errors t.path = false ∧
      ∃ type, t.type = some type ∧
        (type.isKnown = true ∨ (Reference.ofJson? (operand paths t).raw).isSome = true) := by
  unfold convertToken? at h
  cases faulty : isFaulty errors t.path with
  | true =>
    rw [faulty] at h
    cases h
    simp
  | false =>
    rw [faulty] at h
    cases ht : t.type with
    | none =>
      rw [ht] at h
      cases h
      simp
    | some type =>
      rw [ht] at h
      obtain ⟨v, hv, h⟩ := bind_eq_ok.1 h
      cases h
      rw [Option.isSome_map, isSome_convert?_iff hv]
      simp

theorem isDeclared_iff {errors : List Diagnostic} {t : ResolvedToken} :
    isDeclared errors t = true ↔
      isFaulty errors t.path = false ∧ ∃ type, t.type = some type ∧ type.isKnown = true := by
  unfold isDeclared
  cases t.type <;> simp

theorem ofJson?_operand {paths : List String} {t : ResolvedToken} (plain : t.value.references = [])
    {r : Reference} :
    Reference.ofJson? (operand paths t).raw = some r ↔
      Reference.ofJson? t.raw = some r ∧ r.path ∈ paths := by
  have resolved : Reference.ofJson? t.value ≠ some r := fun whole => by
    rw [Json.references_of_reference whole] at plain
    cases plain
  unfold operand
  split
  · rename_i kept
    refine (and_iff_left_of_imp fun whole => ?_).symm
    rw [Json.references_of_reference whole] at kept
    simpa using kept
  · rename_i replaced
    refine iff_of_false resolved fun ⟨whole, mem⟩ => replaced ?_
    rw [Json.references_of_reference whole]
    simpa using mem

/-! ## Strays -/

section Trees

variable (trees : List Tree) (diagnostics : List Diagnostic) (c : Context)

/-- An alias of an unknown type, without an error about it, that refers to a declared token of the base
where its own context has no token with a value. -/
structure Strays (t : ResolvedToken) : Prop where
  fine : isFaulty (errorsIn diagnostics c) t.path = false
  unknown : ∃ name, t.type = some (.unknown name)
  away : ∃ r, Reference.ofJson? t.raw = some r ∧ tokenIn? trees c r.path = none ∧
    r.path ∈ declaredInBase diagnostics (resolveAll (flatten trees))

variable {trees diagnostics c} {path : String} {t u : ResolvedToken}

theorem fits_of_alias (ht : tokenIn? trees c path = some t) {r : Reference}
    (whole : Reference.ofJson? t.raw = some r) (hu : tokenIn? trees c r.path = some u)
    {own found : TokenType} (own_type : t.type = some own) (found_type : u.type = some found) :
    found.fits own = true := by
  have keyed := keyed_flatten trees
  obtain ⟨t', -, -, token, denotes⟩ := denotes_of_token? keyed ht
  rw [raw_of_token token] at whole
  have used : (⟨r, none⟩ : Use) ∈ t'.uses := by simp [FlatToken.uses_of_alias whole]
  generalize hR : (⟨t.value, t.type⟩ : Resolved) = R at denotes
  cases denotes with
  | @intro _ target found' seen values compatible =>
    have same : found' r = ⟨u.value, u.type⟩ := eq_of_denotes hu (seen _ used) (values _ used)
    have settled : t.type = (t'.type <|> u.type) := by
      rw [show t.type = settledType t' found' from congrArg Resolved.type hR, settledType, whole]
      show (t'.type <|> (found' r).type) = _
      rw [same]
    have asked := compatible _ used
    rw [same] at asked
    cases htype : t'.type with
    | none =>
      rw [htype, found_type, own_type] at settled
      obtain rfl := Option.some.inj settled
      simp [TokenType.fits]
    | some type =>
      rw [htype, own_type] at settled
      obtain rfl := Option.some.inj settled
      exact asked own htype found found_type

theorem not_isDeclared_of_alias (ht : tokenIn? trees c path = some t) {name : String}
    (unknown : t.type = some (.unknown name)) {r : Reference}
    (whole : Reference.ofJson? t.raw = some r) (hu : tokenIn? trees c r.path = some u)
    (errors : List Diagnostic) : isDeclared errors u = false := by
  refine Bool.eq_false_iff.2 fun declared => ?_
  obtain ⟨-, type, htype, known⟩ := isDeclared_iff.1 declared
  have fits := fits_of_alias ht whole hu unknown htype
  obtain rfl : type = .unknown name := by simpa [TokenType.fits] using fits
  cases known

theorem Strays.not_isDeclared (stray : Strays trees diagnostics c t) {errors : List Diagnostic} :
    ¬ isDeclared errors t = true := by
  intro declared
  obtain ⟨-, type, htype, known⟩ := isDeclared_iff.1 declared
  obtain ⟨name, unknown⟩ := stray.unknown
  obtain rfl := Option.some.inj (htype.symm.trans unknown)
  cases known

theorem not_strays_base : ¬ Strays trees diagnostics .base t := by
  rintro ⟨-, -, r, -, absent, declared⟩
  unfold declaredInBase at declared
  split at declared
  · rename_i tokens found
    obtain ⟨u, hu, -⟩ := (mem_declaredPaths_iff found).1 declared
    cases absent.symm.trans hu
  · cases declared

variable {tokens : Table String ResolvedToken}
  (found : (resolveAll (flatten trees)).contexts.get? c = some tokens)

include found

theorem mem_available_iff {base : List String} {errors : List Diagnostic} :
    path ∈ available base errors c tokens ↔ path ∈ declaredPaths errors tokens ∨
      c ≠ .base ∧ tokenIn? trees c path = none ∧ path ∈ base := by
  have absent : (!tokens.contains path) = true ↔ tokenIn? trees c path = none := by
    unfold tokenIn? Resolution.token?
    rw [found, Option.bind_some, Table.contains]
    simp
  unfold available
  cases c with
  | base => simp [Context.isBase]
  | variant modifier name =>
    rw [if_neg (by simp [Context.isBase]), List.mem_append, List.mem_filter, absent]
    simp [and_comm]

/-- **One token of a context** is converted if it was predicted, or if it is a stray. -/
theorem isSome_convertToken?_iff_predicted {transforms : Transforms} {r : Option CssToken}
    (ht : tokenIn? trees c path = some t)
    (h : convertToken? transforms (errorsIn diagnostics c)
      (available (declaredInBase diagnostics (resolveAll (flatten trees))) (errorsIn diagnostics c) c
        tokens) t = .ok r) :
    r.isSome = true ↔ isDeclared (errorsIn diagnostics c) t = true ∨ Strays trees diagnostics c t := by
  have values : tokens ∈ (resolveAll (flatten trees)).contexts.values :=
    Table.mem_values_of_get?_eq_some found
  have plain : t.value.references = [] :=
    references_eq_nil_of_mem_values (keyed_flatten trees) values
      ((mem_values_iff_tokenIn? found).2 (path_of_tokenIn? ht ▸ ht))
  rw [isSome_convertToken?_iff h, isDeclared_iff]
  constructor
  · rintro ⟨fine, type, htype, known | kept⟩
    · exact .inl ⟨fine, type, htype, known⟩
    · by_cases known : type.isKnown = true
      · exact .inl ⟨fine, type, htype, known⟩
      obtain ⟨name, rfl⟩ : ∃ name, type = .unknown name := by
        cases type with
        | unknown name => exact ⟨name, rfl⟩
        | _ => exact absurd rfl known
      obtain ⟨r, hr⟩ := Option.isSome_iff_exists.1 kept
      obtain ⟨whole, usable⟩ := (ofJson?_operand plain).1 hr
      rcases (mem_available_iff found).1 usable with own | ⟨-, absent, base⟩
      · obtain ⟨u, hu, declared⟩ := (mem_declaredPaths_iff found).1 own
        rw [not_isDeclared_of_alias ht htype whole hu] at declared
        cases declared
      · exact .inr ⟨fine, ⟨name, htype⟩, r, whole, absent, base⟩
  · rintro (⟨fine, type, htype, known⟩ | stray)
    · exact ⟨fine, type, htype, .inl known⟩
    · obtain ⟨fine, ⟨name, htype⟩, r, whole, absent, base⟩ := id stray
      have overlay : c ≠ .base := by
        rintro rfl
        exact not_strays_base stray
      refine ⟨fine, _, htype, .inr (Option.isSome_iff_exists.2 ⟨r, ?_⟩)⟩
      exact (ofJson?_operand plain).2 ⟨whole, (mem_available_iff found).2 (.inr ⟨overlay, absent, base⟩)⟩

/-- **The paths that are converted** are those of the predicted tokens and of the strays. -/
theorem mem_paths_iff_predicted {transforms : Transforms} {list : List CssToken}
    (conv : convertContext transforms (errorsIn diagnostics c)
      (available (declaredInBase diagnostics (resolveAll (flatten trees))) (errorsIn diagnostics c) c
        tokens) tokens = .ok list) :
    path ∈ list.map CssToken.path ↔ ∃ t, tokenIn? trees c path = some t ∧
      (isDeclared (errorsIn diagnostics c) t = true ∨ Strays trees diagnostics c t) := by
  obtain ⟨all, mem⟩ := filterMapM_eq_ok conv
  constructor
  · intro hp
    obtain ⟨ct, hct, rfl⟩ := List.mem_map.1 hp
    obtain ⟨t, ht, converts⟩ := (mem ct).1 hct
    obtain ⟨own, -⟩ := convertToken?_eq_some converts
    have ht := (mem_values_iff_tokenIn? found).1 ht
    exact ⟨t, own ▸ ht, (isSome_convertToken?_iff_predicted found ht converts).1 rfl⟩
  · rintro ⟨t, ht, predicted⟩
    have member : t ∈ tokens.values := (mem_values_iff_tokenIn? found).2 (path_of_tokenIn? ht ▸ ht)
    obtain ⟨r, hr⟩ := all t member
    obtain ⟨ct, rfl⟩ := Option.isSome_iff_exists.1
      ((isSome_convertToken?_iff_predicted found ht hr).2 predicted)
    refine List.mem_map.2 ⟨ct, (mem ct).2 ⟨t, member, hr⟩, ?_⟩
    exact (convertToken?_eq_some hr).1.trans (path_of_tokenIn? ht)

end Trees

/-! ## All tokens -/

/-- **What is converted.** For any trees and any findings, if the conversion succeeds, the tokens that
are converted in a context are those that were predicted to be, and the strays. So the prediction is
right exactly where there is no stray, as in the base. A token without a type is converted nowhere. -/
theorem convertAll_predicted {trees : List Tree} {diagnostics : List Diagnostic}
    {transforms : Transforms} {converted : Contexts (List CssToken)}
    (h : convertAll transforms diagnostics (resolveAll (flatten trees)) = .ok converted) {c : Context}
    {tokens : Table String ResolvedToken}
    (found : (resolveAll (flatten trees)).contexts.get? c = some tokens) :
    ∃ list, converted.get? c = some list ∧
      (∀ path, path ∈ list.map CssToken.path ↔
        path ∈ declaredPaths (errorsIn diagnostics c) tokens ∨
          ∃ t, tokenIn? trees c path = some t ∧ Strays trees diagnostics c t) ∧
      ((∀ path, path ∈ list.map CssToken.path ↔
          path ∈ declaredPaths (errorsIn diagnostics c) tokens) ↔
        ∀ t ∈ tokens.values, ¬ Strays trees diagnostics c t) ∧
      (c = .base → ∀ t ∈ tokens.values, ¬ Strays trees diagnostics c t) ∧
      ∀ path t, tokenIn? trees c path = some t → t.type = none → path ∉ list.map CssToken.path := by
  rcases convertAll_eq_ok h c with ⟨none, -⟩ | ⟨tokens', list, found', hl, conv⟩
  · cases none.symm.trans found
  obtain rfl : tokens = tokens' := Option.some.inj (found.symm.trans found')
  have paths : ∀ path, path ∈ list.map CssToken.path ↔ ∃ t, tokenIn? trees c path = some t ∧
      (isDeclared (errorsIn diagnostics c) t = true ∨ Strays trees diagnostics c t) :=
    fun path => mem_paths_iff_predicted found conv
  refine ⟨list, hl, fun path => ?_, ⟨fun right t ht stray => ?_, fun none path => ?_⟩, ?_, ?_⟩
  · rw [paths, mem_declaredPaths_iff found, ← exists_or]
    exact exists_congr fun t => and_or_left
  · have here := (mem_values_iff_tokenIn? found).1 ht
    obtain ⟨u, hu, declared⟩ := (mem_declaredPaths_iff found).1
      ((right t.path).1 ((paths t.path).2 ⟨t, here, .inr stray⟩))
    obtain rfl : t = u := Option.some.inj (here.symm.trans hu)
    exact stray.not_isDeclared declared
  · rw [paths, mem_declaredPaths_iff found]
    refine exists_congr fun t => and_congr_right fun ht => or_iff_left (none t ?_)
    exact (mem_values_iff_tokenIn? found).2 (path_of_tokenIn? ht ▸ ht)
  · rintro rfl t -
    exact not_strays_base
  · intro path t ht untyped hp
    obtain ⟨u, hu, typed⟩ := (paths path).1 hp
    obtain rfl : t = u := Option.some.inj (ht.symm.trans hu)
    rcases typed with declared | stray
    · obtain ⟨-, type, htype, -⟩ := isDeclared_iff.1 declared
      cases untyped.symm.trans htype
    · obtain ⟨name, unknown⟩ := stray.unknown
      cases untyped.symm.trans unknown

/-! ## A badge at night -/

/-- A color with an alias in the base; at night, a file in place of the color, and an alias of the
alias. -/
def badgeTrees : List Tree :=
  [⟨.base, ⟨.empty, [
      ("mark", .token ⟨.str "#000", some .color, none, none, none⟩),
      ("badge", .token ⟨.str "\x7bmark\x7d", none, none, none, none⟩)]⟩, ⟨"base.json"⟩⟩,
    ⟨nightContext, ⟨.empty, [
      ("mark", .token ⟨.str "moon.svg", some (.unknown "file"), none, none, none⟩),
      ("panel", .token ⟨.str "\x7bbadge\x7d", none, none, none, none⟩)]⟩, ⟨"night.json"⟩⟩]

/-- The resolved token of a name, with its type, its text and its value. -/
def badgeToken (c : Context) (file path : String) (type : TokenType) (text value : String) :
    String × ResolvedToken :=
  (path, ⟨nightToken path text (some type) ⟨⟨file⟩, c⟩, .str value⟩)

/-- The resolved tokens of the night. -/
def badgeNight : Table String ResolvedToken :=
  ⟨[badgeToken nightContext "night.json" "mark" (.unknown "file") "moon.svg" "moon.svg",
    badgeToken nightContext "night.json" "panel" (.unknown "file") "\x7bbadge\x7d" "moon.svg"]⟩

theorem resolveAll_badgeTrees : resolveAll (flatten badgeTrees) =
    ⟨⟨[(.base, ⟨[badgeToken .base "base.json" "mark" .color "#000" "#000",
        badgeToken .base "base.json" "badge" .color "\x7bmark\x7d" "#000"]⟩),
      (nightContext, badgeNight)]⟩, []⟩ :=
  resolveAll_of_within 3 rfl

/-- A converted token of one value. -/
def badgeCss (c : Context) (file path : String) (type : TokenType) (text : String) : CssToken :=
  ⟨path, type, ⟨⟨file⟩, c⟩, .single text⟩

theorem convertAll_badgeTrees : convertAll .standard [] (resolveAll (flatten badgeTrees)) =
    .ok ⟨[(.base, [badgeCss .base "base.json" "mark" .color "#000",
        badgeCss .base "base.json" "badge" .color "\x7bmark\x7d"]),
      (nightContext, [badgeCss nightContext "night.json" "panel" (.unknown "file") "\x7bbadge\x7d"])]⟩ := by
  rw [resolveAll_badgeTrees]
  rfl

/-- The color and its alias in the base are converted as predicted. -/
theorem convertAll_predicted_badgeTrees : ∃ converted tokens list,
    (convertAll .standard [] (resolveAll (flatten badgeTrees)) = .ok converted ∧
      (resolveAll (flatten badgeTrees)).contexts.get? .base = some tokens) ∧
    converted.get? .base = some list ∧
    ∀ path, path ∈ list.map CssToken.path ↔ path ∈ declaredPaths [] tokens := by
  obtain ⟨tokens, found⟩ :
      ∃ tokens, (resolveAll (flatten badgeTrees)).contexts.get? .base = some tokens := by
    rw [resolveAll_badgeTrees]
    exact ⟨_, rfl⟩
  obtain ⟨list, hl, -, right, base, -⟩ := convertAll_predicted convertAll_badgeTrees found
  exact ⟨_, tokens, list, ⟨convertAll_badgeTrees, found⟩, hl, right.2 (base rfl)⟩

/-- The alias at night is converted though nothing was predicted there and its type is unknown. -/
theorem stray_badgeTrees : ∃ converted tokens list ct,
    convertAll .standard [] (resolveAll (flatten badgeTrees)) = .ok converted ∧
    (resolveAll (flatten badgeTrees)).contexts.get? nightContext = some tokens ∧
    converted.get? nightContext = some list ∧
    declaredPaths (errorsIn [] nightContext) tokens = [] ∧
    ct ∈ list ∧ ct.path = "panel" ∧ ct.type = .unknown "file" :=
  ⟨_, badgeNight, _, _, convertAll_badgeTrees, by rw [resolveAll_badgeTrees]; rfl, rfl, rfl,
    List.mem_cons_self, rfl, rfl⟩

end DesignTokens
