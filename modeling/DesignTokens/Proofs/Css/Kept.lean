import DesignTokens.Proofs.Css.Views

/-!
# References that are kept

A token of the base is written with its references if all of them are to tokens that become custom
properties, and with its resolved value if not.

* `baseToken?`, `baseErrors`, `basePaths`: the tokens of the base, the errors about them, and the paths
  of those that become custom properties;
* `writtenValue`: what is written of a token; `Keeps`: the references in it;
* `leads_base_iff`: what the base leads to; **`kept_induction`**: induction along the references that
  are kept.
-/

namespace DesignTokens

open Relation

section Base

variable (trees : List Tree)

/-- The token of the base at a path. -/
def baseToken? (path : String) : Option ResolvedToken :=
  (resolveAll (flatten trees)).token? .base path

/-- The errors about tokens of the base. -/
def baseErrors : List Diagnostic :=
  errorsIn (diagnose (flatten trees) (resolveAll (flatten trees))) .base

/-- The paths of the base that become custom properties. -/
def basePaths : List String :=
  match (resolveAll (flatten trees)).contexts.get? .base with
  | some tokens => declaredPaths (baseErrors trees) tokens
  | none => []

/-- What is written of the value of a token: its references, or the values in their place. -/
def writtenValue (t : ResolvedToken) : Json := (operand (basePaths trees) t).raw

/-- What is written of `t` has a reference to `u`. -/
def Keeps (t u : ResolvedToken) : Prop :=
  ∃ r ∈ (writtenValue trees t).references, baseToken? trees r.path = some u

variable {trees}

/-! ## The base as a context -/

theorem basePaths_eq_pathsOf : basePaths trees = pathsOf trees .base := by
  unfold basePaths pathsOf
  cases (resolveAll (flatten trees)).contexts.get? .base <;> rfl

theorem writtenValue_eq_writtenIn (t : ResolvedToken) :
    writtenValue trees t = writtenIn trees .base t := by
  unfold writtenValue writtenIn
  rw [basePaths_eq_pathsOf]

theorem path_of_baseToken? {path : String} {rt : ResolvedToken}
    (h : baseToken? trees path = some rt) : rt.path = path :=
  path_of_tokenIn? h

theorem mem_basePaths {path : String} : path ∈ basePaths trees ↔
    ∃ u, baseToken? trees path = some u ∧ isDeclared (baseErrors trees) u = true := by
  cases found : (resolveAll (flatten trees)).contexts.get? .base with
  | none => simp [basePaths, baseToken?, Resolution.token?, found]
  | some tokens =>
    unfold basePaths
    rw [found]
    exact mem_declaredPaths_iff found

/-! ## References that are kept -/

theorem used?_base_eq_some_iff {path : String} {y : Context × ResolvedToken} :
    used? trees .base path = some y ↔ baseToken? trees path = some y.2 ∧ y.1 = .base := by
  rw [← Prod.mk.eta (p := y), used?_eq_some_iff]
  exact or_iff_left_of_imp fun ⟨_, here, same⟩ => ⟨here, same⟩

theorem leads_base_iff {t u : ResolvedToken} :
    Leads trees .base (.base, t) (.base, u) ↔ Keeps trees t u := by
  unfold Leads Keeps
  simp only [used?_base_eq_some_iff, and_true, writtenValue_eq_writtenIn]

theorem keeps_of_leads {t : ResolvedToken} {y : Context × ResolvedToken}
    (h : Leads trees .base (.base, t) y) : y.1 = .base ∧ Keeps trees t y.2 := by
  obtain ⟨b, u⟩ := y
  obtain ⟨r, hr, hu⟩ := id h
  obtain ⟨-, rfl⟩ := used?_base_eq_some_iff.1 hu
  exact ⟨rfl, leads_base_iff.1 h⟩

theorem mem_basePaths_of_mem_references {path : String} {rt : ResolvedToken}
    (h : baseToken? trees path = some rt) {r : Reference}
    (hr : r ∈ (writtenValue trees rt).references) :
    r ∈ rt.raw.references ∧ r.path ∈ basePaths trees := by
  rw [writtenValue_eq_writtenIn] at hr
  rw [basePaths_eq_pathsOf]
  exact mem_pathsOf_of_mem_references h hr

/-- **Induction along the references that are kept.** -/
theorem kept_induction {P : ResolvedToken → Prop}
    (step : ∀ rt, baseToken? trees rt.path = some rt → (∀ u, Keeps trees rt u → P u) → P rt)
    {path : String} {rt : ResolvedToken} (h : baseToken? trees path = some rt) : P rt := by
  refine leads_induction (c := .base) (P := fun x => x.1 = .base → P x.2) ?_
    (sees_of_tokenIn? h) (used?_eq_some_iff.2 (.inl ⟨h, rfl⟩)) rfl
  rintro ⟨b, t⟩ used ih rfl
  refine step t (tokenIn?_of_used? used) fun u keeps => ?_
  exact ih (.base, u) (leads_base_iff.2 keeps) rfl

end Base

end DesignTokens
