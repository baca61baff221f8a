import DesignTokens.Proofs.Css.Kept
import DesignTokens.Proofs.Css.Layers

/-!
# Evaluating a stylesheet

In a stylesheet that declares every property once, a token comes to what would be written for its
resolved value if every token that it keeps a reference to does. So whole stylesheets are evaluated
by induction along the references that are kept.

* `WrittenOnce`: the tokens of the base as they are converted, each property being declared once;
* `renders_of_convertToken?`: one token; **`WrittenOnce.carried`**: all tokens that it keeps references
  to, however far;
* `Faithful`: what a token declares comes to what would be written for its resolved value;
  **`WrittenOnce.faithful`**, **`WrittenOnce.all_faithful_iff`**: so it does if it is spelled out, and only
  then.
-/

namespace DesignTokens

open Relation

/-- The tokens of the base as they are converted, each property being declared once. -/
structure WrittenOnce (transforms : Transforms) (trees : List Tree) (list : List CssToken) : Prop where
  mem : ∀ ct, ct ∈ list ↔ ∃ rt, baseToken? trees ct.path = some rt ∧
    convertToken? transforms (baseErrors trees) (basePaths trees) rt = .ok (some ct)
  declared : ∀ path rt, baseToken? trees path = some rt → isDeclared (baseErrors trees) rt = true →
    ∃ ct ∈ list, convertToken? transforms (baseErrors trees) (basePaths trees) rt = .ok (some ct)
  features : ∀ ct ∈ list, ct.value.features = []
  nodup : ((declaredFragments list).map Prod.fst).Nodup

/-- The value of a token has the shape of its type, and what is written of it is spelled out. -/
def WellSpelled (trees : List Tree) (t : ResolvedToken) : Prop :=
  ∀ type ∈ t.type, Shaped type t.value ∧ SpelledOut type (writtenValue trees t)

section Evaluation

variable {trees : List Tree} (parsed : ∀ t ∈ trees, t.Parsed)
  (exact : ∀ t ∈ trees, ∀ path token, t.token? path = some token → token.value.Exact)
  {transforms : Transforms} {decls : List (String × List Fragment)} {path : String}
  {rt : ResolvedToken} {ct : CssToken}

include parsed exact

/-! ## One token -/

/-- **One token**, if the custom properties of those that it keeps references to stand for their
values. -/
theorem renders_of_convertToken? (h : baseToken? trees path = some rt)
    (conv : convertToken? transforms (baseErrors trees) (basePaths trees) rt = .ok (some ct))
    (features : ct.value.features = []) (ne : ct.type ≠ .gradient)
    (carried : ∀ u, Keeps trees rt u → isDeclared (baseErrors trees) u = true →
      ∃ found, u.type = some found ∧ Carried transforms decls u.path found u.value)
    (shaped : Shaped ct.type rt.value) (names : Prop)
    (quotable : names → (writtenValue trees rt).Quotable) :
    ∃ value, (∀ path', convert? transforms path' ct.type ⟨rt.value, rt.value⟩ =
        .ok (some ⟨value, []⟩)) ∧
      BodyRenders decls names (SpelledOut ct.type (writtenValue trees rt)) ct.value.body value := by
  have used : used? trees .base path = some (.base, rt) := used?_base_eq_some_iff.2 ⟨h, rfl⟩
  rw [basePaths_eq_pathsOf] at conv
  rw [writtenValue_eq_writtenIn] at quotable ⊢
  have steady : Context.base ≠ .base → Steady transforms trees .base [] rt := fun ne => absurd rfl ne
  refine renders_of_used? parsed exact used steady ?_ conv features ne (sees_of_tokenIn? h) shaped
    names quotable
  rintro ⟨b, u⟩ leads declared R ⟨t, look, denotes⟩
  obtain ⟨rfl, keeps⟩ := keeps_of_leads leads
  obtain ⟨found, type, carried⟩ := carried u keeps declared
  obtain ⟨r, -, hu⟩ := keeps
  obtain rfl := eq_of_denotes (path_of_baseToken? hu ▸ hu) look denotes
  exact ⟨found, type, carried⟩

/-! ## All tokens -/

variable {list : List CssToken}

omit parsed exact in
theorem WrittenOnce.declaredOnce (once : WrittenOnce transforms trees list) :
    DeclaredOnce transforms trees .base list := by
  obtain ⟨mem, declared, features, nodup⟩ := once
  rw [basePaths_eq_pathsOf] at mem declared
  exact ⟨⟨mem, declared⟩, features, nodup⟩

omit parsed exact in
theorem follows_of_wellSpelled (h : baseToken? trees path = some rt) (spelled : WellSpelled trees rt)
    (taken : List String) : Follows transforms trees .base taken (.base, rt) := by
  refine ⟨fun R ⟨t, look, denotes⟩ type ht => ?_, fun ne => absurd rfl ne⟩
  obtain rfl := eq_of_denotes (path_of_baseToken? h ▸ h) look denotes
  rw [← writtenValue_eq_writtenIn]
  exact spelled type ht

omit parsed exact in
theorem keeps_of_reaches (h : baseToken? trees path = some rt) {y : Context × ResolvedToken}
    (reaches : ReflTransGen (Leads trees .base) (.base, rt) y) :
    ∃ path' u, y = (.base, u) ∧ baseToken? trees path' = some u ∧ ReflTransGen (Keeps trees) rt u := by
  induction reaches with
  | refl => exact ⟨path, rt, rfl, h, .refl⟩
  | tail _ leads ih =>
    obtain ⟨_, t, rfl, -, reaches⟩ := ih
    obtain ⟨base, keeps⟩ := keeps_of_leads leads
    obtain ⟨r, -, hu⟩ := id keeps
    exact ⟨r.path, _, Prod.ext base rfl, hu, reaches.tail keeps⟩

/-- **The custom properties of a token stand for its value**, if it and all tokens that it keeps
references to, however far, are spelled out. -/
theorem WrittenOnce.carried (once : WrittenOnce transforms trees list)
    (h : baseToken? trees path = some rt) (declared : isDeclared (baseErrors trees) rt = true)
    (spelled : ∀ u, ReflTransGen (Keeps trees) rt u → WellSpelled trees u) :
    ∃ type, rt.type = some type ∧
      Carried transforms (declaredFragments list) rt.path type rt.value := by
  rw [path_of_baseToken? h]
  have used : used? trees .base path = some (.base, rt) := used?_base_eq_some_iff.2 ⟨h, rfl⟩
  have supplies : Supplies transforms trees .base [] (declaredFragments list) :=
    once.declaredOnce.supplies
  refine carried_of_follows parsed exact supplies used declared (fun y reaches => ?_)
    (sees_of_tokenIn? h)
  obtain ⟨path', u, rfl, hu, reaches⟩ := keeps_of_reaches h reaches
  exact follows_of_wellSpelled hu (spelled u reaches) []

/-- What a token declares comes to what would be written if its value stood in place of its
references. -/
def Faithful (transforms : Transforms) (trees : List Tree) (list : List CssToken) (rt : ResolvedToken)
    (ct : CssToken) : Prop :=
  ∃ ct', convertToken? transforms (baseErrors trees) (basePaths trees) ⟨rt.settled, rt.value⟩ =
      .ok (some ct') ∧ ct'.value.features = [] ∧
    ∃ k, expandAll (declaredFragments list) k (ct.value.body.declarations ct.path) =
      ct'.value.body.declarations ct'.path

omit parsed exact in
theorem faithful_iff_faithfulIn : Faithful transforms trees list rt ct ↔
    FaithfulIn transforms trees .base (declaredFragments list) rt ct := by
  unfold Faithful
  rw [basePaths_eq_pathsOf]
  exact Iff.rfl

omit parsed exact in
theorem faithful_iff_of_convert?
    (conv : convertToken? transforms (baseErrors trees) (basePaths trees) rt = .ok (some ct))
    {value : CssBody}
    (same : ∀ path', convert? transforms path' ct.type ⟨rt.value, rt.value⟩ = .ok (some ⟨value, []⟩)) :
    Faithful transforms trees list rt ct ↔ ∃ k, expandAll (declaredFragments list) k
      (ct.value.body.declarations ct.path) = value.declarations ct.path := by
  rw [basePaths_eq_pathsOf] at conv
  rw [faithful_iff_faithfulIn]
  exact faithfulIn_iff_of_convert? conv same

omit parsed exact in
theorem WrittenOnce.faithful_of_references_eq_nil (once : WrittenOnce transforms trees list)
    (hct : ct ∈ list) (h : baseToken? trees ct.path = some rt)
    (none : (writtenValue trees rt).references = []) : Faithful transforms trees list rt ct := by
  obtain ⟨rt', h', conv⟩ := (once.mem ct).1 hct
  obtain rfl : rt' = rt := Option.some.inj (h'.symm.trans h)
  rw [basePaths_eq_pathsOf] at conv
  rw [writtenValue_eq_writtenIn] at none
  exact faithful_iff_faithfulIn.2
    (faithfulIn_of_references_eq_nil conv h (once.features ct hct) none)

/-- **A token that is spelled out is faithful**, if all that it keeps references to are spelled out. -/
theorem WrittenOnce.faithful (once : WrittenOnce transforms trees list) (hct : ct ∈ list)
    (ne : ct.type ≠ .gradient) : ∃ rt, baseToken? trees ct.path = some rt ∧
      ((∀ u, TransGen (Keeps trees) rt u → WellSpelled trees u) → Shaped ct.type rt.value →
        (SpelledOut ct.type (writtenValue trees rt) → Faithful transforms trees list rt ct) ∧
        ((writtenValue trees rt).Quotable → Faithful transforms trees list rt ct →
          SpelledOut ct.type (writtenValue trees rt))) := by
  obtain ⟨rt, h, conv⟩ := (once.mem ct).1 hct
  refine ⟨rt, h, fun spelled shaped => ?_⟩
  have carried : ∀ u, Keeps trees rt u → isDeclared (baseErrors trees) u = true →
      ∃ found, u.type = some found ∧
        Carried transforms (declaredFragments list) u.path found u.value := by
    intro u keeps declared
    obtain ⟨r, -, hu⟩ := id keeps
    exact once.carried parsed exact hu declared fun w reaches => spelled w (.head' keeps reaches)
  obtain ⟨value, same, renders⟩ := renders_of_convertToken? parsed exact h conv
    (once.features ct hct) ne carried shaped (writtenValue trees rt).Quotable id
  rw [faithful_iff_of_convert? conv same]
  refine ⟨fun out => (renders.evaluates out).declarations ct.path, fun quotable ⟨k, hk⟩ => ?_⟩
  by_contra unspelled
  exact renders.differs quotable unspelled ct.path k hk

/-! ## All tokens together -/

omit parsed exact in
theorem declared_of_keeps (h : baseToken? trees path = some rt) {u : ResolvedToken}
    (reaches : TransGen (Keeps trees) rt u) :
    ∃ path', baseToken? trees path' = some u ∧ isDeclared (baseErrors trees) u = true := by
  have step : ∀ {t w path}, baseToken? trees path = some t → Keeps trees t w →
      ∃ path', baseToken? trees path' = some w ∧ isDeclared (baseErrors trees) w = true := by
    rintro t w path ht ⟨r, hr, hw⟩
    obtain ⟨w', hw', declared⟩ :=
      mem_basePaths.1 (mem_basePaths_of_mem_references ht hr).2
    obtain rfl : w' = w := Option.some.inj (hw'.symm.trans hw)
    exact ⟨r.path, hw, declared⟩
  induction reaches with
  | single keeps => exact step h keeps
  | tail _ keeps ih =>
    obtain ⟨path', hw, -⟩ := ih
    exact step hw keeps

omit parsed exact in
theorem WrittenOnce.wellSpelled (once : WrittenOnce transforms trees list)
    (h : baseToken? trees path = some rt) {u : ResolvedToken} (reaches : TransGen (Keeps trees) rt u)
    (spelled : ∀ ct ∈ list, baseToken? trees ct.path = some u →
      Shaped ct.type u.value ∧ SpelledOut ct.type (writtenValue trees u)) : WellSpelled trees u := by
  obtain ⟨path', hu, declared⟩ := declared_of_keeps h reaches
  obtain ⟨ct, hct, conv⟩ := once.declared path' u hu declared
  obtain ⟨-, type, -, own, -⟩ := convertToken?_eq_some_iff.1 conv
  intro asked hasked
  obtain rfl : ct.type = asked := Option.some.inj (type.symm.trans hasked)
  refine spelled ct hct ?_
  rwa [own, path_of_baseToken? hu]

/-- **All tokens of a stylesheet are faithful exactly if all are spelled out.** -/
theorem WrittenOnce.all_faithful_iff (once : WrittenOnce transforms trees list)
    (shaped : ∀ ct ∈ list, ∀ rt, baseToken? trees ct.path = some rt →
      Shaped ct.type rt.value ∧ (writtenValue trees rt).Quotable) :
    (∀ ct ∈ list, ct.type ≠ .gradient → ∀ rt, baseToken? trees ct.path = some rt →
        Faithful transforms trees list rt ct) ↔
      ∀ ct ∈ list, ∀ rt, baseToken? trees ct.path = some rt →
        SpelledOut ct.type (writtenValue trees rt) := by
  constructor
  · intro faithful ct hct rt h
    -- by induction along references, what a token reaches is spelled out
    have reached : ∀ u, ReflTransGen (Keeps trees) rt u → ∀ ct ∈ list,
        baseToken? trees ct.path = some u → SpelledOut ct.type (writtenValue trees u) := by
      refine kept_induction (P := fun rt => ∀ u, ReflTransGen (Keeps trees) rt u →
        ∀ ct ∈ list, baseToken? trees ct.path = some u → SpelledOut ct.type (writtenValue trees u))
        ?_ h
      intro rt h ih u reaches ct hct hu
      rcases reaches.cases_head with rfl | ⟨w, keeps, reaches⟩
      · by_cases gradient : ct.type = .gradient
        · rw [gradient]
          exact spelledOut_of_nil rfl rfl
        obtain ⟨rt', hrt', iff⟩ := once.faithful parsed exact hct gradient
        obtain rfl : rt' = rt := Option.some.inj (hrt'.symm.trans hu)
        have spelled : ∀ u, TransGen (Keeps trees) rt' u → WellSpelled trees u := by
          intro u reaches
          obtain ⟨w, keeps, after⟩ := TransGen.head'_iff.1 reaches
          exact once.wellSpelled hu reaches fun ct hct hu =>
            ⟨(shaped ct hct u hu).1, ih w keeps u after ct hct hu⟩
        exact (iff spelled (shaped ct hct rt' hu).1).2 (shaped ct hct rt' hu).2
          (faithful ct hct gradient rt' hu)
      · exact ih w keeps u reaches ct hct hu
    exact reached rt .refl ct hct h
  · intro spelled ct hct ne rt h
    obtain ⟨rt', hrt', iff⟩ := once.faithful parsed exact hct ne
    obtain rfl : rt' = rt := Option.some.inj (hrt'.symm.trans h)
    refine (iff (fun u reaches => once.wellSpelled h reaches fun ct hct hu => ?_)
      (shaped ct hct rt' h).1).1 (spelled ct hct rt' h)
    exact ⟨(shaped ct hct u hu).1, spelled ct hct u hu⟩

end Evaluation

end DesignTokens
