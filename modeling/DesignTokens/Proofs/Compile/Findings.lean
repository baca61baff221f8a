import DesignTokens.Compile
import DesignTokens.Proofs.Flat.Nesting
import DesignTokens.Proofs.Resolution.Values
import DesignTokens.Proofs.Tree.Parsed

/-!
# What findings are about

Findings carry a path and a context and nothing else that ties them to a token. In trees of documents
that is enough: an error that covers a kept token says that this token has no value, or was found in
its own value.

* `treesOf`: the trees of a context; `mergeable_of_mem_declared`, `exists_declared`: what a context
  declares are its kept tokens;
* `mem_diagnose`: the three kinds of findings;
* **`about_of_covers`**: what an error that covers a kept token is about;
* **`isFaulty_iff_lintToken`**: a token with a value is at fault exactly if an error was found in it.
-/

namespace DesignTokens

/-- The trees of one context. -/
def treesOf (trees : List Tree) (c : Context) : List Tree := trees.filter (·.context = c)

/-! ## Declared tokens are kept ones -/

section Declared

variable {trees : List Tree} (parsed : ∀ t ∈ trees, t.Parsed) {c : Context}

include parsed in
theorem wellNamed_treesOf : ∀ t ∈ treesOf trees c, t.WellNamed := fun t ht =>
  (parsed t (List.mem_filter.1 ht).1).wellNamed

theorem mem_contextsOf {t : Tree} (h : t ∈ treesOf trees c) : c ∈ contextsOf trees := by
  obtain ⟨ht, hc⟩ := List.mem_filter.1 h
  unfold contextsOf
  rw [List.mem_eraseDups, ← of_decide_eq_true hc]
  exact List.mem_cons_of_mem _ (List.mem_map.2 ⟨t, ht, rfl⟩)

theorem get?_flatten (h : c ∈ contextsOf trees) :
    (flatten trees).get? c = some (Flat.ofTrees (treesOf trees c)) :=
  get?_flatten_eq_some_iff.2 ⟨h, rfl⟩

include parsed in
theorem mergeable_of_mem_declared {t : FlatToken} (h : t ∈ declared (flatten trees) c) :
    Mergeable (treesOf trees c) t.path ∧ t.origin.context = c := by
  have kept := (keyed_flatten trees).get?_of_mem_declared h
  obtain ⟨f, hf, ht⟩ := Option.bind_eq_some_iff.1 kept
  obtain ⟨-, rfl⟩ := get?_flatten_eq_some_iff.1 hf
  obtain ⟨mergeable, merged⟩ :=
    (get?_ofTrees_eq_some_iff (wellNamed_treesOf parsed) t.path).1 ht
  refine ⟨mergeable, ?_⟩
  obtain ⟨last, hlast, same⟩ := Option.map_eq_some_iff.1 merged
  obtain ⟨tree, htree, htoken⟩ := List.mem_filterMap.1 (List.mem_of_getLast? hlast)
  have context : last.origin.context = tree.context := by
    unfold Tree.token? at htoken
    split at htoken
    · cases htoken
      rfl
    · cases htoken
  have origin : t.origin = last.origin := by rw [← same]
  rw [origin, context]
  exact of_decide_eq_true (List.mem_filter.1 htree).2

include parsed in
theorem exists_declared {path : String} (h : Mergeable (treesOf trees c) path) :
    ∃ t ∈ declared (flatten trees) c, t.path = path := by
  obtain ⟨tree, htree, -⟩ := exists_token?_of_tokensAt_ne_nil h.1
  have kept := (contains_ofTrees_iff (wellNamed_treesOf parsed) path).2 h
  obtain ⟨t, ht⟩ := Option.isSome_iff_exists.1 kept
  have found : ((flatten trees).get? c).bind (·.tokens.get? path) = some t := by
    rw [get?_flatten (mem_contextsOf htree)]
    exact ht
  exact ⟨t, mem_declared found, path_of_get?_ofTrees _ ht⟩

end Declared

/-! ## Findings in values -/

theorem inside_of_mem_lintToken {rules : List Rule} {rt : ResolvedToken} {d : Diagnostic}
    (h : d ∈ lintToken rules rt) : Inside rt.path d.path ∧ d.origin = rt.token.origin := by
  unfold lintToken at h
  split at h
  · cases h
  · obtain ⟨⟨rule, issue⟩, -, rfl⟩ := List.mem_map.1 h
    show Inside rt.path (issue.diagnostic rule.name rt).path ∧
      (issue.diagnostic rule.name rt).origin = rt.token.origin
    unfold Issue.diagnostic
    cases issue.property with
    | none => exact ⟨Inside.refl _, rfl⟩
    | some property => exact ⟨inside_append _ _, rfl⟩

section Findings

variable {trees : List Tree}

/-- **The three kinds of findings.** -/
theorem mem_diagnose {d : Diagnostic} :
    d ∈ diagnose (flatten trees) (resolveAll (flatten trees)) ↔
      (∃ c ∈ contextsOf trees, ∃ e ∈ (Flat.ofTrees (treesOf trees c)).errors,
        d = mergeDiagnostic c e) ∨
      (∃ e ∈ (resolveAll (flatten trees)).errors, d = resolutionDiagnostic e) ∨
      ∃ c rt, (resolveAll (flatten trees)).token? c rt.path = some rt ∧ d ∈ lintToken Rule.all rt := by
  have keyed := keyed_flatten trees
  unfold diagnose
  rw [List.mem_append, List.mem_append, or_assoc]
  refine or_congr ?_ (or_congr ?_ ?_)
  · unfold mergeDiagnostics flatten treesOf
    simp [eq_comm]
  · rw [List.mem_map]
    simp only [eq_comm]
  · unfold lint
    rw [List.mem_flatMap]
    constructor
    · rintro ⟨tokens, ht, h⟩
      obtain ⟨rt, hrt, hd⟩ := List.mem_flatMap.1 h
      obtain ⟨⟨c, tokens⟩, he, rfl⟩ := List.mem_map.1 ht
      have found : (resolveAll (flatten trees)).contexts.get? c = some tokens :=
        (Table.get?_eq_some_iff (keys_resolveAll keyed ▸ keyed.contexts)).2 he
      exact ⟨c, rt, token?_of_mem_values keyed found hrt, hd⟩
    · rintro ⟨c, rt, h, hd⟩
      obtain ⟨tokens, ht, hrt⟩ := Option.bind_eq_some_iff.1 h
      exact ⟨tokens, Table.mem_values_of_get?_eq_some ht,
        List.mem_flatMap.2 ⟨rt, Table.mem_values_of_get?_eq_some hrt, hd⟩⟩

@[simp] theorem path_mergeDiagnostic (c : Context) (e : MergeError) :
    (mergeDiagnostic c e).path = e.path := by
  cases e <;> rfl

@[simp] theorem context_mergeDiagnostic (c : Context) (e : MergeError) :
    (mergeDiagnostic c e).origin.context = c := by
  cases e <;> rfl

@[simp] theorem isError_mergeDiagnostic (c : Context) (e : MergeError) :
    (mergeDiagnostic c e).isError = true := by
  cases e <;> rfl

@[simp] theorem path_resolutionDiagnostic (e : ResolutionError) :
    (resolutionDiagnostic e).path = e.path := rfl

@[simp] theorem origin_resolutionDiagnostic (e : ResolutionError) :
    (resolutionDiagnostic e).origin = e.origin := rfl

theorem mergeable_of_token? (parsed : ∀ t ∈ trees, t.Parsed) {c : Context} {path : String}
    {rt : ResolvedToken} (h : (resolveAll (flatten trees)).token? c path = some rt) :
    rt.path = path ∧ Mergeable (treesOf trees c) path ∧ rt.token.origin.context = c := by
  obtain ⟨t, ht, rfl, token, -⟩ := denotes_of_token? (keyed_flatten trees) h
  obtain ⟨mergeable, origin⟩ := mergeable_of_mem_declared parsed ht
  unfold ResolvedToken.path
  rw [token]
  exact ⟨rfl, mergeable, origin⟩

/-- **What an error that covers a kept token is about**: the token has no value, or the error was found
in its value. -/
theorem about_of_covers (parsed : ∀ t ∈ trees, t.Parsed) {c : Context} {path : String}
    (kept : Mergeable (treesOf trees c) path) {d : Diagnostic}
    (h : d ∈ diagnose (flatten trees) (resolveAll (flatten trees))) (context : d.origin.context = c)
    (covers : d.covers path = true) :
    (∃ t ∈ declared (flatten trees) c, t.path = path ∧ ¬ Sound (flatten trees) c t) ∨
      ∃ rt, (resolveAll (flatten trees)).token? c path = some rt ∧ d ∈ lintToken Rule.all rt := by
  rcases mem_diagnose.1 h with ⟨c', -, e, he, rfl⟩ | ⟨e, he, rfl⟩ | ⟨c', rt, hrt, hd⟩
  · -- a contradiction is at a token, which cannot be below a kept one
    rw [context_mergeDiagnostic] at context
    subst context
    have inside := covers_iff_inside.1 covers
    rw [path_mergeDiagnostic] at inside
    have conflicted := Flat.conflicted_eq_true_iff.2 (List.mem_map.2 ⟨e, he, rfl⟩)
    have clash := (clash_iff (wellNamed_treesOf parsed) e.path).1
      ((conflicted_ofTrees _ _).1 conflicted)
    exact absurd (kept.eq_of_inside clash.1 inside ▸ kept) clash.2
  · obtain ⟨c', t, ht, unsound, path', origin⟩ := unsound_of_mem_errors (keyed_flatten trees) he
    obtain ⟨mergeable, context'⟩ := mergeable_of_mem_declared parsed ht
    obtain rfl : c' = c := by rw [← context', ← origin, ← context, origin_resolutionDiagnostic]
    have inside : Inside t.path (resolutionDiagnostic e).path := by
      rw [path_resolutionDiagnostic, path']
      exact Inside.refl _
    have same : path = t.path := kept.eq_of_covers mergeable inside covers
    exact .inl ⟨t, ht, same.symm, unsound⟩
  · obtain ⟨-, mergeable, context'⟩ := mergeable_of_token? parsed hrt
    obtain ⟨inside, origin⟩ := inside_of_mem_lintToken hd
    obtain rfl : c' = c := by rw [← context', ← origin, context]
    obtain rfl : path = rt.path := kept.eq_of_covers mergeable inside covers
    exact .inr ⟨rt, hrt, hd⟩

/-! ## Errors of a context -/

theorem isFaulty_iff {diagnostics : List Diagnostic} {c : Context} {path : String} :
    isFaulty (errorsIn diagnostics c) path = true ↔
      ∃ d ∈ diagnostics, d.isError = true ∧ d.origin.context = c ∧ d.covers path = true := by
  simp [isFaulty, errorsIn, and_assoc]

/-- **A token with a value is at fault** exactly if an error was found in it. -/
theorem isFaulty_iff_lintToken (parsed : ∀ t ∈ trees, t.Parsed) {c : Context} {path : String}
    {rt : ResolvedToken} (h : (resolveAll (flatten trees)).token? c path = some rt) :
    isFaulty (errorsIn (diagnose (flatten trees) (resolveAll (flatten trees))) c) path = true ↔
      ∃ d ∈ lintToken Rule.all rt, d.isError = true := by
  obtain ⟨own, mergeable, context⟩ := mergeable_of_token? parsed h
  rw [isFaulty_iff]
  constructor
  · rintro ⟨d, hd, error, hc, covers⟩
    rcases about_of_covers parsed mergeable hd hc covers with ⟨t, ht, rfl, unsound⟩ | ⟨rt', h', hd'⟩
    · obtain ⟨u, hu, path, -, denotes⟩ := denotes_of_token? (keyed_flatten trees) h
      obtain rfl := (keyed_flatten trees).eq_of_path ht hu path
      exact absurd denotes.sound unsound
    · obtain rfl : rt' = rt := Option.some.inj (h'.symm.trans h)
      exact ⟨d, hd', error⟩
  · rintro ⟨d, hd, error⟩
    obtain ⟨inside, origin⟩ := inside_of_mem_lintToken hd
    rw [← own] at h ⊢
    have found : d ∈ diagnose (flatten trees) (resolveAll (flatten trees)) :=
      mem_diagnose.2 (.inr (.inr ⟨c, rt, h, hd⟩))
    exact ⟨d, found, error, by rw [origin, context], covers_iff_inside.2 inside⟩

theorem isFaulty_of_not_mergeable (parsed : ∀ t ∈ trees, t.Parsed) {c : Context} {path : String}
    (token : tokensAt (treesOf trees c) path ≠ []) (h : ¬ Mergeable (treesOf trees c) path) :
    isFaulty (errorsIn (diagnose (flatten trees) (resolveAll (flatten trees))) c) path = true := by
  obtain ⟨tree, htree, -⟩ := exists_token?_of_tokensAt_ne_nil token
  have conflicted := (conflicted_ofTrees (treesOf trees c) path).2
    ((clash_iff (wellNamed_treesOf parsed) path).2 ⟨token, h⟩)
  obtain ⟨e, he, rfl⟩ := List.mem_map.1 (Flat.conflicted_eq_true_iff.1 conflicted)
  have found : mergeDiagnostic c e ∈ diagnose (flatten trees) (resolveAll (flatten trees)) :=
    mem_diagnose.2 (.inl ⟨c, mem_contextsOf htree, e, he, rfl⟩)
  have covers : (mergeDiagnostic c e).covers e.path = true := by
    rw [covers_iff_inside, path_mergeDiagnostic]
    exact Inside.refl _
  exact isFaulty_iff.2
    ⟨_, found, isError_mergeDiagnostic c e, context_mergeDiagnostic c e, covers⟩

theorem token?_or_isFaulty (parsed : ∀ t ∈ trees, t.Parsed) {c : Context} {path : String}
    (h : Mergeable (treesOf trees c) path) :
    (∃ rt, (resolveAll (flatten trees)).token? c path = some rt) ∨
      isFaulty (errorsIn (diagnose (flatten trees) (resolveAll (flatten trees))) c) path = true := by
  obtain ⟨t, ht, rfl⟩ := exists_declared parsed h
  rcases token?_or_error (keyed_flatten trees) ht with value | ⟨-, e, he, path, origin⟩
  · exact .inl value
  · have found : resolutionDiagnostic e ∈ diagnose (flatten trees) (resolveAll (flatten trees)) :=
      mem_diagnose.2 (.inr (.inl ⟨e, he, rfl⟩))
    have context : (resolutionDiagnostic e).origin.context = c := by
      rw [origin_resolutionDiagnostic, origin]
      exact (mergeable_of_mem_declared parsed ht).2
    have covers : (resolutionDiagnostic e).covers t.path = true := by
      rw [covers_iff_inside, path_resolutionDiagnostic, path]
      exact Inside.refl _
    exact .inr (isFaulty_iff.2 ⟨_, found, rfl, context, covers⟩)

end Findings

end DesignTokens
