import DesignTokens.Proofs.Resolution.Values

/-!
# Where tokens come from

Whatever is merged or resolved in a context was declared in a tree of that context, and what is said
about it says so.

* `Tree.context_of_mem_entries`: the tokens of a tree have its context as their origin;
* **`context_of_mem_declared`**: so have merged tokens, also where trees have names that no document
  could give them;
* `context_of_token?`, `context_of_mem_errors`: resolved tokens, and those without a value.
-/

namespace DesignTokens

/-! ## Tokens of trees -/

mutual

theorem Node.context_of_mem_entries {origin : Origin} {t : FlatToken} :
    ∀ (segments : List String) (inherited : Option TokenType) (n : Node),
    .token t ∈ n.entries origin segments inherited → t.origin.context = origin.context
  | segments, inherited, .token token, h => by
    rw [Node.entries, List.mem_singleton] at h
    cases h
    rfl
  | segments, inherited, .group info children, h => by
    rw [Node.entries] at h
    rcases List.mem_cons.1 h with same | h
    · cases same
    · exact context_of_mem_childEntries segments _ children h

theorem context_of_mem_childEntries {origin : Origin} {t : FlatToken} :
    ∀ (segments : List String) (inherited : Option TokenType) (children : List (String × Node)),
    .token t ∈ childEntries origin segments inherited children → t.origin.context = origin.context
  | _, _, [], h => by
    rw [childEntries] at h
    cases h
  | segments, inherited, (name, n) :: rest, h => by
    rw [childEntries] at h
    rcases List.mem_append.1 h with h | h
    · exact n.context_of_mem_entries (segments ++ [name]) inherited h
    · exact context_of_mem_childEntries segments inherited rest h

end

theorem Tree.context_of_mem_entries {tree : Tree} {t : FlatToken} (h : .token t ∈ tree.entries) :
    t.origin.context = tree.context :=
  context_of_mem_childEntries _ _ _ h

/-! ## Merged tokens -/

section Trees

variable {trees : List Tree} {c : Context}

/-- **What a context declares comes from it.** -/
theorem context_of_mem_declared {t : FlatToken} (h : t ∈ declared (flatten trees) c) :
    t.origin.context = c := by
  have found := (keyed_flatten trees).get?_of_mem_declared h
  obtain ⟨f, hf, ht⟩ := Option.bind_eq_some_iff.1 found
  obtain ⟨-, rfl⟩ := get?_flatten_eq_some_iff.1 hf
  obtain ⟨tree, htree, u, hu, -, same⟩ := exists_entry_of_get?_ofTrees _ ht
  have origin : t.origin = u.origin := by rw [same]
  rw [origin, tree.context_of_mem_entries hu]
  exact of_decide_eq_true (List.mem_filter.1 htree).2

theorem context_of_token? {path : String} {rt : ResolvedToken}
    (h : (resolveAll (flatten trees)).token? c path = some rt) :
    rt.path = path ∧ rt.token.origin.context = c := by
  obtain ⟨t, ht, rfl, token, -⟩ := denotes_of_token? (keyed_flatten trees) h
  have context : t.origin.context = c := context_of_mem_declared ht
  unfold ResolvedToken.path
  rw [token]
  exact ⟨rfl, context⟩

theorem context_of_mem_errors {e : ResolutionError}
    (h : e ∈ (resolveContext (flatten trees) c .empty).errors) : e.origin.context = c := by
  obtain ⟨run, isRun, -, -, errors⟩ :=
    resolveContext_run (c := c) (keyed_flatten trees) .empty Memo.justified_empty
  rw [errors] at h
  obtain ⟨⟨t, outcome⟩, hr, he⟩ := List.mem_filterMap.1 h
  cases outcome with
  | ok R => cases he
  | error e' =>
    cases he
    have failed : Fails (flatten trees) c t e := isRun.justified _ hr
    rw [failed.origin]
    exact context_of_mem_declared (isRun.tokens ▸ List.mem_map.2 ⟨_, hr, rfl⟩)

end Trees

end DesignTokens
