import DesignTokens.Proofs.Resolution.Values

/-!
# One outcome for each token

Contexts are keyed, so the outcomes of all tokens are a function of context and path. The tokens with
values and the errors that come out are this function read off in the order of the declarations.

* `assemble`: the tokens with values and the errors of given outcomes;
* **`resolveAll_eq_assemble`**: all references are resolved to justified outcomes.
-/

namespace DesignTokens

variable {all : Contexts Flat} {c : Context}

/-- The tokens of a context with their outcomes. -/
def runOf (out : Context → String → Outcome) (e : Context × Flat) : List (FlatToken × Outcome) :=
  e.2.tokens.values.map fun t => (t, out e.1 t.path)

/-- The tokens with values and the errors, in the order of the declarations, if the outcome of the
token at each path of each context is given. -/
def assemble (all : Contexts Flat) (out : Context → String → Outcome) : Resolution :=
  ⟨⟨all.entries.map fun e => (e.1, ⟨(runOf out e).filterMap withValue?⟩)⟩,
    all.entries.flatMap fun e => (runOf out e).filterMap failure?⟩

theorem declared_of_mem_entries (keyed : all.Keyed) {e : Context × Flat} (he : e ∈ all.entries) :
    declared all e.1 = e.2.tokens.values := by
  unfold declared
  rw [(Table.get?_eq_some_iff keyed.contexts).2 he]

/-- The outcome of a path among those of its context. -/
def outcomeAt (runs : List (Context × List (FlatToken × Outcome))) (c : Context) (path : String) :
    Outcome :=
  ((Table.find? c runs).bind fun run =>
    Table.find? path (run.map fun r => (r.1.path, r.2))).getD (.ok ⟨.null, none⟩)

theorem IsRun.outcomeAt_eq (keyed : all.Keyed) {runs : List (Context × List (FlatToken × Outcome))}
    (nodup : (runs.map Prod.fst).Nodup) {run : List (FlatToken × Outcome)} (hr : (c, run) ∈ runs)
    (isRun : IsRun all c run) {t : FlatToken} {o : Outcome} (ht : (t, o) ∈ run) :
    outcomeAt runs c t.path = o := by
  have paths : ((run.map fun r => (r.1.path, r.2)).map Prod.fst).Nodup := by
    have nodup := keyed.nodup_paths (c := c)
    rw [← isRun.tokens, List.map_map] at nodup
    rw [List.map_map]
    exact nodup
  have found : Table.find? t.path (run.map fun r => (r.1.path, r.2)) = some o :=
    Table.find?_eq_some_of_mem paths (List.mem_map.2 ⟨(t, o), ht, rfl⟩)
  unfold outcomeAt
  rw [Table.find?_eq_some_of_mem nodup hr, Option.bind_some, found]
  rfl

/-- **Every token has one justified outcome**, and what comes out is read off them. -/
theorem resolveAll_eq_assemble (keyed : all.Keyed) :
    ∃ out, resolveAll all = assemble all out ∧
      ∀ c, ∀ t ∈ declared all c, Justified all c t (out c t.path) := by
  obtain ⟨runs, contexts, areRuns, result⟩ := resolveAll_runs keyed
  have nodup : (runs.map Prod.fst).Nodup := contexts ▸ keyed.contexts
  have outcome : ∀ r ∈ runs, ∀ p ∈ r.2, outcomeAt runs r.1 p.1.path = p.2 := fun r hr p hp =>
    (areRuns r hr).outcomeAt_eq keyed nodup hr hp
  have same : runs = all.entries.map fun e => (e.1, runOf (outcomeAt runs) e) := by
    have eq : ∀ r ∈ runs, r =
        (r.1, (declared all r.1).map fun t => (t, outcomeAt runs r.1 t.path)) := fun r hr => by
      rw [← (areRuns r hr).tokens, List.map_map]
      refine Prod.ext rfl ((List.map_id r.2).symm.trans (List.map_congr_left fun p hp => ?_))
      exact Prod.ext rfl (outcome r hr p hp).symm
    have keys : runs = (runs.map Prod.fst).map fun c =>
        (c, (declared all c).map fun t => (t, outcomeAt runs c t.path)) := by
      rw [List.map_map]
      exact (List.map_id runs).symm.trans (List.map_congr_left eq)
    rw [contexts, Table.keys, List.map_map] at keys
    refine keys.trans (List.map_congr_left fun e he => ?_)
    rw [Function.comp_apply, declared_of_mem_entries keyed he]
    rfl
  refine ⟨outcomeAt runs, ?_, fun c t ht => ?_⟩
  · rw [result]
    generalize outcomeAt runs = out at same
    rw [same, List.map_map, List.flatMap_map]
    rfl
  · have hc : c ∈ runs.map Prod.fst := by
      rw [contexts]
      exact Decidable.not_not.1 fun hc => by simp [declared_of_notMem hc] at ht
    obtain ⟨⟨c, run⟩, hr, rfl⟩ := List.mem_map.1 hc
    have isRun : IsRun all c run := areRuns _ hr
    obtain ⟨p, hp, rfl⟩ := List.mem_map.1 (isRun.tokens ▸ ht)
    have := outcome (c, run) hr p hp
    rw [this]
    exact isRun.justified p hp

end DesignTokens
