import DesignTokens.Proofs.Resolution.Values

/-!
# Contexts by themselves

The walks of all contexts share one memo, but each of them looks only at outcomes of its own viewing
context and adds none of another. What a context resolves to therefore depends on its own tokens and
on those of the base, and on nothing that was resolved before.

* `SameView`: contexts that declare the same tokens in a context and in the base;
* `Memo.Agree`: memos with the same outcomes of one context; `Alike`: walks with the same result;
* **`resolve_alike`**: a walk sees its own context and the base;
* `resolveContext_eq`: a context after the outcomes of others; **`resolveAll_eq`**: every context is
  resolved by itself.
-/

namespace DesignTokens

variable {all all' : Contexts Flat} {view : Context}

/-! ## The same tokens in view -/

/-- A context and the base declare the same. -/
structure SameView (all all' : Contexts Flat) (view : Context) : Prop where
  own : all.get? view = all'.get? view
  base : all.get? .base = all'.get? .base

namespace SameView

theorem refl : SameView all all view := ⟨rfl, rfl⟩

variable (same : SameView all all' view)

include same

theorem declared_eq : declared all view = declared all' view := by
  unfold declared
  rw [same.own]

theorem lookup?_eq (path : String) : lookup? all view path = lookup? all' view path := by
  unfold lookup?
  rw [same.own, same.base]

end SameView

/-! ## The same outcomes in the memo -/

/-- Two memos show the same to a context, and the first is as at the start to all others. -/
structure Memo.Agree (view : Context) (start memo memo' : Memo) : Prop where
  own : ∀ path, memo.get? (view, path) = memo'.get? (view, path)
  others : ∀ c, c ≠ view → ∀ path, memo.get? (c, path) = start.get? (c, path)

theorem Memo.Agree.insert {start memo memo' : Memo} (h : Memo.Agree view start memo memo')
    (path : String) (o : Outcome) :
    Memo.Agree view start (memo.insert (view, path) o) (memo'.insert (view, path) o) where
  own path' := by
    by_cases same : path' = path
    · rw [same, Table.get?_insert_self, Table.get?_insert_self]
    · have other : (view, path') ≠ (view, path) := fun eq => same (congrArg Prod.snd eq)
      rw [Table.get?_insert_of_ne other, Table.get?_insert_of_ne other]
      exact h.own path'
  others c hc path' := by
    have other : (c, path') ≠ (view, path) := fun eq => hc (congrArg Prod.fst eq)
    rw [Table.get?_insert_of_ne other]
    exact h.others c hc path'

/-- Two walks have the same result, and agree on what they know afterwards. -/
def Alike {α : Type} (view : Context) (start : Memo) (result result' : Except ResolutionError α × Memo) :
    Prop :=
  result.1 = result'.1 ∧ Memo.Agree view start result.2 result'.2

theorem Alike.map {α β : Type} {start : Memo} {result result' : Except ResolutionError α × Memo}
    (h : Alike view start result result') (f : α → β) :
    Alike view start (result.1.map f, result.2) (result'.1.map f, result'.2) :=
  ⟨congrArg (Except.map f) h.1, h.2⟩

theorem Alike.exists_outcome {α : Type} {start : Memo}
    {result result' : Except ResolutionError α × Memo} (h : Alike view start result result') :
    ∃ outcome memo memo', result = (outcome, memo) ∧ result' = (outcome, memo') ∧
      Memo.Agree view start memo memo' :=
  ⟨result.1, result.2, result'.2, rfl, Prod.ext h.1.symm rfl, h.2⟩

/-! ## The walk inside one value -/

section Value

/-- The references of a token are walked alike. -/
def ReferencesAlike (all all' : Contexts Flat) (view : Context) (start : Memo) (stack : List String)
    (t : FlatToken) : Prop :=
  ∀ r property memo memo', Memo.Agree view start memo memo' →
    Alike view start (resolveReference all view stack t r property memo)
      (resolveReference all' view stack t r property memo')

variable {start : Memo} {stack : List String} {t : FlatToken}

mutual

/-- **A value is walked alike if its references are.** -/
theorem resolveValue_alike (each : ReferencesAlike all all' view start stack t) :
    ∀ (property : Option String) (j : Json) (memo memo' : Memo),
    Memo.Agree view start memo memo' →
    Alike view start (resolveValue all view stack t property j memo)
      (resolveValue all' view stack t property j memo')
  | property, .str s, memo, memo', agree => by
    unfold resolveValue
    cases Reference.parse? s with
    | none => exact ⟨rfl, agree⟩
    | some r => exact (each r property memo memo' agree).map Resolved.value
  | property, .arr items, memo, memo', agree => by
    unfold resolveValue
    exact (resolveItems_alike each property items memo memo' agree).map Json.arr
  | _, .obj members, memo, memo', agree => by
    unfold resolveValue
    exact (resolveMembers_alike each members memo memo' agree).map Json.obj
  | _, .null, _, _, agree => by unfold resolveValue; exact ⟨rfl, agree⟩
  | _, .bool _, _, _, agree => by unfold resolveValue; exact ⟨rfl, agree⟩
  | _, .num _, _, _, agree => by unfold resolveValue; exact ⟨rfl, agree⟩

theorem resolveItems_alike (each : ReferencesAlike all all' view start stack t) :
    ∀ (property : Option String) (items : List Json) (memo memo' : Memo),
    Memo.Agree view start memo memo' →
    Alike view start (resolveItems all view stack t property items memo)
      (resolveItems all' view stack t property items memo')
  | _, [], _, _, agree => by unfold resolveItems; exact ⟨rfl, agree⟩
  | property, j :: rest, memo, memo', agree => by
    obtain ⟨outcome, memo₁, memo₁', walk, walk', after⟩ :=
      (resolveValue_alike each property j memo memo' agree).exists_outcome
    unfold resolveItems
    rw [walk, walk']
    cases outcome with
    | error e => exact ⟨rfl, after⟩
    | ok v => exact (resolveItems_alike each property rest memo₁ memo₁' after).map (v :: ·)

theorem resolveMembers_alike (each : ReferencesAlike all all' view start stack t) :
    ∀ (members : List (String × Json)) (memo memo' : Memo),
    Memo.Agree view start memo memo' →
    Alike view start (resolveMembers all view stack t members memo)
      (resolveMembers all' view stack t members memo')
  | [], _, _, agree => by unfold resolveMembers; exact ⟨rfl, agree⟩
  | (key, j) :: rest, memo, memo', agree => by
    obtain ⟨outcome, memo₁, memo₁', walk, walk', after⟩ :=
      (resolveValue_alike each (some key) j memo memo' agree).exists_outcome
    unfold resolveMembers
    rw [walk, walk']
    cases outcome with
    | error e => exact ⟨rfl, after⟩
    | ok v => exact (resolveMembers_alike each rest memo₁ memo₁' after).map ((key, v) :: ·)

end

theorem resolveNew_alike (each : ReferencesAlike all all' view start stack t) {memo memo' : Memo}
    (agree : Memo.Agree view start memo memo') :
    Alike view start (resolveNew all view stack t memo) (resolveNew all' view stack t memo') := by
  unfold resolveNew
  cases Reference.ofJson? t.value with
  | some r => exact (each r none memo memo' agree).map _
  | none => exact (resolveValue_alike each none t.value memo memo' agree).map _

end Value

/-! ## The walk of a token -/

/-- The walks from a stack have the same results. -/
def WalksAlike (all all' : Contexts Flat) (view : Context) (start : Memo) (stack : List String) :
    Prop :=
  ∀ (t : FlatToken) (seen : t ∈ visible all view) (seen' : t ∈ visible all' view)
    (fresh : t.path ∉ stack) (memo memo' : Memo), Memo.Agree view start memo memo' →
      Alike view start (resolve all view stack t seen fresh memo)
        (resolve all' view stack t seen' fresh memo')

theorem resolveReference_alike (same : SameView all all' view) {start : Memo} {stack : List String}
    (walks : WalksAlike all all' view start stack) (t : FlatToken) (r : Reference)
    (property : Option String) {memo memo' : Memo} (agree : Memo.Agree view start memo memo') :
    Alike view start (resolveReference all view stack t r property memo)
      (resolveReference all' view stack t r property memo') := by
  cases h : lookup? all view r.path with
  | none =>
    rw [resolveReference_of_absent h, resolveReference_of_absent (same.lookup?_eq r.path ▸ h)]
    exact ⟨rfl, agree⟩
  | some target =>
    have h' : lookup? all' view r.path = some target := same.lookup?_eq r.path ▸ h
    by_cases onStack : target.path ∈ stack
    · rw [resolveReference_of_onStack h onStack, resolveReference_of_onStack h' onStack]
      exact ⟨rfl, agree⟩
    · obtain ⟨outcome, memo₁, memo₁', walk, walk', after⟩ := (walks target
        (mem_visible_of_lookup? h) (mem_visible_of_lookup? h') onStack memo memo' agree).exists_outcome
      rw [resolveReference_of_fresh h onStack walk, resolveReference_of_fresh h' onStack walk']
      exact ⟨rfl, after⟩

/-- **A walk sees its own context and the base.** Whatever else is declared or was resolved before, it
has the same result, and it leaves the outcomes of other contexts alone. -/
theorem resolve_alike (same : SameView all all' view) (start : Memo) (stack : List String) :
    WalksAlike all all' view start stack := by
  -- every nested walk has a longer stack, with fewer visible tokens off it
  induction hn : unvisited all view stack using Nat.strongRecOn generalizing stack with
  | ind n ih =>
    intro t seen seen' fresh memo memo' agree
    cases hm : memo.get? (view, t.path) with
    | some done =>
      rw [resolve_of_get?_eq_some hm, resolve_of_get?_eq_some (agree.own t.path ▸ hm)]
      exact ⟨rfl, agree⟩
    | none =>
      have walks : WalksAlike all all' view start (stack ++ [t.path]) :=
        ih _ (hn ▸ unvisited_lt seen fresh) _ rfl
      obtain ⟨outcome, after⟩ := resolveNew_alike
        (fun r property _ _ => resolveReference_alike same walks t r property) agree
      rw [resolve_of_get?_eq_none hm, resolve_of_get?_eq_none (agree.own t.path ▸ hm)]
      refine ⟨outcome, ?_⟩
      show Memo.Agree view start (_ : Memo) (_ : Memo)
      simp only [← outcome]
      exact after.insert t.path _

/-! ## Whole contexts -/

theorem resolveTokens_alike (same : SameView all all' view) (start : Memo) :
    ∀ (ts ts' : List FlatToken) (seen : ∀ t ∈ ts, t ∈ visible all view)
    (seen' : ∀ t ∈ ts', t ∈ visible all' view) (p p' : Progress), ts = ts' →
    p.tokens = p'.tokens → p.errors = p'.errors → Memo.Agree view start p.memo p'.memo →
    (resolveTokens all view ts seen p).tokens = (resolveTokens all' view ts' seen' p').tokens ∧
      (resolveTokens all view ts seen p).errors = (resolveTokens all' view ts' seen' p').errors ∧
      Memo.Agree view start (resolveTokens all view ts seen p).memo
        (resolveTokens all' view ts' seen' p').memo
  | [], _, _, _, _, _, rfl, tokens, errors, agree => ⟨tokens, errors, agree⟩
  | t :: rest, _, seen, seen', p, p', rfl, tokens, errors, agree => by
    obtain ⟨o, memo, memo', walk, walk', after⟩ := (resolve_alike same start [] t (seen t (by simp))
      (seen' t (by simp)) (by simp) p.memo p'.memo agree).exists_outcome
    rw [resolveTokens, resolveTokens, walk, walk']
    refine resolveTokens_alike same start rest rest _ _ (p.add t o memo) (p'.add t o memo') rfl ?_ ?_ ?_
    · cases o <;> simp [Progress.add, tokens]
    · cases o <;> simp [Progress.add, errors]
    · cases o <;> exact after

/-- **A context resolves to the same**, whatever the contexts out of view declare and whatever was
resolved before in them; and it leaves their outcomes alone. -/
theorem resolveContext_eq (same : SameView all all' view) {memo memo' : Memo}
    (agree : ∀ path, memo.get? (view, path) = memo'.get? (view, path)) :
    (resolveContext all view memo).tokens = (resolveContext all' view memo').tokens ∧
      (resolveContext all view memo).errors = (resolveContext all' view memo').errors ∧
      ∀ c, c ≠ view → ∀ path,
        (resolveContext all view memo).memo.get? (c, path) = memo.get? (c, path) := by
  obtain ⟨tokens, errors, after⟩ := resolveTokens_alike same memo _ _
    (fun _ h => List.mem_append_left _ h) (fun _ h => List.mem_append_left _ h) ⟨.empty, [], memo⟩
    ⟨.empty, [], memo'⟩ same.declared_eq rfl rfl ⟨agree, fun _ _ _ => rfl⟩
  exact ⟨tokens, errors, after.others⟩

theorem resolveContexts_eq : ∀ (cs : List Context) (memo : Memo), cs.Nodup →
    (∀ c ∈ cs, ∀ path, memo.get? (c, path) = none) →
    resolveContexts all memo cs = (cs.map fun c => (c, (resolveContext all c .empty).tokens),
      cs.flatMap fun c => (resolveContext all c .empty).errors)
  | [], _, _, _ => rfl
  | c :: rest, memo, nodup, fresh => by
    obtain ⟨notMem, nodup⟩ := List.nodup_cons.1 nodup
    have same : SameView all all c := .refl
    have agree : ∀ path, memo.get? (c, path) = (Table.empty : Memo).get? (c, path) :=
      fresh c List.mem_cons_self
    obtain ⟨tokens, errors, others⟩ := resolveContext_eq same agree
    have fresh' : ∀ c' ∈ rest, ∀ path, (resolveContext all c memo).memo.get? (c', path) = none := by
      intro c' hc' path
      rw [others c' (fun eq => notMem (eq ▸ hc')) path]
      exact fresh c' (List.mem_cons_of_mem _ hc') path
    rw [resolveContexts, resolveContexts_eq rest _ nodup fresh', tokens, errors]
    rfl

/-- **Every context is resolved by itself.** -/
theorem resolveAll_eq (nodup : all.keys.Nodup) :
    resolveAll all = ⟨⟨all.entries.map fun e => (e.1, (resolveContext all e.1 .empty).tokens)⟩,
      all.entries.flatMap fun e => (resolveContext all e.1 .empty).errors⟩ := by
  rw [resolveAll, resolveContexts_eq all.keys .empty nodup fun _ _ _ => rfl, Table.keys, List.map_map,
    List.flatMap_map]
  rfl

end DesignTokens
