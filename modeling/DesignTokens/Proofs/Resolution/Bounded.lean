import DesignTokens.Proofs.Resolution.Isolation

/-!
# The walk up to a depth

The walk ends since each token on its stack is visible and on it once, and a proof of this goes with every
step. Up to a given depth it can be run without that proof: by structural recursion, so that the outcomes of
given tokens are evaluated.

* `Bounded`: what a bounded walk gives, if its bound is large enough;
* `Json.resolvedWith`, `FlatToken.resolvedWith`: a value and a token, given the walk along its references;
* `resolveWithin`, `resolveAllWithin`: the walk of a token, and of all tokens, up to a depth;
* **`resolveAll_of_within`**: what the bounded walk gives is what the walk gives.
-/

namespace DesignTokens

/-- What a walk up to a depth gives, and the outcomes known afterwards; none if it would go deeper. -/
abbrev Bounded (α : Type) := Option (Except ResolutionError α × Memo)

/-- What is found, in another form. -/
def Bounded.mapFound {α β : Type} (f : α → β) (result : Bounded α) : Bounded β :=
  result.map fun (found, memo) => (found.map f, memo)

/-! ## Inside one value -/

namespace Json

mutual

/-- A value with its references replaced, given the walk along each of them. -/
def resolvedWith (follow : Reference → Option String → Memo → Bounded Resolved)
    (property : Option String) : Json → Memo → Bounded Json
  | .str s, memo =>
    match Reference.parse? s with
    | some r => (follow r property memo).mapFound (·.value)
    | none => some (.ok (.str s), memo)
  | .arr items, memo => (itemsResolvedWith follow property items memo).mapFound .arr
  | .obj members, memo => (membersResolvedWith follow members memo).mapFound .obj
  | .null, memo => some (.ok .null, memo)
  | .bool b, memo => some (.ok (.bool b), memo)
  | .num n, memo => some (.ok (.num n), memo)

/-- Items with their references replaced. -/
def itemsResolvedWith (follow : Reference → Option String → Memo → Bounded Resolved)
    (property : Option String) : List Json → Memo → Bounded (List Json)
  | [], memo => some (.ok [], memo)
  | j :: rest, memo =>
    match resolvedWith follow property j memo with
    | none => none
    | some (.error e, memo) => some (.error e, memo)
    | some (.ok v, memo) => (itemsResolvedWith follow property rest memo).mapFound (v :: ·)

/-- Members with their references replaced. -/
def membersResolvedWith (follow : Reference → Option String → Memo → Bounded Resolved) :
    List (String × Json) → Memo → Bounded (List (String × Json))
  | [], memo => some (.ok [], memo)
  | (key, j) :: rest, memo =>
    match resolvedWith follow (some key) j memo with
    | none => none
    | some (.error e, memo) => some (.error e, memo)
    | some (.ok v, memo) => (membersResolvedWith follow rest memo).mapFound ((key, v) :: ·)

end

end Json

/-- A token whose outcome is not known, given the walk along its references. -/
def FlatToken.resolvedWith (t : FlatToken) (follow : Reference → Option String → Memo → Bounded Resolved)
    (memo : Memo) : Bounded Resolved :=
  match Reference.ofJson? t.value with
  | some r => (follow r none memo).mapFound fun target => ⟨target.value, t.type <|> target.type⟩
  | none => (t.value.resolvedWith follow none memo).mapFound fun v => ⟨v, t.type⟩

/-! ## Tokens -/

/-- The walk along a reference in `t`, given the walk of its target. -/
def followWith (all : Contexts Flat) (view : Context) (stack : List String)
    (visit : FlatToken → Memo → Bounded Resolved) (t : FlatToken) (r : Reference)
    (property : Option String) (memo : Memo) : Bounded Resolved :=
  match lookup? all view r.path with
  | none => some (.error (.missing t.path r.path property t.origin), memo)
  | some target =>
    if target.path ∈ stack then
      some (.error (.circular t.path (stack.dropWhile (· ≠ target.path) ++ [target.path]) t.origin), memo)
    else (visit target memo).map fun found => (passOn t r property found.1, found.2)

/-- The walk of a token, up to a depth. -/
def resolveWithin (all : Contexts Flat) (view : Context) :
    Nat → List String → FlatToken → Memo → Bounded Resolved
  | 0, _, _, _ => none
  | depth + 1, stack, t, memo =>
    match memo.get? (view, t.path) with
    | some done => some (done, memo)
    | none =>
      let visit := resolveWithin all view depth (stack ++ [t.path])
      (t.resolvedWith (followWith all view (stack ++ [t.path]) visit t) memo).map
        fun (outcome, memo) => (outcome, memo.insert (view, t.path) outcome)

/-- Tokens resolved one after the other, up to a depth. -/
def resolveTokensWithin (all : Contexts Flat) (view : Context) (depth : Nat) :
    List FlatToken → Progress → Option Progress
  | [], p => some p
  | t :: rest, p =>
    match resolveWithin all view depth [] t p.memo with
    | none => none
    | some (outcome, memo) => resolveTokensWithin all view depth rest (p.add t outcome memo)

/-- Contexts resolved one after the other, up to a depth. -/
def resolveContextsWithin (all : Contexts Flat) (depth : Nat) (memo : Memo) :
    List Context → Option (List (Context × Table String ResolvedToken) × List ResolutionError)
  | [] => some ([], [])
  | c :: rest =>
    match resolveTokensWithin all c depth (declared all c) ⟨.empty, [], memo⟩ with
    | none => none
    | some p => (resolveContextsWithin all depth p.memo rest).map fun (tables, errors) =>
        ((c, p.tokens) :: tables, p.errors ++ errors)

/-- All references of all contexts resolved, up to a depth. -/
def resolveAllWithin (depth : Nat) (all : Contexts Flat) : Option Resolution :=
  (resolveContextsWithin all depth .empty all.keys).map fun (tables, errors) => ⟨⟨tables⟩, errors⟩

/-! ## The walk without a bound -/

variable {all : Contexts Flat} {view : Context}

theorem Bounded.mapFound_eq_some {α β : Type} {f : α → β} {bounded : Bounded α}
    {result : Except ResolutionError β × Memo} (h : bounded.mapFound f = some result) :
    ∃ found memo, bounded = some (found, memo) ∧ result = (found.map f, memo) := by
  obtain ⟨⟨found, memo⟩, hb, rfl⟩ := Option.map_eq_some_iff.1 h
  exact ⟨found, memo, hb, rfl⟩

section Value

variable {stack : List String} {t : FlatToken}
  {follow : Reference → Option String → Memo → Bounded Resolved}

/-- Where the bounded walk along references gives something, the walk gives it. -/
def FollowsWalk (all : Contexts Flat) (view : Context) (stack : List String) (t : FlatToken)
    (follow : Reference → Option String → Memo → Bounded Resolved) : Prop :=
  ∀ {r property memo result}, follow r property memo = some result →
    resolveReference all view stack t r property memo = result

mutual

theorem resolveValue_of_resolvedWith (follows : FollowsWalk all view stack t follow) :
    ∀ (property : Option String) (j : Json) (memo : Memo) {result : Except ResolutionError Json × Memo},
    j.resolvedWith follow property memo = some result →
    resolveValue all view stack t property j memo = result
  | property, .str s, memo, result, h => by
    unfold Json.resolvedWith at h
    unfold resolveValue
    cases parsed : Reference.parse? s with
    | none =>
      rw [parsed] at h
      exact Option.some.inj h
    | some r =>
      rw [parsed] at h
      obtain ⟨found, memo', hf, rfl⟩ := Bounded.mapFound_eq_some h
      simp only [follows hf]
  | property, .arr items, memo, result, h => by
    unfold Json.resolvedWith at h
    unfold resolveValue
    obtain ⟨found, memo', hf, rfl⟩ := Bounded.mapFound_eq_some h
    simp only [resolveItems_of_resolvedWith follows property items memo hf]
  | _, .obj members, memo, result, h => by
    unfold Json.resolvedWith at h
    unfold resolveValue
    obtain ⟨found, memo', hf, rfl⟩ := Bounded.mapFound_eq_some h
    simp only [resolveMembers_of_resolvedWith follows members memo hf]
  | _, .null, _, _, h | _, .bool _, _, _, h | _, .num _, _, _, h => by
    unfold Json.resolvedWith at h
    unfold resolveValue
    exact Option.some.inj h

theorem resolveItems_of_resolvedWith (follows : FollowsWalk all view stack t follow) :
    ∀ (property : Option String) (items : List Json) (memo : Memo)
    {result : Except ResolutionError (List Json) × Memo},
    Json.itemsResolvedWith follow property items memo = some result →
    resolveItems all view stack t property items memo = result
  | _, [], _, _, h => by
    unfold Json.itemsResolvedWith at h
    unfold resolveItems
    exact Option.some.inj h
  | property, j :: rest, memo, result, h => by
    unfold Json.itemsResolvedWith at h
    unfold resolveItems
    split at h
    · cases h
    · rename_i first
      cases h
      rw [resolveValue_of_resolvedWith follows property j memo first]
    · rename_i first
      obtain ⟨found, memo', hf, rfl⟩ := Bounded.mapFound_eq_some h
      rw [resolveValue_of_resolvedWith follows property j memo first]
      simp only [resolveItems_of_resolvedWith follows property rest _ hf]

theorem resolveMembers_of_resolvedWith (follows : FollowsWalk all view stack t follow) :
    ∀ (members : List (String × Json)) (memo : Memo)
    {result : Except ResolutionError (List (String × Json)) × Memo},
    Json.membersResolvedWith follow members memo = some result →
    resolveMembers all view stack t members memo = result
  | [], _, _, h => by
    unfold Json.membersResolvedWith at h
    unfold resolveMembers
    exact Option.some.inj h
  | (key, j) :: rest, memo, result, h => by
    unfold Json.membersResolvedWith at h
    unfold resolveMembers
    split at h
    · cases h
    · rename_i first
      cases h
      rw [resolveValue_of_resolvedWith follows (some key) j memo first]
    · rename_i first
      obtain ⟨found, memo', hf, rfl⟩ := Bounded.mapFound_eq_some h
      rw [resolveValue_of_resolvedWith follows (some key) j memo first]
      simp only [resolveMembers_of_resolvedWith follows rest _ hf]

end

theorem resolveNew_of_resolvedWith (follows : FollowsWalk all view stack t follow) {memo : Memo}
    {result : Outcome × Memo} (h : t.resolvedWith follow memo = some result) :
    resolveNew all view stack t memo = result := by
  unfold FlatToken.resolvedWith at h
  unfold resolveNew
  cases whole : Reference.ofJson? t.value with
  | some r =>
    rw [whole] at h
    obtain ⟨found, memo', hf, rfl⟩ := Bounded.mapFound_eq_some h
    simp only [follows hf]
  | none =>
    rw [whole] at h
    obtain ⟨found, memo', hf, rfl⟩ := Bounded.mapFound_eq_some h
    simp only [resolveValue_of_resolvedWith follows none t.value memo hf]

end Value

theorem follows_followWith {stack : List String} {t : FlatToken}
    {visit : FlatToken → Memo → Bounded Resolved}
    (visits : ∀ (u : FlatToken) (seen : u ∈ visible all view) (fresh : u.path ∉ stack) (memo : Memo)
      {result : Outcome × Memo}, visit u memo = some result →
        resolve all view stack u seen fresh memo = result) :
    FollowsWalk all view stack t (followWith all view stack visit t) := by
  intro r property memo result h
  unfold followWith at h
  cases found : lookup? all view r.path with
  | none =>
    rw [found] at h
    rw [resolveReference_of_absent found]
    exact Option.some.inj h
  | some target =>
    simp only [found] at h
    by_cases onStack : target.path ∈ stack
    · rw [if_pos onStack] at h
      rw [resolveReference_of_onStack found onStack]
      exact Option.some.inj h
    · rw [if_neg onStack] at h
      obtain ⟨outcome, ho, rfl⟩ := Option.map_eq_some_iff.1 h
      exact resolveReference_of_fresh found onStack (visits _ _ onStack _ ho)

theorem resolve_of_within (depth : Nat) : ∀ (stack : List String) (t : FlatToken)
    (seen : t ∈ visible all view) (fresh : t.path ∉ stack) (memo : Memo) {result : Outcome × Memo},
    resolveWithin all view depth stack t memo = some result →
      resolve all view stack t seen fresh memo = result := by
  induction depth with
  | zero => exact fun _ _ _ _ _ _ h => nomatch h
  | succ depth ih =>
    intro stack t seen fresh memo result h
    unfold resolveWithin at h
    cases known : memo.get? (view, t.path) with
    | some done =>
      rw [known] at h
      rw [resolve_of_get?_eq_some known]
      exact Option.some.inj h
    | none =>
      rw [known] at h
      obtain ⟨⟨outcome, memo'⟩, ho, rfl⟩ := Option.map_eq_some_iff.1 h
      rw [resolve_of_get?_eq_none known,
        resolveNew_of_resolvedWith (follows_followWith fun u seen fresh memo _ => ih _ u seen fresh memo) ho]

theorem resolveTokens_of_within {depth : Nat} : ∀ (ts : List FlatToken)
    (seen : ∀ t ∈ ts, t ∈ visible all view) (p : Progress) {result : Progress},
    resolveTokensWithin all view depth ts p = some result →
      resolveTokens all view ts seen p = result
  | [], _, _, _, h => Option.some.inj h
  | t :: rest, seen, p, result, h => by
    unfold resolveTokensWithin at h
    split at h
    · cases h
    · rename_i first
      rw [resolveTokens, resolve_of_within depth [] t _ _ p.memo first]
      exact resolveTokens_of_within rest _ _ h

theorem resolveContexts_of_within {depth : Nat} : ∀ (cs : List Context) (memo : Memo)
    {result : List (Context × Table String ResolvedToken) × List ResolutionError},
    resolveContextsWithin all depth memo cs = some result → resolveContexts all memo cs = result
  | [], _, _, h => Option.some.inj h
  | c :: rest, memo, result, h => by
    unfold resolveContextsWithin at h
    split at h
    · cases h
    · rename_i p first
      obtain ⟨⟨tables, errors⟩, hr, rfl⟩ := Option.map_eq_some_iff.1 h
      have own : resolveContext all c memo = p := resolveTokens_of_within _ _ _ first
      rw [resolveContexts, own, resolveContexts_of_within rest p.memo hr]

/-- **The walk up to a depth is the walk**, where it gives something. -/
theorem resolveAll_of_within (depth : Nat) {r : Resolution} (h : resolveAllWithin depth all = some r) :
    resolveAll all = r := by
  obtain ⟨⟨tables, errors⟩, hr, rfl⟩ := Option.map_eq_some_iff.1 h
  rw [resolveAll, resolveContexts_of_within all.keys .empty hr]

theorem errors_of_within (depth : Nat) {errors : List ResolutionError}
    (h : (resolveAllWithin depth all).map Resolution.errors = some errors) :
    (resolveAll all).errors = errors := by
  obtain ⟨r, hr, rfl⟩ := Option.map_eq_some_iff.1 h
  rw [resolveAll_of_within depth hr]

end DesignTokens
