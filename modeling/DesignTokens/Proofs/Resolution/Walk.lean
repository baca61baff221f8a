import DesignTokens.Proofs.Flat.Keys
import DesignTokens.Proofs.Resolution.Faults
import DesignTokens.Proofs.Resolution.Parts

/-!
# The walk along references

The walk keeps its outcomes by viewing context and path, also those of tokens that failed while
others were under way. They are right nevertheless: every token on the stack is under way to the next
one behind references that are fine, so a reference back onto the stack closes a cycle of first
faults, whoever began the walk.

* `Justified`, `Memo.Justified`: an outcome that agrees with the graph, and a memo of such outcomes;
* `Pursues`, `Trail`: the stack invariant; **`Trail.cycle`**: a stack that leads back to itself;
* `passOn`, `resolveReference_of_absent`, `resolveReference_of_onStack`, `resolveReference_of_fresh`: what
  becomes of a reference;
* **`resolve_justified`**: from a justified memo, the walk gives a justified outcome and memo.
-/

namespace DesignTokens

open Relation

theorem Contexts.Keyed.path_of_lookup? {all : Contexts Flat} (keyed : all.Keyed) {view : Context}
    {path : String} {t : FlatToken} (h : lookup? all view path = some t) : t.path = path := by
  unfold lookup? at h
  split at h
  · rename_i t' h'
    cases h
    exact keyed.path_of_get? h'
  · exact keyed.path_of_get? h

section Walk

variable (all : Contexts Flat) (view : Context)

/-- An outcome for a token that agrees with the graph. -/
def Justified (t : FlatToken) : Outcome → Prop
  | .ok R => Denotes all view t R
  | .error e => Fails all view t e

/-- Every outcome agrees with the graph as seen from its context. -/
def Memo.Justified (memo : Memo) : Prop :=
  ∀ c path t, lookup? all c path = some t → ∀ o, memo.get? (c, path) = some o →
    DesignTokens.Justified all c t o

/-- `t` has a reference to `u` behind fine ones. -/
def Pursues (t u : FlatToken) : Prop :=
  ∃ before o after, t.uses = before ++ o :: after ∧ (∀ w ∈ before, Fine all view t w) ∧
    lookup? all view o.reference.path = some u

/-- The tokens on the stack pursue one another, and the last one pursues `t`. -/
def Trail (stack : List String) (t : FlatToken) : Prop :=
  ∃ us : List FlatToken, us.map FlatToken.path = stack ∧ stack.Nodup ∧
    (∀ u ∈ us, lookup? all view u.path = some u) ∧ List.IsChain (Pursues all view) (us ++ [t])

open Classical in
/-- What a reference stands for, if it stands for anything. -/
noncomputable def meaning (r : Reference) : Resolved :=
  if h : ∃ R u, lookup? all view r.path = some u ∧ Denotes all view u R then h.choose
  else ⟨.null, none⟩

variable {all view}

theorem meaning_eq {r : Reference} {u : FlatToken} {R : Resolved}
    (seen : lookup? all view r.path = some u) (denotes : Denotes all view u R) :
    meaning all view r = R := by
  have h : ∃ R u, lookup? all view r.path = some u ∧ Denotes all view u R := ⟨R, u, seen, denotes⟩
  obtain ⟨w, hw, hR⟩ := h.choose_spec
  obtain rfl : w = u := Option.some.inj (hw.symm.trans seen)
  unfold meaning
  rw [dif_pos h]
  exact hR.unique denotes

theorem Memo.justified_empty : Memo.Justified all Table.empty := fun _ _ _ _ _ h => by simp at h

theorem Memo.Justified.insert {memo : Memo} (h : Memo.Justified all memo) {t : FlatToken}
    {o : Outcome} (seen : lookup? all view t.path = some t)
    (justified : DesignTokens.Justified all view t o) :
    Memo.Justified all (memo.insert (view, t.path) o) := by
  intro c path u hu o' ho'
  by_cases hk : (c, path) = (view, t.path)
  · cases hk
    obtain rfl : t = u := Option.some.inj (seen.symm.trans hu)
    rw [Table.get?_insert_self] at ho'
    cases ho'
    exact justified
  · rw [Table.get?_insert_of_ne hk] at ho'
    exact h c path u hu o' ho'

/-! ## Stacks -/

theorem Pursues.refers {t u : FlatToken} (h : Pursues all view t u) : Refers all view t u := by
  obtain ⟨before, o, after, uses, -, seen⟩ := h
  exact ⟨o, by simp [uses], seen⟩

theorem Pursues.blames {t u : FlatToken} (h : Pursues all view t u)
    (noValue : ∀ R, ¬ Denotes all view u R) : Blames all view t u := by
  obtain ⟨before, o, after, uses, fine, seen⟩ := h
  refine ⟨o, ⟨before, after, uses, fine, ?_⟩, seen, noValue⟩
  rintro ⟨w, R, seen', denotes, -⟩
  obtain rfl : u = w := Option.some.inj (seen.symm.trans seen')
  exact noValue R denotes

theorem Trail.nil {t : FlatToken} : Trail all view [] t :=
  ⟨[], rfl, .nil, by simp, .singleton t⟩

theorem Trail.pursues {stack : List String} {t u : FlatToken} (h : Trail all view stack t)
    (seen : lookup? all view t.path = some t) (fresh : t.path ∉ stack) (p : Pursues all view t u) :
    Trail all view (stack ++ [t.path]) u := by
  obtain ⟨us, rfl, nodup, own, chain⟩ := h
  refine ⟨us ++ [t], by simp, ?_, ?_, ?_⟩
  · rw [List.nodup_append]
    refine ⟨nodup, by simp, fun a ha b hb => ?_⟩
    rintro rfl
    exact fresh (List.mem_singleton.1 hb ▸ ha)
  · intro w hw
    rcases List.mem_append.1 hw with hw | hw
    · exact own w hw
    · rw [List.mem_singleton.1 hw]
      exact seen
  · rw [List.isChain_append]
    refine ⟨chain, .singleton u, fun x hx y hy => ?_⟩
    obtain rfl : t = x := by simpa using hx
    obtain rfl : u = y := by simpa using hy
    exact p

/-- **A reference onto the stack closes a cycle of first faults**: the stack from there on. -/
theorem Trail.cycle {stack : List String} {t : FlatToken} (h : Trail all view stack t)
    (seen : lookup? all view t.path = some t) (onStack : t.path ∈ stack) :
    ∃ rest : List FlatToken, stack.dropWhile (· ≠ t.path) = (t :: rest).map FlatToken.path ∧
      Cycle.Chain (Blames all view) (t :: rest : List FlatToken) ∧ (t :: rest).Nodup := by
  obtain ⟨us, rfl, nodup, own, chain⟩ := h
  obtain ⟨w, hw, path⟩ := List.mem_map.1 onStack
  obtain rfl : t = w := Option.some.inj (seen.symm.trans (path ▸ own w hw))
  obtain ⟨before, rest, rfl⟩ := List.append_of_mem hw
  rw [List.append_assoc, List.cons_append] at chain
  have turns : Cycle.Chain (Pursues all view) (t :: rest : List FlatToken) :=
    (Cycle.chain_coe_cons _ _ _).2 chain.right_of_append
  rw [List.map_append, List.map_cons] at nodup ⊢
  rw [List.nodup_append] at nodup
  refine ⟨rest, ?_, ?_, List.Nodup.of_map FlatToken.path nodup.2.1⟩
  · have others : ∀ path ∈ before.map FlatToken.path, decide (path ≠ t.path) = true := fun path hp =>
      decide_eq_true (nodup.2.2 path hp t.path List.mem_cons_self)
    rw [List.dropWhile_append_of_pos others, List.dropWhile_cons_of_neg (by simp), List.map_cons]
  · rw [Cycle.chain_coe_cons]
    refine List.IsChain.imp_of_mem_imp (fun x y hx hy p => p.blames fun R denotes => ?_)
      chain.right_of_append
    have hy : y ∈ t :: rest := by simpa [or_comm] using hy
    exact not_sound_of_chain (turns.imp fun _ _ => Pursues.refers) hy denotes.sound

/-! ## One reference -/

theorem checkType_ok {t : FlatToken} {r : Reference} {property : Option String}
    {found R : Resolved} (h : checkType t r property found = .ok R) :
    R = found ∧ Compatible (expectedType? t property) found.type := by
  unfold checkType at h
  split at h
  · rename_i expected type he hf
    split at h
    · rename_i fits
      cases h
      refine ⟨rfl, fun e he' f hf' => ?_⟩
      simp only [he, hf, Option.mem_def, Option.some.injEq] at he' hf'
      rwa [← he', ← hf']
    · cases h
  · rename_i none
    cases h
    refine ⟨rfl, fun e he f hf => (none e f he hf).elim⟩

theorem checkType_error {t : FlatToken} {r : Reference} {property : Option String}
    {found : Resolved} {e : ResolutionError} (h : checkType t r property found = .error e) :
    ¬ Compatible (expectedType? t property) found.type ∧
      ∃ expected type, expectedType? t property = some expected ∧ found.type = some type ∧
        e = .typeMismatch t.path r.path property expected type t.origin := by
  unfold checkType at h
  split at h
  · rename_i expected type he hf
    split at h
    · cases h
    · rename_i fits
      cases h
      exact ⟨fun compatible => fits (compatible expected he type hf), expected, type, he, hf, rfl⟩
  · cases h

/-! ## One reference -/

/-- The outcome at a reference in `t` from the outcome of the token it refers to. -/
def passOn (t : FlatToken) (r : Reference) (property : Option String) : Outcome → Outcome
  | .error e => .error (e.forToken t)
  | .ok found => checkType t r property found

section Reference

variable {stack : List String} {t target : FlatToken} {r : Reference} {property : Option String}
  {memo : Memo}

theorem resolveReference_of_absent (h : lookup? all view r.path = none) :
    resolveReference all view stack t r property memo =
      (.error (.missing t.path r.path property t.origin), memo) := by
  unfold resolveReference
  split
  · rfl
  · simp_all

theorem resolveReference_of_onStack (h : lookup? all view r.path = some target)
    (onStack : target.path ∈ stack) :
    resolveReference all view stack t r property memo =
      (.error (.circular t.path (stack.dropWhile (· ≠ target.path) ++ [target.path]) t.origin),
        memo) := by
  unfold resolveReference
  split
  · simp_all
  · rename_i target' h'
    obtain rfl : target' = target := Option.some.inj (h'.symm.trans h)
    rw [dif_neg (not_not.2 onStack)]

/-- **A reference to a token off the stack.** -/
theorem resolveReference_of_fresh (h : lookup? all view r.path = some target)
    (fresh : target.path ∉ stack) {outcome : Outcome} {memo' : Memo}
    (walk : resolve all view stack target (mem_visible_of_lookup? h) fresh memo = (outcome, memo')) :
    resolveReference all view stack t r property memo = (passOn t r property outcome, memo') := by
  unfold resolveReference
  split
  · simp_all
  · rename_i target' h'
    obtain rfl : target' = target := Option.some.inj (h'.symm.trans h)
    rw [dif_pos fresh, walk]
    cases outcome <;> rfl

end Reference

theorem fails_of_checkType {t target : FlatToken} {o : Use} {before after : List Use}
    (uses : t.uses = before ++ o :: after) (fine : ∀ w ∈ before, Fine all view t w)
    (found : lookup? all view o.reference.path = some target) {R : Resolved}
    (denotes : Denotes all view target R) {e : ResolutionError}
    (h : checkType t o.reference o.property R = .error e) : Fails all view t e := by
  obtain ⟨incompatible, expected, type, expects, finds, rfl⟩ := checkType_error h
  have first : FirstFault all view t o := by
    refine ⟨before, after, uses, fine, ?_⟩
    rintro ⟨w, S, seen, denotes', compatible⟩
    obtain rfl : target = w := Option.some.inj (found.symm.trans seen)
    exact incompatible (denotes.unique denotes' ▸ compatible)
  exact .mismatch .refl first found denotes expects finds

/-- What the walk from a stack guarantees for a token. -/
def WalksWell (all : Contexts Flat) (view : Context) (stack : List String) : Prop :=
  ∀ (t : FlatToken) (seen : t ∈ visible all view) (fresh : t.path ∉ stack) (memo : Memo),
    lookup? all view t.path = some t → Trail all view stack t → Memo.Justified all memo →
      Justified all view t (resolve all view stack t seen fresh memo).1 ∧
        Memo.Justified all (resolve all view stack t seen fresh memo).2

/-- **One reference behind fine ones.** -/
theorem walksEach_uses (keyed : all.Keyed) {stack : List String} {t : FlatToken}
    (trail : Trail all view stack t) (fresh : t.path ∉ stack)
    (seen : lookup? all view t.path = some t) (walks : WalksWell all view (stack ++ [t.path])) :
    WalksEach (meaning all view) (Memo.Justified all) (Fine all view t) (fun _ => Fails all view t) all
      view (stack ++ [t.path]) t t.uses := by
  intro before o after uses fine memo good
  have fails : ∀ {e : ResolutionError}, Fails all view t e →
      ∃ before o' after, [o] = before ++ o' :: after ∧ (∀ w ∈ before, Fine all view t w) ∧
        Fails all view t e := fun h => ⟨[], o, [], rfl, by simp, h⟩
  cases found : lookup? all view o.reference.path with
  | none =>
    rw [resolveReference_of_absent found]
    have first : FirstFault all view t o := by
      refine ⟨before, after, uses, fine, ?_⟩
      rintro ⟨_, _, seen', _⟩
      cases found.symm.trans seen'
    exact ⟨good, fails (.missing .refl first found)⟩
  | some target =>
    have pursues : Pursues all view t target := ⟨before, o, after, uses, fine, found⟩
    have own : lookup? all view target.path = some target := by
      rw [keyed.path_of_lookup? found]
      exact found
    have trail' := trail.pursues seen fresh pursues
    by_cases onStack : target.path ∈ stack ++ [t.path]
    · rw [resolveReference_of_onStack found onStack]
      obtain ⟨rest, chain, cycle, nodup⟩ := trail'.cycle own onStack
      have blames : Blames all view t target := pursues.blames fun R denotes =>
        not_sound_of_chain (cycle.imp fun _ _ => Blames.refers) List.mem_cons_self denotes.sound
      rw [chain]
      exact ⟨good, fails (.circular (.single blames) cycle nodup)⟩
    · obtain ⟨justified, good'⟩ :=
        walks target (mem_visible_of_lookup? found) onStack memo own trail' good
      rw [resolveReference_of_fresh found onStack rfl]
      refine ⟨good', ?_⟩
      cases outcome : (resolve all view (stack ++ [t.path]) target (mem_visible_of_lookup? found)
          onStack memo).1 with
      | error e =>
        rw [outcome] at justified
        have failed : Fails all view target e := justified
        exact fails (failed.forToken (pursues.blames fun R denotes => failed.unsound denotes.sound))
      | ok R =>
        rw [outcome] at justified
        have denotes : Denotes all view target R := justified
        dsimp only [passOn]
        cases hc : checkType t o.reference o.property R with
        | ok S =>
          obtain ⟨rfl, compatible⟩ := checkType_ok hc
          refine ⟨(meaning_eq found denotes).symm, fun w hw => ?_⟩
          obtain rfl : w = o := List.mem_singleton.1 hw
          exact ⟨target, S, found, denotes, compatible⟩
        | error e => exact fails (fails_of_checkType uses fine found denotes hc)

/-! ## One token -/

/-- The walk of a token whose outcome is not known. -/
def resolveNew (all : Contexts Flat) (view : Context) (stack : List String) (t : FlatToken)
    (memo : Memo) : Outcome × Memo :=
  match Reference.ofJson? t.value with
  | some r =>
    let result := resolveReference all view stack t r none memo
    (result.1.map fun target => ⟨target.value, t.type <|> target.type⟩, result.2)
  | none =>
    let result := resolveValue all view stack t none t.value memo
    (result.1.map fun v => ⟨v, t.type⟩, result.2)

theorem resolve_of_get?_eq_some {stack : List String} {t : FlatToken} {seen : t ∈ visible all view}
    {fresh : t.path ∉ stack} {memo : Memo} {done : Outcome}
    (h : memo.get? (view, t.path) = some done) :
    resolve all view stack t seen fresh memo = (done, memo) := by
  rw [resolve]
  split <;> simp_all

theorem resolve_of_get?_eq_none {stack : List String} {t : FlatToken} {seen : t ∈ visible all view}
    {fresh : t.path ∉ stack} {memo : Memo} (h : memo.get? (view, t.path) = none) :
    resolve all view stack t seen fresh memo =
      let result := resolveNew all view (stack ++ [t.path]) t memo
      (result.1, result.2.insert (view, t.path) result.1) := by
  rw [resolve]
  split
  · simp_all
  · unfold resolveNew
    cases Reference.ofJson? t.value <;> rfl

theorem walked_resolveNew {σ : Reference → Resolved} {Good : Memo → Prop} {Fine : Use → Prop}
    {Fault : Use → ResolutionError → Prop} {stack : List String} {t : FlatToken} {memo : Memo}
    (good : Good memo) (h : WalksEach σ Good Fine Fault all view stack t t.uses) :
    Walked Good Fine Fault t.uses
      ⟨t.value.substitute fun r => (σ r).value, settledType t σ⟩
      (resolveNew all view stack t memo) := by
  unfold resolveNew settledType
  cases hr : Reference.ofJson? t.value with
  | none =>
    exact Walked.map (fun v => Resolved.mk v t.type) (walked_resolveValue none t.value memo good h)
  | some r =>
    have hu := FlatToken.uses_of_alias hr
    have hv : (t.value.substitute fun r => (σ r).value) = (σ r).value := by
      cases hj : t.value with
      | str s =>
        rw [hj] at hr
        simp [Json.substitute, show Reference.parse? s = some r from hr]
      | null | bool _ | num _ | arr _ | obj _ => rw [hj] at hr; cases hr
    rw [hu] at h
    rw [hv, hu]
    exact Walked.map (fun target => Resolved.mk target.value (t.type <|> target.type)) (h.single good)

theorem denotes_of_fine {t : FlatToken} (h : ∀ o ∈ t.uses, Fine all view t o) :
    Denotes all view t ⟨t.value.substitute fun r => (meaning all view r).value,
      settledType t (meaning all view)⟩ := by
  refine .intro (fun r => (lookup? all view r.path).getD t) (meaning all view) ?_ ?_ ?_
  · intro o ho
    obtain ⟨u, R, seen, -, -⟩ := h o ho
    simp [seen]
  · intro o ho
    obtain ⟨u, R, seen, denotes, -⟩ := h o ho
    rw [seen, Option.getD_some, meaning_eq seen denotes]
    exact denotes
  · intro o ho
    obtain ⟨u, R, seen, denotes, compatible⟩ := h o ho
    rwa [meaning_eq seen denotes]

/-- **The walk gives every token the outcome that the graph asks for.** -/
theorem resolve_justified (keyed : all.Keyed) (stack : List String) :
    WalksWell all view stack := by
  -- every nested walk has a longer stack, with fewer visible tokens off it
  induction hn : unvisited all view stack using Nat.strongRecOn generalizing stack with
  | ind n ih =>
    intro t seen fresh memo own trail good
    cases hm : memo.get? (view, t.path) with
    | some done =>
      rw [resolve_of_get?_eq_some hm]
      exact ⟨good view t.path t own done hm, good⟩
    | none =>
      have walks : WalksWell all view (stack ++ [t.path]) :=
        ih _ (hn ▸ unvisited_lt seen fresh) _ rfl
      have walked := walked_resolveNew good (walksEach_uses keyed trail fresh own walks)
      rw [resolve_of_get?_eq_none hm]
      have justified : Justified all view t (resolveNew all view (stack ++ [t.path]) t memo).1 := by
        cases ho : (resolveNew all view (stack ++ [t.path]) t memo).1 with
        | ok R =>
          have := walked.2
          rw [ho] at this
          rw [this.1]
          exact denotes_of_fine this.2
        | error e =>
          have := walked.2
          rw [ho] at this
          obtain ⟨_, _, _, _, _, failed⟩ := this
          exact failed
      exact ⟨justified, walked.1.insert own justified⟩

end Walk

end DesignTokens
