import DesignTokens.Proofs.Resolution.Graph

/-!
# The walk inside one value

Resolving a value visits its references in order and stops at the first that fails; between them it
only copies. What one visit guarantees is therefore guaranteed by the whole value, whatever the
guarantee is about: the memo, the values found, or the failures.

* `Walked`: what a walk along some references guarantees, given what it keeps of the memo (`Good`),
  what it finds (`σ`, `Fine`) and how it fails (`Fault`);
* `WalksEach`: the guarantee for each reference, once those before it have been found;
* **`walked_resolveValue`**: the guarantee for a value from that for each of its references.
-/

namespace DesignTokens

section Parts

variable (σ : Reference → Resolved) (Good : Memo → Prop) (Fine : Use → Prop)
  (Fault : Use → ResolutionError → Prop)

/-- A walk along the references `os` either finds all of them and returns `whole`, or fails at the
first that cannot be found; the memo stays good. -/
def Walked {α : Type} (os : List Use) (whole : α) (result : Except ResolutionError α × Memo) : Prop :=
  Good result.2 ∧ match result.1 with
    | .ok v => v = whole ∧ ∀ o ∈ os, Fine o
    | .error e => ∃ before o after, os = before ++ o :: after ∧ (∀ w ∈ before, Fine w) ∧ Fault o e

variable {σ Good Fine Fault}

theorem Walked.nil {α : Type} {a : α} {memo : Memo} (h : Good memo) :
    Walked Good Fine Fault [] a (.ok a, memo) :=
  ⟨h, rfl, fun _ ho => by simp at ho⟩

theorem Walked.map {α β : Type} (f : α → β) {os : List Use} {a : α}
    {result : Except ResolutionError α × Memo} (h : Walked Good Fine Fault os a result) :
    Walked Good Fine Fault os (f a) (result.1.map f, result.2) := by
  obtain ⟨result, memo⟩ := result
  obtain ⟨good, h⟩ := h
  cases result with
  | error e => exact ⟨good, h⟩
  | ok v => exact ⟨good, congrArg f h.1, h.2⟩

theorem Walked.error_append {α β : Type} {os ps : List Use} {a : α} {b : β} {e : ResolutionError}
    {memo : Memo} (h : Walked Good Fine Fault os a (.error e, memo)) :
    Walked Good Fine Fault (os ++ ps) b (.error e, memo) := by
  obtain ⟨good, before, o, after, rfl, fine, fault⟩ := h
  exact ⟨good, before, o, after ++ ps, by simp, fine, fault⟩

theorem Walked.ok_append {α β γ : Type} {os ps : List Use} {a v : α} {b : β} (f : α → β → γ)
    {memo : Memo} {result : Except ResolutionError β × Memo}
    (first : Walked Good Fine Fault os a (.ok v, memo))
    (second : Walked Good Fine Fault ps b result) :
    Walked Good Fine Fault (os ++ ps) (f a b) (result.1.map (f v), result.2) := by
  obtain ⟨_, rfl, fine⟩ := first
  obtain ⟨result, memo⟩ := result
  obtain ⟨good, second⟩ := second
  cases result with
  | ok w =>
    refine ⟨good, congrArg (f v) second.1, fun o ho => ?_⟩
    rcases List.mem_append.1 ho with ho | ho
    · exact fine o ho
    · exact second.2 o ho
  | error e =>
    obtain ⟨before, o, after, rfl, fine', fault⟩ := second
    refine ⟨good, os ++ before, o, after, by simp, fun w hw => ?_, fault⟩
    rcases List.mem_append.1 hw with hw | hw
    · exact fine w hw
    · exact fine' w hw

section Each

variable (σ Good Fine Fault) (all : Contexts Flat) (view : Context) (stack : List String)
  (t : FlatToken)

/-- The walk at each reference of `os`, once those before it have been found. -/
def WalksEach (os : List Use) : Prop :=
  ∀ before o after, os = before ++ o :: after → (∀ w ∈ before, Fine w) → ∀ memo, Good memo →
    Walked Good Fine Fault [o] (σ o.reference)
      (resolveReference all view stack t o.reference o.property memo)

end Each

variable {all : Contexts Flat} {view : Context} {stack : List String} {t : FlatToken}

theorem WalksEach.left {os ps : List Use}
    (h : WalksEach σ Good Fine Fault all view stack t (os ++ ps)) :
    WalksEach σ Good Fine Fault all view stack t os := by
  rintro before o after rfl
  exact h before o (after ++ ps) (by simp)

theorem WalksEach.right {os ps : List Use}
    (h : WalksEach σ Good Fine Fault all view stack t (os ++ ps)) (found : ∀ o ∈ os, Fine o) :
    WalksEach σ Good Fine Fault all view stack t ps := by
  rintro before o after rfl fine
  refine h (os ++ before) o after (by simp) fun w hw => ?_
  rcases List.mem_append.1 hw with hw | hw
  · exact found w hw
  · exact fine w hw

theorem WalksEach.single {o : Use} (h : WalksEach σ Good Fine Fault all view stack t [o])
    {memo : Memo} (good : Good memo) : Walked Good Fine Fault [o] (σ o.reference)
      (resolveReference all view stack t o.reference o.property memo) :=
  h [] o [] rfl (by simp) memo good

mutual

/-- **A value is walked along its references.** -/
theorem walked_resolveValue : ∀ (property : Option String) (j : Json) (memo : Memo), Good memo →
    WalksEach σ Good Fine Fault all view stack t (j.uses property) →
    Walked Good Fine Fault (j.uses property) (j.substitute fun r => (σ r).value)
      (resolveValue all view stack t property j memo)
  | property, .str s, memo, good, h => by
    unfold resolveValue Json.substitute
    cases hs : Reference.parse? s with
    | none => simpa [Json.uses, hs] using Walked.nil good
    | some r =>
      have hu : (Json.str s).uses property = [⟨r, property⟩] := by simp [Json.uses, hs]
      rw [hu] at h ⊢
      exact (h.single good).map Resolved.value
  | property, .arr items, memo, good, h => by
    unfold resolveValue
    exact (walked_resolveItems property items memo good h).map Json.arr
  | _, .obj members, memo, good, h => by
    unfold resolveValue
    exact (walked_resolveMembers members memo good h).map Json.obj
  | _, .null, memo, good, _ => by unfold resolveValue; exact Walked.nil good
  | _, .bool _, memo, good, _ => by unfold resolveValue; exact Walked.nil good
  | _, .num _, memo, good, _ => by unfold resolveValue; exact Walked.nil good

theorem walked_resolveItems : ∀ (property : Option String) (items : List Json) (memo : Memo),
    Good memo → WalksEach σ Good Fine Fault all view stack t (Json.itemUses property items) →
    Walked Good Fine Fault (Json.itemUses property items)
      (Json.substituteItems (fun r => (σ r).value) items)
      (resolveItems all view stack t property items memo)
  | _, [], memo, good, _ => by unfold resolveItems; exact Walked.nil good
  | property, j :: rest, memo, good, h => by
    rw [Json.itemUses] at h
    have first := walked_resolveValue property j memo good h.left
    unfold resolveItems
    cases hj : resolveValue all view stack t property j memo with
    | mk outcome memo' =>
      rw [hj] at first
      cases outcome with
      | error e => exact first.error_append
      | ok v =>
        exact first.ok_append List.cons
          (walked_resolveItems property rest memo' first.1 (h.right first.2.2))

theorem walked_resolveMembers : ∀ (members : List (String × Json)) (memo : Memo), Good memo →
    WalksEach σ Good Fine Fault all view stack t (Json.memberUses members) →
    Walked Good Fine Fault (Json.memberUses members)
      (Json.substituteMembers (fun r => (σ r).value) members)
      (resolveMembers all view stack t members memo)
  | [], memo, good, _ => by unfold resolveMembers; exact Walked.nil good
  | (key, j) :: rest, memo, good, h => by
    rw [Json.memberUses] at h
    have first := walked_resolveValue (some key) j memo good h.left
    unfold resolveMembers
    cases hj : resolveValue all view stack t (some key) j memo with
    | mk outcome memo' =>
      rw [hj] at first
      cases outcome with
      | error e => exact first.error_append
      | ok v =>
        exact first.ok_append (fun w ws => (key, w) :: ws)
          (walked_resolveMembers rest memo' first.1 (h.right first.2.2))

end

end Parts

end DesignTokens
