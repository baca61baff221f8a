import Mathlib.Data.List.Forall2

/-!
# Steps that may fail

What is known when a sequence of steps has not failed, and how it cannot fail.

* `bind_eq_ok`, `bind_bind_eq_ok`, `map_eq_ok`, `mapError_eq_ok`: one step after another;
* `mapM_eq_ok`, `mapM_eq_ok_iff_agree`, `filterMapM_cons_eq_ok`, `filterMapM_eq_ok`,
  `forall₂_of_filterMapM`, `sublist_of_filterMapM`, `foldlM_eq_ok`: a step for every item of a list;
  `mapM_congr`, `filterMapM_congr`: steps that agree; `exists_forall₂_iff`: results for all items;
* `Avoids`: no failure of a kind; `Avoids.bind`, `Avoids.map`, `avoids_mapM`, `avoids_filterMapM`: steps
  avoid what each of them avoids;
* `FailsIf`: failure, of one kind, in one case; `FailsIf.bind`, `failsIf_foldlM`, `bad_foldlM_iff`: the
  case of steps together;
* `EndAlike`: the same result, or related failures; `EndAlike.bind`, `endAlike_foldlM`: steps that end
  alike one by one end alike together.
-/

namespace DesignTokens

variable {ε : Type u} {α β : Type u}

theorem bind_eq_ok {x : Except ε α} {f : α → Except ε β} {b : β} :
    x >>= f = .ok b ↔ ∃ a, x = .ok a ∧ f a = .ok b := by
  cases x with
  | error e => exact ⟨fun h => (nomatch h), fun ⟨_, h, _⟩ => (nomatch h)⟩
  | ok a => exact ⟨fun h => ⟨a, rfl, h⟩, fun ⟨_, h, hf⟩ => by cases h; exact hf⟩

theorem bind_bind_eq_ok {γ : Type u} {x : Except ε α} {y : Except ε β} {f : α → β → γ} {c : γ} :
    (x >>= fun a => y >>= fun b => .ok (f a b)) = .ok c ↔
      ∃ a b, x = .ok a ∧ y = .ok b ∧ c = f a b := by
  rw [bind_eq_ok]
  constructor
  · rintro ⟨a, ha, h⟩
    obtain ⟨b, hb, h⟩ := bind_eq_ok.1 h
    exact ⟨a, b, ha, hb, (Except.ok.inj h).symm⟩
  · rintro ⟨a, b, ha, hb, rfl⟩
    exact ⟨a, ha, bind_eq_ok.2 ⟨b, hb, rfl⟩⟩

theorem map_eq_ok {x : Except ε α} {f : α → β} {b : β} :
    f <$> x = .ok b ↔ ∃ a, x = .ok a ∧ f a = b := by
  cases x with
  | error e => exact ⟨fun h => (nomatch h), fun ⟨_, h, _⟩ => (nomatch h)⟩
  | ok a =>
    constructor
    · intro h
      exact ⟨a, rfl, Except.ok.inj h⟩
    · rintro ⟨_, h, rfl⟩
      cases h
      rfl

theorem mapError_eq_ok {ε' : Type u} {x : Except ε α} {f : ε → ε'} {a : α} :
    x.mapError f = .ok a ↔ x = .ok a := by
  cases x with
  | error e => exact ⟨fun h => (nomatch h), fun h => (nomatch h)⟩
  | ok b => exact Iff.of_eq (by simp [Except.mapError])

theorem mapM_eq_ok {f : α → Except ε β} {l : List α} {r : List β} :
    l.mapM f = .ok r ↔ List.Forall₂ (fun a b => f a = .ok b) l r := by
  induction l generalizing r with
  | nil =>
    rw [List.mapM_nil, List.forall₂_nil_left_iff]
    exact ⟨fun h => (Except.ok.inj h).symm, fun h => by rw [h]; rfl⟩
  | cons a rest ih =>
    rw [List.mapM_cons, bind_eq_ok, List.forall₂_cons_left_iff]
    constructor
    · rintro ⟨b, hb, h⟩
      obtain ⟨bs, hbs, h⟩ := bind_eq_ok.1 h
      cases h
      exact ⟨b, bs, hb, ih.1 hbs, rfl⟩
    · rintro ⟨b, bs, hb, hbs, rfl⟩
      exact ⟨b, hb, bind_eq_ok.2 ⟨bs, ih.2 hbs, rfl⟩⟩

theorem mapM_eq_ok_iff_agree {f g : α → Except ε β} {l : List α} {r : List β}
    (hf : l.mapM f = .ok r) : l.mapM g = .ok r ↔ ∀ a ∈ l, g a = f a := by
  rw [mapM_eq_ok] at hf ⊢
  induction hf with
  | nil => simp
  | cons ha _ ih => rw [List.forall₂_cons, List.forall_mem_cons, ih, ha]

theorem filterMapM_cons_eq_ok {f : α → Except ε (Option β)} {a : α} {l : List α} {r : List β} :
    (a :: l).filterMapM f = .ok r ↔
      ∃ o rest, f a = .ok o ∧ l.filterMapM f = .ok rest ∧ r = o.toList ++ rest := by
  rw [List.filterMapM_cons, bind_eq_ok]
  constructor
  · rintro ⟨o, ho, h⟩
    cases o with
    | none => exact ⟨none, r, ho, h, rfl⟩
    | some b =>
      obtain ⟨rest, hrest, h⟩ := bind_eq_ok.1 h
      cases h
      exact ⟨some b, rest, ho, hrest, rfl⟩
  · rintro ⟨o, rest, ho, hrest, rfl⟩
    refine ⟨o, ho, ?_⟩
    cases o with
    | none => exact hrest
    | some b => exact bind_eq_ok.2 ⟨rest, hrest, rfl⟩

theorem filterMapM_eq_ok {f : α → Except ε (Option β)} {l : List α} {r : List β}
    (h : l.filterMapM f = .ok r) :
    (∀ a ∈ l, ∃ o, f a = .ok o) ∧ ∀ b, b ∈ r ↔ ∃ a ∈ l, f a = .ok (some b) := by
  induction l generalizing r with
  | nil =>
    cases h
    simp
  | cons a l ih =>
    obtain ⟨o, rest, ho, hrest, rfl⟩ := filterMapM_cons_eq_ok.1 h
    obtain ⟨all, mem⟩ := ih hrest
    refine ⟨List.forall_mem_cons.2 ⟨⟨o, ho⟩, all⟩, fun b => ?_⟩
    simp [mem, ho, eq_comm]

theorem forall₂_of_filterMapM {γ : Type u} {f : α → Except ε (Option β)} {g : α → Except ε (Option γ)}
    {l : List α} (same : ∀ a ∈ l, ∀ o o', f a = .ok o → g a = .ok o' → o.isSome = o'.isSome)
    {r : List β} (hf : l.filterMapM f = .ok r) {r' : List γ} (hg : l.filterMapM g = .ok r') :
    List.Forall₂ (fun b c => ∃ a ∈ l, f a = .ok (some b) ∧ g a = .ok (some c)) r r' := by
  induction l generalizing r r' with
  | nil =>
    cases hf
    cases hg
    exact .nil
  | cons a l ih =>
    obtain ⟨o, rest, ho, hrest, rfl⟩ := filterMapM_cons_eq_ok.1 hf
    obtain ⟨o', rest', ho', hrest', rfl⟩ := filterMapM_cons_eq_ok.1 hg
    obtain ⟨here, later⟩ := List.forall_mem_cons.1 same
    have below : List.Forall₂ (fun (b : β) (c : γ) => ∃ a' ∈ a :: l, f a' = .ok (some b) ∧
        g a' = .ok (some c)) rest rest' :=
      (ih later hrest hrest').imp fun _ _ ⟨a', mem, both⟩ => ⟨a', List.mem_cons_of_mem _ mem, both⟩
    have alike := here o o' ho ho'
    cases o with
    | none =>
      cases o' with
      | none => exact below
      | some c => cases alike
    | some b =>
      cases o' with
      | none => cases alike
      | some c => exact .cons ⟨a, List.mem_cons_self, ho, ho'⟩ below

theorem sublist_of_filterMapM {κ : Type v} {f : α → Except ε (Option β)} {key : α → κ} {own : β → κ}
    (owned : ∀ {a b}, f a = .ok (some b) → own b = key a) {l : List α} {r : List β}
    (h : l.filterMapM f = .ok r) : (r.map own).Sublist (l.map key) := by
  induction l generalizing r with
  | nil =>
    cases h
    exact .slnil
  | cons a rest ih =>
    obtain ⟨o, bs, ho, hbs, rfl⟩ := filterMapM_cons_eq_ok.1 h
    cases o with
    | none => exact (ih hbs).cons _
    | some b =>
      rw [Option.toList_some, List.singleton_append, List.map_cons, List.map_cons, owned ho]
      exact (ih hbs).cons_cons _

theorem mapM_congr {f g : α → Except ε β} {l : List α} (same : ∀ a ∈ l, f a = g a) :
    l.mapM f = l.mapM g := by
  induction l with
  | nil => rfl
  | cons a rest ih =>
    obtain ⟨here, later⟩ := List.forall_mem_cons.1 same
    rw [List.mapM_cons, List.mapM_cons, here, ih later]

theorem filterMapM_congr {f g : α → Except ε (Option β)} {l : List α} (same : ∀ a ∈ l, f a = g a) :
    l.filterMapM f = l.filterMapM g := by
  induction l with
  | nil => rfl
  | cons a rest ih =>
    obtain ⟨here, later⟩ := List.forall_mem_cons.1 same
    rw [List.filterMapM_cons, List.filterMapM_cons, here, ih later]

theorem exists_forall₂_iff {γ : Type v} {R : α → γ → Prop} {l : List α} :
    (∃ cs, List.Forall₂ R l cs) ↔ ∀ a ∈ l, ∃ c, R a c := by
  induction l with
  | nil => simp
  | cons a rest ih =>
    rw [List.forall_mem_cons, ← ih]
    constructor
    · rintro ⟨_, each⟩
      obtain ⟨c, cs, hc, hcs, rfl⟩ := List.forall₂_cons_left_iff.1 each
      exact ⟨⟨c, hc⟩, cs, hcs⟩
    · rintro ⟨⟨c, hc⟩, cs, hcs⟩
      exact ⟨c :: cs, .cons hc hcs⟩

theorem foldlM_eq_ok {τ : Type u} {γ : Type v} {f : τ → α → Except ε τ} {R : α → γ → Prop}
    {add : τ → γ → τ} (step : ∀ t a t', f t a = .ok t' ↔ ∃ c, R a c ∧ t' = add t c)
    {l : List α} {t t' : τ} :
    l.foldlM f t = .ok t' ↔ ∃ cs, List.Forall₂ R l cs ∧ t' = cs.foldl add t := by
  induction l generalizing t with
  | nil =>
    simp only [List.foldlM_nil, List.forall₂_nil_left_iff, exists_eq_left, List.foldl_nil]
    exact ⟨fun h => (Except.ok.inj h).symm, fun h => by rw [h]; rfl⟩
  | cons a rest ih =>
    rw [List.foldlM_cons, bind_eq_ok]
    constructor
    · rintro ⟨t₁, first, h⟩
      obtain ⟨c, hc, rfl⟩ := (step _ _ _).1 first
      obtain ⟨cs, hcs, rfl⟩ := ih.1 h
      exact ⟨c :: cs, .cons hc hcs, rfl⟩
    · rintro ⟨_, each, rfl⟩
      obtain ⟨c, cs, hc, hcs, rfl⟩ := List.forall₂_cons_left_iff.1 each
      exact ⟨add t c, (step _ _ _).2 ⟨c, hc, rfl⟩, ih.2 ⟨cs, hcs, rfl⟩⟩

/-! ## Failures that do not occur -/

/-- A step does not fail in this way. -/
def Avoids (bad : ε → Prop) (x : Except ε α) : Prop := ∀ e, x = .error e → ¬ bad e

variable {bad : ε → Prop}

theorem avoids_ok (a : α) : Avoids bad (.ok a : Except ε α) := fun _ h => nomatch h

theorem avoids_error {e : ε} (h : ¬ bad e) : Avoids bad (.error e : Except ε α) := by
  intro e' he
  cases he
  exact h

theorem Avoids.bind {x : Except ε α} {f : α → Except ε β} (h : Avoids bad x)
    (next : ∀ a, x = .ok a → Avoids bad (f a)) : Avoids bad (x >>= f) := by
  cases x with
  | error e => exact avoids_error (h e rfl)
  | ok a => exact next a rfl

theorem Avoids.map {x : Except ε α} (h : Avoids bad x) (f : α → β) : Avoids bad (f <$> x) := by
  cases x with
  | error e => exact avoids_error (h e rfl)
  | ok a => exact avoids_ok (f a)

theorem avoids_mapM {f : α → Except ε β} {l : List α} (h : ∀ a ∈ l, Avoids bad (f a)) :
    Avoids bad (l.mapM f) := by
  induction l with
  | nil => exact avoids_ok []
  | cons a rest ih =>
    obtain ⟨first, later⟩ := List.forall_mem_cons.1 h
    rw [List.mapM_cons]
    exact first.bind fun b _ => (ih later).bind fun bs _ => avoids_ok (b :: bs)

theorem avoids_filterMapM {f : α → Except ε (Option β)} {l : List α}
    (h : ∀ a ∈ l, Avoids bad (f a)) : Avoids bad (l.filterMapM f) := by
  induction l with
  | nil => exact avoids_ok []
  | cons a rest ih =>
    obtain ⟨first, later⟩ := List.forall_mem_cons.1 h
    rw [List.filterMapM_cons]
    refine first.bind fun o _ => ?_
    cases o with
    | none => exact ih later
    | some b => exact (ih later).bind fun bs _ => avoids_ok (b :: bs)

/-! ## Failures in one way -/

/-- A step has a result if a condition does not hold, and fails in this way if it does. -/
def FailsIf (bad : ε → Prop) (x : Except ε α) (P : Prop) : Prop :=
  (∃ a, x = .ok a) ∧ ¬ P ∨ (∃ e, x = .error e ∧ bad e) ∧ P

theorem failsIf_ok (a : α) {P : Prop} (not : ¬ P) : FailsIf bad (.ok a : Except ε α) P :=
  .inl ⟨⟨a, rfl⟩, not⟩

theorem FailsIf.congr {x : Except ε α} {P Q : Prop} (h : FailsIf bad x P) (same : P ↔ Q) :
    FailsIf bad x Q :=
  propext same ▸ h

theorem FailsIf.isOk_iff {x : Except ε α} {P : Prop} (h : FailsIf bad x P) :
    (∃ a, x = .ok a) ↔ ¬ P := by
  rcases h with ⟨ok, not⟩ | ⟨⟨e, rfl, -⟩, holds⟩
  · exact iff_of_true ok not
  · exact iff_of_false (fun ⟨_, h⟩ => nomatch h) (not_not_intro holds)

theorem FailsIf.bad_iff {x : Except ε α} {P : Prop} (h : FailsIf bad x P) :
    (∃ e, x = .error e ∧ bad e) ↔ P := by
  rcases h with ⟨⟨a, rfl⟩, not⟩ | ⟨error, holds⟩
  · exact iff_of_false (fun ⟨_, h, _⟩ => nomatch h) not
  · exact iff_of_true error holds

theorem FailsIf.bind {x : Except ε α} {f : α → Except ε β} {P Q : Prop} (h : FailsIf bad x P)
    (next : ∀ a, x = .ok a → FailsIf bad (f a) Q) : FailsIf bad (x >>= f) (P ∨ Q) := by
  rcases h with ⟨⟨a, rfl⟩, not⟩ | ⟨⟨e, rfl, isBad⟩, holds⟩
  · exact (next a rfl).congr (or_iff_right not).symm
  · exact .inr ⟨⟨e, rfl, isBad⟩, .inl holds⟩

theorem FailsIf.bind_ok {x : Except ε α} {f : α → Except ε β} {P : Prop} (h : FailsIf bad x P)
    (next : ∀ a, ∃ b, f a = .ok b) : FailsIf bad (x >>= f) P := by
  refine (h.bind (Q := False) fun a _ => ?_).congr (or_false P).to_iff
  obtain ⟨b, hb⟩ := next a
  exact hb ▸ failsIf_ok b not_false

theorem failsIf_foldlM {τ : Type u} {f : τ → α → Except ε τ} {P : α → Prop} {l : List α}
    (step : ∀ t, ∀ a ∈ l, FailsIf bad (f t a) (P a)) (t : τ) :
    FailsIf bad (l.foldlM f t) (∃ a ∈ l, P a) := by
  induction l generalizing t with
  | nil => exact failsIf_ok t (by simp)
  | cons a rest ih =>
    rw [List.foldlM_cons]
    simp only [List.mem_cons, exists_eq_or_imp]
    refine (step t a List.mem_cons_self).bind fun t' _ => ?_
    exact ih (fun t b hb => step t b (List.mem_cons_of_mem a hb)) t'

/-- A loop fails in this way exactly if a condition holds at an item to which it comes: no item up to
this one makes it fail in another way. -/
theorem bad_foldlM_iff {τ : Type u} {f : τ → α → Except ε τ} {Ready P : α → Prop} {l : List α}
    (step : ∀ t, ∀ a ∈ l, Ready a → FailsIf bad (f t a) (P a))
    (stop : ∀ t, ∀ a ∈ l, ¬ Ready a → ∃ e, f t a = .error e ∧ ¬ bad e) (t : τ) :
    (∃ e, l.foldlM f t = .error e ∧ bad e) ↔
      ∃ former a latter, l = former ++ a :: latter ∧ (∀ b ∈ former ++ [a], Ready b) ∧ P a := by
  induction l generalizing t with
  | nil => simp [pure, Except.pure]
  | cons a rest ih =>
    have later := ih (fun t b hb => step t b (List.mem_cons_of_mem a hb))
      (fun t b hb => stop t b (List.mem_cons_of_mem a hb))
    rw [List.foldlM_cons]
    by_cases ready : Ready a
    · rcases step t a List.mem_cons_self ready with ⟨⟨t', ht⟩, not⟩ | ⟨⟨e, he, isBad⟩, holds⟩
      · rw [ht]
        show (∃ e, rest.foldlM f t' = .error e ∧ bad e) ↔ _
        rw [later]
        constructor
        · rintro ⟨former, b, latter, rfl, all, holds⟩
          exact ⟨a :: former, b, latter, rfl, List.forall_mem_cons.2 ⟨ready, all⟩, holds⟩
        · rintro ⟨former, b, latter, same, all, holds⟩
          cases former with
          | nil =>
            cases same
            exact absurd holds not
          | cons a' former =>
            cases same
            exact ⟨former, b, latter, rfl, (List.forall_mem_cons.1 all).2, holds⟩
      · rw [he]
        exact iff_of_true ⟨e, rfl, isBad⟩ ⟨[], a, rest, rfl, by simpa using ready, holds⟩
    · obtain ⟨e, he, notBad⟩ := stop t a List.mem_cons_self ready
      rw [he]
      refine iff_of_false (fun ⟨e', same, isBad⟩ => ?_) fun ⟨former, b, latter, same, all, _⟩ => ?_
      · cases same
        exact notBad isBad
      · cases former with
        | nil =>
          cases same
          exact ready (all a (by simp))
        | cons a' former =>
          cases same
          exact ready (all a (by simp))

/-! ## Steps that end alike -/

/-- Two steps have the same result, or failures that are related. -/
inductive EndAlike (ρ : ε → ε → Prop) : Except ε α → Except ε α → Prop
  | ok (a : α) : EndAlike ρ (.ok a) (.ok a)
  | error {e e' : ε} (related : ρ e e') : EndAlike ρ (.error e) (.error e')

variable {ρ : ε → ε → Prop}

theorem endAlike_self {x : Except ε α} (h : ∀ e, x = .error e → ρ e e) : EndAlike ρ x x := by
  cases x with
  | error e => exact .error (h e rfl)
  | ok a => exact .ok a

theorem EndAlike.bind {x y : Except ε α} {f g : α → Except ε β} (h : EndAlike ρ x y)
    (next : ∀ a, x = .ok a → EndAlike ρ (f a) (g a)) : EndAlike ρ (x >>= f) (y >>= g) := by
  cases h with
  | ok a => exact next a rfl
  | error related => exact .error related

theorem endAlike_foldlM {τ : Type u} {f g : τ → α → Except ε τ} {l : List α}
    (h : ∀ t, ∀ a ∈ l, EndAlike ρ (f t a) (g t a)) (t : τ) :
    EndAlike ρ (l.foldlM f t) (l.foldlM g t) := by
  induction l generalizing t with
  | nil => exact .ok t
  | cons a rest ih =>
    rw [List.foldlM_cons, List.foldlM_cons]
    refine (h t a (List.mem_cons_self ..)).bind fun t' _ => ?_
    exact ih (fun t b hb => h t b (List.mem_cons_of_mem a hb)) t'

end DesignTokens
