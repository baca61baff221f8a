import DesignTokens.Table
import Mathlib.Data.List.Forall2
import Mathlib.Data.List.Induction

/-!
# Keys of tables

A table in which no key is repeated is a finite map: an entry is found exactly if it is there.
Changing a table leaves its keys in place, with a new one last.

* `keys_alter`, `nodup_keys_alter`: the keys after a change;
* `get?_eq_some_iff`: looking up and membership;
* `find?_filter`: looking up among some of the keys;
* `filter_flatMap_entries`: what belongs to one key;
* `nodup_keys_ofList`: a table of a list has distinct keys.
-/

namespace DesignTokens.Table

variable {κ : Type u} {α : Type v} [DecidableEq κ]

theorem find?_eq_none_iff {k : κ} {l : List (κ × α)} : find? k l = none ↔ k ∉ l.map Prod.fst := by
  induction l with
  | nil => simp [find?]
  | cons e rest ih =>
    obtain ⟨k', a⟩ := e
    by_cases h : k' = k
    · simp [find?, h]
    · simp [find?, h, ih, Ne.symm h]

theorem find?_eq_some_of_mem {k : κ} {a : α} {l : List (κ × α)} (nodup : (l.map Prod.fst).Nodup)
    (h : (k, a) ∈ l) : find? k l = some a := by
  induction l with
  | nil => cases h
  | cons e rest ih =>
    obtain ⟨k', a'⟩ := e
    rw [List.map_cons, List.nodup_cons] at nodup
    rcases List.mem_cons.1 h with h | h
    · cases h
      simp [find?]
    · have hk : k' ≠ k := fun hk => nodup.1 (List.mem_map.2 ⟨(k, a), h, hk.symm⟩)
      simp [find?, hk, ih nodup.2 h]

theorem find?_filter (p : κ → Bool) (k : κ) (l : List (κ × α)) :
    find? k (l.filter fun e => p e.1) = if p k then find? k l else none := by
  induction l with
  | nil => simp [find?]
  | cons e rest ih =>
    obtain ⟨k', a⟩ := e
    by_cases h : k' = k
    · subst h
      cases hp : p k' <;> simp [find?, hp, ih]
    · cases hp : p k' <;> simp [find?, hp, h, ih]

theorem find?_append (k : κ) (l l' : List (κ × α)) :
    find? k (l ++ l') = (find? k l).or (find? k l') := by
  induction l with
  | nil => rfl
  | cons e rest ih =>
    obtain ⟨k', a⟩ := e
    by_cases h : k' = k <;> simp [find?, h, ih]

theorem find?_map {β : Type w} (f : κ → α → β) (k : κ) (l : List (κ × α)) :
    find? k (l.map fun e => (e.1, f e.1 e.2)) = (find? k l).map (f k) := by
  induction l with
  | nil => rfl
  | cons e rest ih =>
    obtain ⟨k', a⟩ := e
    by_cases h : k' = k
    · subst h
      simp [find?]
    · simp [find?, h, ih]

theorem find?_of_forall₂ {β : Type w} {R : κ × α → κ × β → Prop}
    (keys : ∀ {a b}, R a b → b.1 = a.1) {l : List (κ × α)} {l' : List (κ × β)}
    (h : List.Forall₂ R l l') (k : κ) :
    find? k l = none ∧ find? k l' = none ∨
      ∃ a b, find? k l = some a ∧ find? k l' = some b ∧ R (k, a) (k, b) := by
  induction h with
  | nil => exact .inl ⟨rfl, rfl⟩
  | @cons e e' rest rest' he _ ih =>
    obtain ⟨k₁, a⟩ := e
    obtain ⟨k₂, b⟩ := e'
    obtain rfl : k₂ = k₁ := keys he
    by_cases hk : k₂ = k
    · subst hk
      exact .inr ⟨a, b, by simp [find?], by simp [find?], he⟩
    · simpa [find?, hk] using ih

theorem get?_eq_some_iff {t : Table κ α} (nodup : t.keys.Nodup) {k : κ} {a : α} :
    t.get? k = some a ↔ (k, a) ∈ t.entries :=
  ⟨mem_of_find?_eq_some, find?_eq_some_of_mem nodup⟩

theorem get?_eq_none_iff {t : Table κ α} {k : κ} : t.get? k = none ↔ k ∉ t.keys :=
  find?_eq_none_iff

theorem contains_iff {t : Table κ α} {k : κ} : t.contains k = true ↔ k ∈ t.keys := by
  unfold contains
  rw [Option.isSome_iff_ne_none, ne_eq, get?_eq_none_iff, not_not]

theorem filter_flatMap_entries {β : Type w} {key : β → κ} {items : κ × α → List β} {t : Table κ α}
    (nodup : t.keys.Nodup) (own : ∀ e ∈ t.entries, ∀ b ∈ items e, key b = e.1) (k : κ) :
    (t.entries.flatMap items).filter (key · = k) =
      ((t.get? k).map fun a => items (k, a)).getD [] := by
  obtain ⟨entries⟩ := t
  show (entries.flatMap items).filter (key · = k) = ((find? k entries).map _).getD []
  induction entries with
  | nil => rfl
  | cons e rest ih =>
    obtain ⟨k', a⟩ := e
    obtain ⟨notMem, nodup⟩ := List.nodup_cons.1 nodup
    have own' := List.forall_mem_cons.1 own
    rw [List.flatMap_cons, List.filter_append, ih nodup own'.2]
    by_cases h : k' = k
    · subst h
      have none : find? k' rest = none := find?_eq_none_iff.2 notMem
      have all : (items (k', a)).filter (key · = k') = items (k', a) :=
        List.filter_eq_self.2 fun b hb => decide_eq_true (own'.1 b hb)
      simp [find?, none, all]
    · have nothing : (items (k', a)).filter (key · = k) = [] :=
        List.filter_eq_nil_iff.2 fun b hb same =>
          h ((own'.1 b hb).symm.trans (of_decide_eq_true same))
      simp [find?, h, nothing]

theorem map_fst_alterEntries (k : κ) (f : Option α → α) (l : List (κ × α)) :
    (alterEntries k f l).map Prod.fst =
      if k ∈ l.map Prod.fst then l.map Prod.fst else l.map Prod.fst ++ [k] := by
  induction l with
  | nil => simp [alterEntries]
  | cons e rest ih =>
    obtain ⟨k', a⟩ := e
    by_cases h : k' = k
    · simp [alterEntries, h]
    · simp only [alterEntries, h, if_false, List.map_cons, ih, List.mem_cons, Ne.symm h, false_or]
      split <;> rfl

/-- **The keys after a change.** -/
theorem keys_alter (t : Table κ α) (k : κ) (f : Option α → α) :
    (t.alter k f).keys = if k ∈ t.keys then t.keys else t.keys ++ [k] :=
  map_fst_alterEntries k f t.entries

theorem keys_insert (t : Table κ α) (k : κ) (a : α) :
    (t.insert k a).keys = if k ∈ t.keys then t.keys else t.keys ++ [k] :=
  keys_alter t k fun _ => a

theorem nodup_keys_alter {t : Table κ α} (nodup : t.keys.Nodup) (k : κ) (f : Option α → α) :
    (t.alter k f).keys.Nodup := by
  rw [keys_alter]
  split
  · exact nodup
  · rename_i h
    rw [List.nodup_append]
    exact ⟨nodup, by simp, fun x hx y hy => by rintro rfl; simp_all⟩

theorem get?_alter_self (t : Table κ α) (k : κ) (f : Option α → α) :
    (t.alter k f).get? k = some (f (t.get? k)) :=
  find?_alterEntries_self k f t.entries

theorem get?_alter_of_ne {k k' : κ} (h : k' ≠ k) (t : Table κ α) (f : Option α → α) :
    (t.alter k f).get? k' = t.get? k' :=
  find?_alterEntries_of_ne h f t.entries

theorem alterEntries_of_notMem {k : κ} {l : List (κ × α)} (h : k ∉ l.map Prod.fst)
    (f : Option α → α) : alterEntries k f l = l ++ [(k, f none)] := by
  induction l with
  | nil => rfl
  | cons e rest ih =>
    obtain ⟨k', a⟩ := e
    simp only [List.map_cons, List.mem_cons, not_or] at h
    simp [alterEntries, Ne.symm h.1, ih h.2]

theorem entries_insert_of_notMem {t : Table κ α} {k : κ} (h : k ∉ t.keys) (a : α) :
    (t.insert k a).entries = t.entries ++ [(k, a)] :=
  alterEntries_of_notMem h fun _ => a

theorem mem_alterEntries {k : κ} {f : Option α → α} {l : List (κ × α)} {e : κ × α}
    (h : e ∈ alterEntries k f l) : e ∈ l ∨ e.1 = k ∧ ∃ former, e.2 = f former := by
  induction l with
  | nil =>
    obtain rfl : e = (k, f none) := List.mem_singleton.1 h
    exact .inr ⟨rfl, none, rfl⟩
  | cons e' rest ih =>
    obtain ⟨k', a⟩ := e'
    by_cases hk : k' = k
    · rw [alterEntries, if_pos hk] at h
      rcases List.mem_cons.1 h with rfl | h
      · exact .inr ⟨hk, some a, rfl⟩
      · exact .inl (List.mem_cons_of_mem _ h)
    · rw [alterEntries, if_neg hk] at h
      rcases List.mem_cons.1 h with rfl | h
      · exact .inl List.mem_cons_self
      · rcases ih h with h | h
        · exact .inl (List.mem_cons_of_mem _ h)
        · exact .inr h

/-! ## Tables of lists -/

theorem nodup_keys_ofList (l : List (κ × α)) : (ofList l).keys.Nodup := by
  unfold ofList
  induction l using List.reverseRecOn with
  | nil => exact List.nodup_nil
  | append_singleton l e ih =>
    rw [List.foldl_append]
    exact nodup_keys_alter ih _ _

theorem mem_ofList {l : List (κ × α)} {e : κ × α} (h : e ∈ (ofList l).entries) :
    ∃ e' ∈ l, e'.2 = e.2 := by
  unfold ofList at h
  induction l using List.reverseRecOn with
  | nil => cases h
  | append_singleton l e' ih =>
    rw [List.foldl_append] at h
    rcases mem_alterEntries h with h | ⟨-, _, h⟩
    · obtain ⟨e'', h'', same⟩ := ih h
      exact ⟨e'', List.mem_append_left _ h'', same⟩
    · exact ⟨e', by simp, h.symm⟩

theorem entries_ofList {l : List (κ × α)} (nodup : (l.map Prod.fst).Nodup) : (ofList l).entries = l := by
  induction l using List.reverseRecOn with
  | nil => rfl
  | append_singleton l e ih =>
    rw [List.map_append, List.nodup_append] at nodup
    obtain ⟨former, -, apart⟩ := nodup
    have absent : e.1 ∉ (ofList l).keys := by
      unfold keys
      rw [ih former]
      exact fun mem => apart _ mem _ (List.mem_singleton_self _) rfl
    have step : ofList (l ++ [e]) = (ofList l).insert e.1 e.2 := List.foldl_append
    rw [step, entries_insert_of_notMem absent, ih former]

end DesignTokens.Table
