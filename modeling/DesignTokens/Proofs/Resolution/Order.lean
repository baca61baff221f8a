import DesignTokens.Proofs.Resolution.Bounded
import DesignTokens.Proofs.Resolution.Outcomes

/-!
# The order of tokens and contexts

The memo is filled in the order of the declarations, so the first walk to reach a failing token may
begin anywhere. Its outcome is read off the graph all the same, and the graph knows tokens by their
paths alone.

* `denotes_congr`, `Fails.congr`: values and errors depend on what is looked up;
* `Reordered`: the same tokens in the same contexts, in another order; `Reordered.lookup?_eq`: every
  path leads to the same token;
* `SameOutcome`: the same value and type, or the same error up to where the chain of a cycle begins;
* **`resolveAll_reordered`**: every token has the same outcome in every order.
-/

namespace DesignTokens

open Relation

variable {all all' : Contexts Flat} {view : Context}

/-! ## What is looked up -/

section Lookup

variable (same : ∀ path, lookup? all view path = lookup? all' view path)

include same

theorem Denotes.congr {t : FlatToken} {R : Resolved} (h : Denotes all view t R) :
    Denotes all' view t R := by
  induction h with
  | intro target found seen _ compatible ih =>
    exact .intro target found (fun o ho => (same _).symm.trans (seen o ho)) ih compatible

theorem denotes_congr : Denotes all view = Denotes all' view := by
  funext t R
  exact propext ⟨fun h => h.congr same, fun h => h.congr fun path => (same path).symm⟩

theorem fine_congr : Fine all view = Fine all' view := by
  funext t o
  unfold Fine
  rw [same, denotes_congr same]

theorem firstFault_congr : FirstFault all view = FirstFault all' view := by
  funext t o
  unfold FirstFault
  rw [fine_congr same]

theorem blames_congr : Blames all view = Blames all' view := by
  funext t u
  unfold Blames
  simp only [same, firstFault_congr same, denotes_congr same]

theorem Fails.congr {t : FlatToken} {e : ResolutionError} (h : Fails all view t e) :
    Fails all' view t e := by
  have blames := blames_congr same
  have faults := firstFault_congr same
  cases h with
  | missing leads first absent =>
    exact .missing (blames ▸ leads) (faults ▸ first) ((same _).symm.trans absent)
  | mismatch leads first seen denotes expects finds =>
    exact .mismatch (blames ▸ leads) (faults ▸ first) ((same _).symm.trans seen)
      (denotes.congr same) expects finds
  | circular leads chain nodup => exact .circular (blames ▸ leads) (blames ▸ chain) nodup

end Lookup

/-! ## Reordering -/

/-- The same tokens in the same contexts, in another order. -/
structure Reordered (all all' : Contexts Flat) : Prop where
  contexts : all.keys.Perm all'.keys
  tokens : ∀ c f f', all.get? c = some f → all'.get? c = some f' →
    f.tokens.entries.Perm f'.tokens.entries

theorem Table.get?_of_perm {κ : Type u} {α : Type v} [DecidableEq κ] {t t' : Table κ α}
    (nodup : t.keys.Nodup) (perm : t.entries.Perm t'.entries) (k : κ) : t.get? k = t'.get? k := by
  have nodup' : t'.keys.Nodup := (perm.map Prod.fst).nodup_iff.1 nodup
  ext a
  rw [Table.get?_eq_some_iff nodup, Table.get?_eq_some_iff nodup', perm.mem_iff]

namespace Reordered

variable (reordered : Reordered all all')

include reordered

theorem exists_get? {c : Context} {f' : Flat} (h : all'.get? c = some f') :
    ∃ f, all.get? c = some f ∧ f.tokens.entries.Perm f'.tokens.entries := by
  have hc : c ∈ all.keys := reordered.contexts.mem_iff.2 (Table.mem_keys_of_get?_eq_some h)
  cases hf : all.get? c with
  | none => exact absurd hc (Table.get?_eq_none_iff.1 hf)
  | some f => exact ⟨f, rfl, reordered.tokens c f f' hf h⟩

/-- **Contexts stay keyed in another order.** -/
theorem keyed (keyed : all.Keyed) : all'.Keyed := by
  have nodup : all'.keys.Nodup := reordered.contexts.nodup_iff.1 keyed.contexts
  have former : ∀ f' ∈ all'.values, ∃ f ∈ all.values, f.tokens.entries.Perm f'.tokens.entries := by
    intro f' hf'
    obtain ⟨⟨c, f'⟩, he, rfl⟩ := List.mem_map.1 hf'
    obtain ⟨f, hf, perm⟩ := reordered.exists_get? ((Table.get?_eq_some_iff nodup).2 he)
    exact ⟨f, Table.mem_values_of_get?_eq_some hf, perm⟩
  refine ⟨nodup, fun f' hf' => ?_, fun f' hf' e he => ?_⟩
  · obtain ⟨f, hf, perm⟩ := former f' hf'
    exact (perm.map Prod.fst).nodup_iff.1 (keyed.paths f hf)
  · obtain ⟨f, hf, perm⟩ := former f' hf'
    exact keyed.own f hf e (perm.mem_iff.2 he)

theorem get?_eq (keyed : all.Keyed) (c : Context) (path : String) :
    (all.get? c).bind (·.tokens.get? path) = (all'.get? c).bind (·.tokens.get? path) := by
  cases hf' : all'.get? c with
  | none =>
    have hc : c ∉ all.keys :=
      mt reordered.contexts.mem_iff.1 (Table.get?_eq_none_iff.1 hf')
    rw [Table.get?_eq_none_iff.2 hc]
  | some f' =>
    obtain ⟨f, hf, perm⟩ := reordered.exists_get? hf'
    rw [hf]
    exact Table.get?_of_perm (keyed.paths f (Table.mem_values_of_get?_eq_some hf)) perm path

theorem lookup?_eq (keyed : all.Keyed) (view : Context) (path : String) :
    lookup? all view path = lookup? all' view path := by
  unfold lookup?
  rw [reordered.get?_eq keyed view, reordered.get?_eq keyed .base]

theorem mem_declared {c : Context} {t : FlatToken} (h : t ∈ declared all c) :
    t ∈ declared all' c := by
  obtain ⟨f, hf, ht⟩ := mem_declared_iff.1 h
  have hc : c ∈ all'.keys := reordered.contexts.mem_iff.1 (Table.mem_keys_of_get?_eq_some hf)
  cases hf' : all'.get? c with
  | none => exact absurd hc (Table.get?_eq_none_iff.1 hf')
  | some f' =>
    have perm := (reordered.tokens c f f' hf hf').map Prod.snd
    exact mem_declared_iff.2 ⟨f', hf', perm.mem_iff.1 ht⟩

end Reordered

/-! ## Outcomes -/

/-- The same value and type, or the same error up to where the chain of a cycle begins. -/
inductive SameOutcome : Outcome → Outcome → Prop
  | ok (R : Resolved) : SameOutcome (.ok R) (.ok R)
  | error {e e' : ResolutionError} (same : SameError e e') : SameOutcome (.error e) (.error e')

theorem Justified.same {t : FlatToken} {o o' : Outcome} (h : Justified all view t o)
    (h' : Justified all view t o') : SameOutcome o o' := by
  cases o with
  | ok R =>
    have denotes : Denotes all view t R := h
    cases o' with
    | ok R' =>
      have denotes' : Denotes all view t R' := h'
      rw [denotes.unique denotes']
      exact .ok R'
    | error e' =>
      have failed : Fails all view t e' := h'
      exact absurd denotes.sound failed.unsound
  | error e =>
    have failed : Fails all view t e := h
    cases o' with
    | ok R' =>
      have denotes' : Denotes all view t R' := h'
      exact absurd denotes'.sound failed.unsound
    | error e' =>
      have failed' : Fails all view t e' := h'
      exact .error (failed.same failed')

theorem Justified.congr (same : ∀ path, lookup? all view path = lookup? all' view path)
    {t : FlatToken} {o : Outcome} (h : Justified all view t o) : Justified all' view t o := by
  cases o with
  | ok R => exact Denotes.congr same h
  | error e => exact Fails.congr same h

/-- **Every token has the same outcome in every order** of the tokens and of the contexts: the same
value and type, or the same error, in which a cycle may begin with another one of its tokens. -/
theorem resolveAll_reordered (keyed : all.Keyed) (reordered : Reordered all all') :
    ∃ out out', resolveAll all = assemble all out ∧ resolveAll all' = assemble all' out' ∧
      ∀ c, ∀ t ∈ declared all c, SameOutcome (out c t.path) (out' c t.path) := by
  obtain ⟨out, result, justified⟩ := resolveAll_eq_assemble keyed
  obtain ⟨out', result', justified'⟩ := resolveAll_eq_assemble (reordered.keyed keyed)
  refine ⟨out, out', result, result', fun c t ht => ?_⟩
  have back := (justified' c t (reordered.mem_declared ht)).congr fun path =>
    (reordered.lookup?_eq keyed c path).symm
  exact (justified c t ht).same back

/-! ## Two tokens in a cycle -/

/-- A token of the base with a text as its value. -/
def turning (path value : String) : String × FlatToken :=
  (path, ⟨path, [path], .str value, none, none, none, ⟨⟨"a.json"⟩, .base⟩⟩)

/-- The tokens of the base. -/
def baseOf (tokens : List (String × FlatToken)) : Contexts Flat :=
  ⟨[(.base, ⟨⟨tokens⟩, .empty, []⟩)]⟩

/-- Two tokens in a cycle. -/
def turningAround : Contexts Flat := baseOf [turning "a" "\x7bb\x7d", turning "b" "\x7ba\x7d"]

/-- The same tokens in the other order. -/
def turningBack : Contexts Flat := baseOf [turning "b" "\x7ba\x7d", turning "a" "\x7bb\x7d"]

/-- The cycle of a token in the base. -/
def turningError (path : String) (chain : List String) : ResolutionError :=
  .circular path chain ⟨⟨"a.json"⟩, .base⟩

theorem parse?_turning : Reference.parse? "\x7ba\x7d" = some ⟨"a"⟩ ∧
    Reference.parse? "\x7bb\x7d" = some ⟨"b"⟩ := by decide

theorem errors_turningAround : (resolveAll turningAround).errors =
    [turningError "a" ["a", "b", "a"], turningError "b" ["a", "b", "a"]] :=
  errors_of_within 2 rfl

theorem errors_turningBack : (resolveAll turningBack).errors =
    [turningError "b" ["b", "a", "b"], turningError "a" ["b", "a", "b"]] :=
  errors_of_within 2 rfl

theorem outcomes_of_errors {p q : String × FlatToken} {out : Context → String → Outcome}
    {e e' : ResolutionError} (h : (assemble (baseOf [p, q]) out).errors = [e, e']) :
    out .base p.2.path = .error e ∧ out .base q.2.path = .error e' := by
  have two : [(p.2, out .base p.2.path), (q.2, out .base q.2.path)].filterMap failure? = [e, e'] := by
    simp only [assemble, baseOf, List.flatMap_cons, List.flatMap_nil, List.append_nil] at h
    exact h
  cases hp : out .base p.2.path with
  | ok R => cases hq : out .base q.2.path <;> simp [hp, hq, failure?, List.filterMap_cons] at two
  | error e₁ =>
    cases hq : out .base q.2.path with
    | ok R => simp [hp, hq, failure?, List.filterMap_cons] at two
    | error e₂ => simpa [hp, hq, failure?] using two

theorem keyed_turningAround : turningAround.Keyed where
  contexts := by simp [turningAround, baseOf, Table.keys]
  paths f hf := by
    obtain rfl : f = ⟨⟨_⟩, .empty, []⟩ := by simpa [turningAround, baseOf, Table.values] using hf
    simp [Table.keys, turning]
  own f hf e he := by
    obtain rfl : f = ⟨⟨_⟩, .empty, []⟩ := by simpa [turningAround, baseOf, Table.values] using hf
    rcases List.mem_cons.1 he with rfl | he
    · rfl
    · rw [List.mem_singleton.1 he]
      rfl

theorem reordered_turning : Reordered turningAround turningBack where
  contexts := .refl _
  tokens c f f' hf hf' := by
    have entries := Table.mem_of_find?_eq_some hf
    have entries' := Table.mem_of_find?_eq_some hf'
    cases List.mem_singleton.1 entries
    cases List.mem_singleton.1 entries'
    exact .swap _ _ _

/-- In either order the first token fails with the cycle of both, which begins with the token that is
resolved first. -/
theorem resolveAll_reordered_turning : turningAround.Keyed ∧ Reordered turningAround turningBack ∧
    ∃ out out', resolveAll turningAround = assemble turningAround out ∧
      resolveAll turningBack = assemble turningBack out' ∧
      out .base "a" = .error (turningError "a" ["a", "b", "a"]) ∧
      out' .base "a" = .error (turningError "a" ["b", "a", "b"]) ∧
      SameOutcome (out .base "a") (out' .base "a") := by
  obtain ⟨out, out', result, result', same⟩ := resolveAll_reordered keyed_turningAround reordered_turning
  refine ⟨keyed_turningAround, reordered_turning, out, out', result, result', ?_, ?_, ?_⟩
  · exact (outcomes_of_errors (result ▸ errors_turningAround)).1
  · exact (outcomes_of_errors (result' ▸ errors_turningBack)).2
  · exact same .base (turning "a" "\x7bb\x7d").2 List.mem_cons_self

end DesignTokens
