import DesignTokens.Proofs.Css.Interpolated
import DesignTokens.Proofs.Name.Cache
import DesignTokens.Proofs.Tables
import Mathlib.Data.Set.Card

/-!
# A cache used again and again

One cache serves a sequence of calls. After any of them it holds the segments that the calls so far have
converted, each once and as conversion gives it, so no call sees what was asked for before it.

* `NameCache.Call`, `Call.make`, `Call.direct`, `Call.Converts`: a call, with a cache and without, and what
  it converts; `NameCache.answers`: the results of a sequence of calls, each with the size afterwards;
* `Call.segments`, `Call.mem_segments_iff`: what a call converts, in order;
* `NameCache.Holds`: the names that a cache holds; `Holds.size_eq`: how many they are;
* `Holds.kebab`, `Holds.kebabs`, `Holds.pieceTexts`, **`Holds.make`**: what a call puts into a cache;
* `Holds.answers`: a sequence of calls on a cache that holds some names; **`answers_empty`**: on an empty one.
-/

namespace DesignTokens.NameCache

/-! ## Calls -/

/-- What is asked of a cache. -/
inductive Call where
  /-- A name converted. -/
  | name (name : String)
  /-- A path converted. -/
  | path (path : String)
  /-- The custom property of a path. -/
  | property (path : String)
  /-- A text with its references replaced. -/
  | text (text : String)
  deriving DecidableEq, Repr

/-- The result of a call, and the names afterwards. -/
def Call.make (c : NameCache) : Call → String × NameCache
  | name n => c.kebab n
  | path p => c.kebabPath p
  | property p => c.customProperty p
  | text t => c.renderReferences t

/-- The result of a call without a cache. -/
def Call.direct : Call → String
  | name n => Name.kebab n
  | path p => Name.kebabPath p
  | property p => Name.customProperty p
  | text t => Name.renderReferences t

/-- What a call converts: its name, the segments of its path, or those of the references in its text. -/
def Call.Converts (segment : String) : Call → Prop
  | name n => segment = n
  | path p | property p => segment ∈ Text.splitOn '.' p
  | text t => ∃ r : Reference, r.StandsIn t ∧ segment ∈ Text.splitOn '.' r.path

/-- The results of calls one after the other, each with the size of the cache after it. -/
def answers (c : NameCache) : List Call → List (String × Nat)
  | [] => []
  | call :: rest =>
    let (result, c) := call.make c
    (result, c.size) :: c.answers rest

/-! ## What is converted, in order -/

/-- The segments that a piece of a text converts. -/
def pieceSegments : Name.Piece → List String
  | .plain _ => []
  | .reference r => Text.splitOn '.' r.path

/-- The segments that a call converts. -/
def Call.segments : Call → List String
  | name n => [n]
  | path p | property p => Text.splitOn '.' p
  | text t => (Name.pieces t.toList).flatMap pieceSegments

theorem Call.mem_segments_iff {call : Call} {segment : String} :
    segment ∈ call.segments ↔ call.Converts segment := by
  cases call with
  | name n => exact List.mem_singleton
  | path p | property p => exact Iff.rfl
  | text t =>
    rw [segments, List.mem_flatMap]
    constructor
    · rintro ⟨piece, mem, inside⟩
      cases piece with
      | plain ch => cases inside
      | reference r => exact ⟨r, reference_mem_pieces_iff.1 mem, inside⟩
    · rintro ⟨r, stands, inside⟩
      exact ⟨.reference r, reference_mem_pieces_iff.2 stands, inside⟩

theorem coe_toFinset_segments (calls : List Call) :
    ((calls.flatMap Call.segments).toFinset : Set String) = {s | ∃ call ∈ calls, call.Converts s} := by
  ext segment
  simp [Call.mem_segments_iff]

/-! ## What a cache holds -/

/-- The cache holds the names of a list, each once and as conversion gives it. -/
structure Holds (c : NameCache) (names : List String) : Prop where
  right : c.Right
  nodup : c.names.keys.Nodup
  mem_keys : ∀ name, name ∈ c.names.keys ↔ name ∈ names

theorem holds_empty : empty.Holds [] := ⟨right_empty, List.nodup_nil, fun _ => Iff.rfl⟩

variable {c : NameCache} {names : List String}

theorem Holds.size_eq (h : c.Holds names) : c.size = names.toFinset.card := by
  have same : c.names.keys.toFinset = names.toFinset := by
    ext name
    rw [List.mem_toFinset, List.mem_toFinset, h.mem_keys]
  have length : c.names.keys.length = c.size := List.length_map _
  rw [← same, List.toFinset_card_of_nodup h.nodup, length]

/-! ## What a call puts into a cache -/

theorem Holds.kebab (h : c.Holds names) (name : String) : (c.kebab name).2.Holds (names ++ [name]) := by
  have right := (kebab_eq h.right name).2
  unfold NameCache.kebab at right ⊢
  cases found : c.names.get? name with
  | some done =>
    have known : name ∈ names := (h.mem_keys name).1 (Table.mem_keys_of_get?_eq_some found)
    refine ⟨h.right, h.nodup, fun other => ?_⟩
    rw [h.mem_keys, List.mem_append, List.mem_singleton]
    exact ⟨.inl, fun either => either.elim id fun same => same ▸ known⟩
  | none =>
    rw [found] at right
    have new : name ∉ c.names.keys := Table.get?_eq_none_iff.1 found
    refine ⟨right, Table.nodup_keys_alter h.nodup _ _, fun other => ?_⟩
    rw [Table.keys_insert, if_neg new, List.mem_append, List.mem_append, h.mem_keys]

theorem Holds.kebabs (h : c.Holds names) (more : List String) :
    (c.kebabs more).2.Holds (names ++ more) := by
  induction more generalizing c names with
  | nil => exact (List.append_nil names).symm ▸ h
  | cons name rest ih =>
    have later := ih (h.kebab name)
    rwa [List.append_assoc] at later

theorem Holds.customProperty (h : c.Holds names) (path : String) :
    (c.customProperty path).2.Holds (names ++ Text.splitOn '.' path) :=
  h.kebabs (Text.splitOn '.' path)

theorem Holds.pieceTexts (h : c.Holds names) (pieces : List Name.Piece) :
    (c.pieceTexts pieces).2.Holds (names ++ pieces.flatMap pieceSegments) := by
  induction pieces generalizing c names with
  | nil => exact (List.append_nil names).symm ▸ h
  | cons piece rest ih =>
    cases piece with
    | plain ch => exact ih h
    | reference r =>
      have later := ih (h.customProperty r.path)
      rwa [List.append_assoc] at later

/-- **What a call puts into a cache** are the segments that it converts. -/
theorem Holds.make (h : c.Holds names) (call : Call) :
    (call.make c).2.Holds (names ++ call.segments) := by
  cases call with
  | name n => exact h.kebab n
  | path p | property p => exact h.kebabs (Text.splitOn '.' p)
  | text t => exact h.pieceTexts (Name.pieces t.toList)

theorem Call.make_eq (h : c.Right) (call : Call) : (call.make c).1 = call.direct := by
  cases call with
  | name n => exact (kebab_eq h n).1
  | path p => exact (kebabPath_eq h p).1
  | property p => exact (customProperty_eq h p).1
  | text t => exact (renderReferences_eq h t).1

/-! ## Sequences of calls -/

theorem Holds.answers (h : c.Holds names) (calls : List Call) (i : Nat) :
    (c.answers calls)[i]? = calls[i]?.map fun call =>
      (call.direct, (names ++ (calls.take (i + 1)).flatMap Call.segments).toFinset.card) := by
  induction calls generalizing c names i with
  | nil => rfl
  | cons call rest ih =>
    have held := h.make call
    cases i with
    | zero => simp [NameCache.answers, call.make_eq h.right, held.size_eq]
    | succ i => simpa [NameCache.answers] using ih held i

/-- **Calls on one cache.** The answer to each call is that without a cache, and after it the cache holds as
many names as there are different segments that the calls so far have converted. -/
theorem answers_empty (calls : List Call) (i : Nat) :
    (empty.answers calls)[i]? = calls[i]?.map fun call =>
      (call.direct, {s | ∃ call ∈ calls.take (i + 1), call.Converts s}.ncard) := by
  rw [holds_empty.answers, List.nil_append, ← coe_toFinset_segments, Set.ncard_coe_finset]

example : empty.answers [.name "primaryDark", .path "color.primaryDark", .property "color.bg"] =
    [("primary-dark", 1), ("color-primary-dark", 2), ("--color-bg", 3)] := by
  decide +kernel

end DesignTokens.NameCache
