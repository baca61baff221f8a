import DesignTokens.Lint.Diagnostic
import DesignTokens.Proofs.Flat.Trees

/-!
# Paths inside each other

Wherever a tree has a token, it has groups at all shorter paths to it. So the paths of the tokens that
are kept in a context are never inside each other, and a finding is about at most one of them.

* `Inside`: a path leads to a place or to a place below it;
* `hasGroup_of_inside`: the places above a token are groups;
* `covers_iff_inside`: a finding covers the paths above the place that it names;
* **`Mergeable.eq_of_covers`**: a finding about one kept token covers no other one.
-/

namespace DesignTokens

/-- The second path leads to the place of the first one or below it. -/
def Inside (path below : String) : Prop :=
  Text.splitOn '.' path <+: Text.splitOn '.' below

theorem Inside.refl (path : String) : Inside path path := List.prefix_refl _

theorem inside_append (path property : String) : Inside path (path ++ "." ++ property) := by
  refine ⟨Text.splitOn '.' property, ?_⟩
  exact (Text.splitOn_append '.' path property).symm

theorem eq_of_splitOn_eq {p q : String} (h : Text.splitOn '.' p = Text.splitOn '.' q) : p = q := by
  rw [← joinPath_splitOn p, h, joinPath_splitOn]

theorem inside_iff {path below : String} :
    Inside path below ↔ below = path ∨ ∃ property, below = path ++ "." ++ property := by
  constructor
  · rintro ⟨rest, h⟩
    cases rest with
    | nil => exact .inl (eq_of_splitOn_eq (by rw [← h, List.append_nil]))
    | cons s ss =>
      have dotFree : DotFree (s :: ss) := fun p hp =>
        dotFree_splitOn below p (h ▸ List.mem_append_right _ hp)
      refine .inr ⟨joinPath (s :: ss), eq_of_splitOn_eq ?_⟩
      rw [show path ++ "." = path ++ String.singleton '.' from rfl, Text.splitOn_append,
        splitOn_joinPath dotFree (List.cons_ne_nil s ss), h]
  · rintro (rfl | ⟨property, rfl⟩)
    · exact Inside.refl below
    · exact inside_append path property

theorem covers_iff_inside {d : Diagnostic} {path : String} :
    d.covers path = true ↔ Inside path d.path := by
  unfold Diagnostic.covers
  rw [inside_iff]
  constructor
  · intro h
    cases hs : Text.strip? path d.path with
    | none => rw [hs] at h; cases h
    | some rest =>
      rw [hs] at h
      have hd := Text.strip?_eq_some_iff.1 hs
      rcases Bool.or_eq_true_iff.1 h with empty | dot
      · exact .inl (by rw [hd, String.isEmpty_iff.1 empty, String.append_empty])
      · obtain ⟨property, rfl⟩ := Text.startsWith_iff.1 dot
        exact .inr ⟨property, by rw [hd, String.append_assoc]⟩
  · rintro (h | ⟨property, h⟩)
    · rw [Text.strip?_eq_some_iff.2 (show d.path = path ++ "" by rw [h, String.append_empty])]
      rfl
    · have hs : d.path = path ++ ("." ++ property) := by rw [h, String.append_assoc]
      rw [Text.strip?_eq_some_iff.2 hs]
      exact Bool.or_eq_true_iff.2 (.inr (Text.startsWith_iff.2 ⟨property, rfl⟩))

/-! ## The places above a token -/

theorem Node.at?_append (ss rest : List String) : ∀ (inherited : Option TokenType) (n : Node),
    n.at? inherited (ss ++ rest) = (n.at? inherited ss).bind fun m => m.2.at? m.1 rest := by
  induction ss with
  | nil =>
    intro inherited n
    cases n <;> rfl
  | cons s ss ih =>
    intro inherited n
    cases n with
    | token t => rfl
    | group info children =>
      rw [List.cons_append, Node.at?, Node.at?]
      cases Table.find? s children with
      | none => rfl
      | some child => exact ih _ child

theorem childAt?_append (inherited : Option TokenType) (children : List (String × Node)) (s : String)
    (ss rest : List String) :
    childAt? inherited children (s :: ss ++ rest) =
      (childAt? inherited children (s :: ss)).bind fun m => m.2.at? m.1 rest := by
  rw [List.cons_append, childAt?, childAt?]
  cases Table.find? s children with
  | none => rfl
  | some child => exact Node.at?_append ss rest inherited child

/-- **The places above a token are groups.** -/
theorem hasGroup_of_inside {t : Tree} {path below : String} (token : (t.token? below).isSome)
    (inside : Inside path below) (ne : path ≠ below) : t.hasGroup path = true := by
  obtain ⟨rest, h⟩ := inside
  have nonempty : rest ≠ [] := by
    rintro rfl
    exact ne (eq_of_splitOn_eq (by simpa using h))
  unfold Tree.token? Tree.at? at token
  unfold Tree.hasGroup Tree.at?
  cases hp : Text.splitOn '.' path with
  | nil => exact absurd hp (Text.splitOn_ne_nil '.' path)
  | cons s ss =>
    rw [← h, hp, childAt?_append] at token
    cases hm : childAt? none t.tokens.children (s :: ss) with
    | none => rw [hm] at token; cases token
    | some m =>
      obtain ⟨inherited, n⟩ := m
      cases n with
      | group info children => rfl
      | token u =>
        obtain ⟨name, rest, rfl⟩ := List.exists_cons_of_ne_nil nonempty
        rw [hm] at token
        cases token

/-! ## Kept tokens -/

section Mergeable

variable {trees : List Tree} {p q : String}

theorem exists_token?_of_tokensAt_ne_nil (h : tokensAt trees p ≠ []) :
    ∃ t ∈ trees, (t.token? p).isSome := by
  obtain ⟨token, ht⟩ := List.exists_mem_of_ne_nil _ h
  obtain ⟨t, htrees, ht⟩ := List.mem_filterMap.1 ht
  exact ⟨t, htrees, ht ▸ rfl⟩

theorem Mergeable.eq_of_inside (kept : Mergeable trees p) (token : tokensAt trees q ≠ [])
    (inside : Inside p q) : p = q := by
  by_contra ne
  obtain ⟨t, ht, some⟩ := exists_token?_of_tokensAt_ne_nil token
  have group := hasGroup_of_inside some inside ne
  have none := kept.2.1
  rw [groupAt, List.any_eq_false] at none
  exact none t ht group

/-- **A finding about one kept token**, or about a property of it, covers no other one. -/
theorem Mergeable.eq_of_covers {d : Diagnostic} (hp : Mergeable trees p) (hq : Mergeable trees q)
    (about : Inside q d.path) (covers : d.covers p = true) : p = q := by
  rcases List.prefix_or_prefix_of_prefix (covers_iff_inside.1 covers) about with h | h
  · exact hp.eq_of_inside hq.1 h
  · exact (hq.eq_of_inside hp.1 h).symm

end Mergeable

end DesignTokens
