import DesignTokens.Name

/-!
# Names converted once

A cache that holds right names gives what conversion gives, and holds right names afterwards: names are
only put into it as they are converted.

* `NameCache.Right`: every entry is the converted name; `right_empty`;
* `NameCache.kebab_eq`, `NameCache.kebabs_eq`, `NameCache.kebabPath_eq`, `NameCache.customProperty_eq`,
  `NameCache.pieceTexts_eq`: one lookup after the other;
* **`NameCache.renderReferences_eq`**: a text with its references replaced, with the names of a cache or
  without.
-/

namespace DesignTokens.NameCache

/-- What is held for a name is the converted name. -/
def Right (c : NameCache) : Prop := ∀ name done, c.names.get? name = some done → done = Name.kebab name

theorem right_empty : empty.Right := fun _ _ h => by cases h

variable {c : NameCache}

theorem Right.insert (h : c.Right) (name : String) :
    Right ⟨c.names.insert name (Name.kebab name)⟩ := by
  intro other done found
  by_cases same : other = name
  · subst same
    rw [Table.get?_insert_self] at found
    exact (Option.some.inj found).symm
  · rw [Table.get?_insert_of_ne same] at found
    exact h other done found

theorem kebab_eq (h : c.Right) (name : String) :
    (c.kebab name).1 = Name.kebab name ∧ (c.kebab name).2.Right := by
  unfold kebab
  cases found : c.names.get? name with
  | some done => exact ⟨h name done found, h⟩
  | none => exact ⟨rfl, h.insert name⟩

theorem kebabs_eq (h : c.Right) (names : List String) :
    (c.kebabs names).1 = names.map Name.kebab ∧ (c.kebabs names).2.Right := by
  induction names generalizing c with
  | nil => exact ⟨rfl, h⟩
  | cons name rest ih =>
    obtain ⟨first, right⟩ := kebab_eq h name
    obtain ⟨later, right⟩ := ih right
    exact ⟨congr (congrArg List.cons first) later, right⟩

theorem kebabPath_eq (h : c.Right) (path : String) :
    (c.kebabPath path).1 = Name.kebabPath path ∧ (c.kebabPath path).2.Right := by
  obtain ⟨segments, right⟩ := kebabs_eq h (Text.splitOn '.' path)
  exact ⟨congrArg (Text.join "-") segments, right⟩

theorem customProperty_eq (h : c.Right) (path : String) :
    (c.customProperty path).1 = Name.customProperty path ∧ (c.customProperty path).2.Right := by
  obtain ⟨name, right⟩ := kebabPath_eq h path
  exact ⟨congrArg ("--" ++ ·) name, right⟩

theorem pieceTexts_eq (h : c.Right) (pieces : List Name.Piece) :
    (c.pieceTexts pieces).1 = pieces.map Name.Piece.text ∧ (c.pieceTexts pieces).2.Right := by
  induction pieces generalizing c with
  | nil => exact ⟨rfl, h⟩
  | cons piece rest ih =>
    cases piece with
    | plain ch =>
      obtain ⟨later, right⟩ := ih h
      exact ⟨congrArg (List.cons _) later, right⟩
    | reference r =>
      obtain ⟨property, right⟩ := customProperty_eq h r.path
      obtain ⟨later, right⟩ := ih right
      exact ⟨congr (congrArg (List.cons ∘ Name.use) property) later, right⟩

/-- **A text with its references replaced**, with the names of a cache or without. -/
theorem renderReferences_eq (h : c.Right) (text : String) :
    (c.renderReferences text).1 = Name.renderReferences text ∧ (c.renderReferences text).2.Right := by
  obtain ⟨texts, right⟩ := pieceTexts_eq h (Name.pieces text.toList)
  exact ⟨congrArg String.join texts, right⟩

end DesignTokens.NameCache
