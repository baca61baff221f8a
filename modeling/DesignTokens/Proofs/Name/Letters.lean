import DesignTokens.Proofs.Name.Words

/-!
# Characters of custom properties

The name of a custom property has hyphens, the characters of the path that are no separators, and what
lower case makes of capitals: small letters, and characters outside the first 128.

* `mem_kebabChars`, `mem_kebab`: the characters of a name;
* **`mem_customProperty`**: those of a custom property; `notMem_customProperty`: other characters are left
  out if the path has none.
-/

namespace DesignTokens

namespace Name

/-! ## Names -/

/-- A character that is written for one of a name. -/
def WrittenFor (d c : Char) : Prop := isSeparator c = false ∧ (d = c ∨ IsLetterBeyond d)

theorem mem_hyphenate {done : List Char} {d : Char} (h : d ∈ hyphenate done) : d = '-' ∨ d ∈ done := by
  unfold hyphenate at h
  split at h
  · exact .inr h
  · exact List.mem_cons.1 h

theorem mem_kebabChars {cs : List Char} {before : Option Char} {done : List Char} {d : Char}
    (h : d ∈ kebabChars before done cs) : d ∈ done ∨ d = '-' ∨ ∃ c ∈ cs, WrittenFor d c := by
  induction cs generalizing before done with
  | nil => exact .inl h
  | cons c rest ih =>
    have later {done' : List Char} {before' : Option Char}
        (h : d ∈ kebabChars before' done' rest) :
        d ∈ done' ∨ d = '-' ∨ ∃ c' ∈ c :: rest, WrittenFor d c' :=
      (ih h).imp_right (.imp_right fun ⟨c', hc', written⟩ => ⟨c', .tail _ hc', written⟩)
    unfold kebabChars at h
    split at h
    · rcases later h with done | other
      · split at done
        · exact .inl done
        · exact (mem_hyphenate done).symm.imp_right .inl
      · exact .inr other
    · rename_i letter
      have letter : isSeparator c = false := by simpa using letter
      split at h
      · rcases later h with done | other
        · rcases List.mem_append.1 done with lower | done
          · exact .inr (.inr ⟨c, .head _, letter, mem_toLower (List.mem_reverse.1 lower)⟩)
          · split at done
            · exact (mem_hyphenate done).symm.imp_right .inl
            · exact .inl done
        · exact .inr other
      · rcases later h with done | other
        · rcases List.mem_cons.1 done with rfl | done
          · exact .inr (.inr ⟨d, .head _, letter, .inl rfl⟩)
          · exact .inl done
        · exact .inr other

theorem mem_kebab {name : String} {d : Char} (h : d ∈ (kebab name).toList) :
    d = '-' ∨ ∃ c ∈ name.toList, WrittenFor d c := by
  rw [kebab, String.toList_ofList, List.mem_reverse] at h
  rcases mem_kebabChars ((List.dropWhile_sublist _).mem h) with none | written
  · cases none
  · exact written

/-- **The characters of a custom property.** -/
theorem mem_customProperty {path : String} {d : Char} (h : d ∈ (customProperty path).toList) :
    d = '-' ∨ IsLetterBeyond d ∨ d ∈ path.toList ∧ isSeparator d = false ∧ d ≠ '.' := by
  have segment : ∀ t ∈ (Text.splitOn '.' path).map kebab, ∀ d ∈ t.toList,
      d = '-' ∨ IsLetterBeyond d ∨ d ∈ path.toList ∧ isSeparator d = false ∧ d ≠ '.' := by
    intro t ht d hd
    obtain ⟨name, hname, rfl⟩ := List.mem_map.1 ht
    rcases mem_kebab hd with hyphen | ⟨c, hc, letter, rfl | beyond⟩
    · exact .inl hyphen
    · have inside : d ∈ path.toList := Text.join_splitOn '.' path ▸ Text.mem_join hname hc
      have dot : d ≠ '.' := fun same => Text.notMem_of_mem_splitOn hname (same ▸ hc)
      exact .inr (.inr ⟨inside, letter, dot⟩)
    · exact .inr (.inl beyond)
  have joined : ∀ d ∈ (kebabPath path).toList,
      d = '-' ∨ IsLetterBeyond d ∨ d ∈ path.toList ∧ isSeparator d = false ∧ d ≠ '.' := by
    refine Text.join_induction (by simp) (fun ha hb d hd => ?_) (by simp) segment
    rw [String.toList_append, List.mem_append] at hd
    exact hd.elim (ha d) (hb d)
  rw [customProperty, String.toList_append, List.mem_append] at h
  rcases h with hyphen | h
  · exact .inl (by simpa using hyphen)
  · exact joined d h

theorem notMem_customProperty {path : String} {d : Char} (hyphen : d ≠ '-')
    (letter : ¬ IsLetterBeyond d) (h : d ∉ path.toList) : d ∉ (customProperty path).toList := by
  intro mem
  rcases mem_customProperty mem with same | beyond | ⟨inside, -⟩
  · exact hyphen same
  · exact letter beyond
  · exact h inside

end Name

end DesignTokens
