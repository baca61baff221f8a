import DesignTokens.Proofs.Css.Styles
import DesignTokens.Proofs.Name.Words
import Mathlib.Data.List.Chain

/-!
# Names that conversion leaves as they are

A converted name has single hyphens, each between two words. If lower case leaves no capital in a name, as
in every name of ASCII characters, converting it once more cuts it at these hyphens into the same words.

* `Name.isSettled`, `Name.settles`: characters that stay, and those whose lower case does;
* `isSettled_of_mem_cut`, `isSettled_of_mem_kebab`: the characters of words, and of a converted name;
* `cut_intercalate`, `fullWords_join`: words that are cut again; **`kebab_kebab`**: conversion again;
* `HyphensBetween`: hyphens stand alone and between words; **`hyphensBetween_kebab`**;
* **`kebab_stable`**: names of ASCII characters, and the sub-properties of text styles.
-/

namespace DesignTokens.Name

/-! ## Characters that stay -/

/-- Whether conversion leaves a character as it is: it is neither a separator nor a capital. -/
def isSettled (c : Char) : Bool := !isSeparator c && !Text.isUpper c

/-- Whether conversion leaves what it makes of a character as it is. -/
def settles (c : Char) : Bool := !Text.isUpper c || (Text.toLower c).all isSettled

theorem isSettled_iff {c : Char} :
    isSettled c = true ↔ isSeparator c = false ∧ Text.isUpper c = false := by
  simp [isSettled]

theorem isSettled_of_mem_toLower {c d : Char} (h : settles c = true) (capital : Text.isUpper c = true)
    (mem : d ∈ Text.toLower c) : isSettled d = true := by
  rw [settles, capital, Bool.not_true, Bool.false_or] at h
  exact List.all_eq_true.1 h d mem

theorem settles_of_ascii {c : Char} (ascii : c.toNat < 128) : settles c = true :=
  Text.forall_char_lt (fun c => settles c = true) (by decide +kernel) ascii

section Cut

variable {before : Option Char} {word : List Char}

theorem isSettled_of_mem_cut {cs : List Char} (small : ∀ c ∈ cs, settles c = true)
    (settled : ∀ d ∈ word, isSettled d = true) :
    ∀ w ∈ cut before word cs, ∀ d ∈ w, isSettled d = true := by
  induction cs generalizing before word with
  | nil =>
    intro w hw
    rw [cut, List.mem_singleton] at hw
    exact hw ▸ settled
  | cons c rest ih =>
    obtain ⟨own, others⟩ := List.forall_mem_cons.1 small
    unfold cut
    by_cases separator : isSeparator c = true
    · rw [if_pos separator]
      exact List.forall_mem_cons.2 ⟨settled, ih others (by simp)⟩
    · rw [if_neg separator]
      by_cases capital : Text.isUpper c = true
      · rw [if_pos capital]
        have lower : ∀ d ∈ Text.toLower c, isSettled d = true := fun d mem =>
          isSettled_of_mem_toLower own capital mem
        split
        · exact List.forall_mem_cons.2 ⟨settled, ih others lower⟩
        · exact ih others (List.forall_mem_append.2 ⟨settled, lower⟩)
      · rw [if_neg capital]
        have stays : isSettled c = true :=
          isSettled_iff.2 ⟨by simpa using separator, by simpa using capital⟩
        exact ih others (List.forall_mem_append.2 ⟨settled, by simpa using stays⟩)

/-! ## Cutting again -/

theorem cut_append {w : List Char} (settled : ∀ c ∈ w, isSettled c = true) (rest : List Char) :
    ∃ last, cut before word (w ++ rest) = cut last (word ++ w) rest := by
  induction w generalizing before word with
  | nil => exact ⟨before, by simp⟩
  | cons c w ih =>
    obtain ⟨own, others⟩ := List.forall_mem_cons.1 settled
    obtain ⟨letter, small⟩ := isSettled_iff.1 own
    obtain ⟨last, later⟩ := @ih (some c) (word ++ [c]) others
    refine ⟨last, ?_⟩
    rw [List.cons_append, cut, if_neg (by simp [letter]), if_neg (by simp [small]), later]
    simp

/-- **Words with hyphens between them** are cut at the hyphens and nowhere else. -/
theorem cut_intercalate {ws : List (List Char)} (ne : ws ≠ [])
    (settled : ∀ w ∈ ws, ∀ c ∈ w, isSettled c = true) : cut before [] (['-'].intercalate ws) = ws := by
  induction ws generalizing before with
  | nil => exact absurd rfl ne
  | cons w rest ih =>
    obtain ⟨own, others⟩ := List.forall_mem_cons.1 settled
    by_cases alone : rest = []
    · obtain ⟨last, h⟩ := @cut_append before [] w own []
      rw [List.append_nil] at h
      rw [alone, List.intercalate_singleton, h]
      rfl
    · obtain ⟨last, h⟩ := @cut_append before [] w own ('-' :: ['-'].intercalate rest)
      rw [List.intercalate_cons_of_ne_nil alone, List.append_assoc, List.singleton_append, h, cut,
        if_pos (by decide), ih alone others]
      rfl

end Cut

/-! ## Converting again -/

theorem exists_of_mem_fullWords {name w : String} (h : w ∈ fullWords name) :
    ∃ cs ∈ cut none [] name.toList, cs ≠ [] ∧ w = String.ofList cs := by
  obtain ⟨cs, hcs, rfl⟩ := List.mem_map.1 h
  obtain ⟨mem, full⟩ := List.mem_filter.1 hcs
  exact ⟨cs, mem, by simpa using full, rfl⟩

theorem fullWords_join {ws : List String} (full : ∀ w ∈ ws, w.toList ≠ [])
    (settled : ∀ w ∈ ws, ∀ c ∈ w.toList, isSettled c = true) : fullWords (Text.join "-" ws) = ws := by
  by_cases ne : ws = []
  · subst ne
    rfl
  · have again : cut none [] (['-'].intercalate (ws.map String.toList)) = ws.map String.toList :=
      cut_intercalate (by simpa using ne) (by simpa using settled)
    have all : (ws.map String.toList).filter (!·.isEmpty) = ws.map String.toList :=
      List.filter_eq_self.2 (by simpa using full)
    have chars : (Text.join "-" ws).toList = ['-'].intercalate (ws.map String.toList) :=
      String.toList_intercalate
    rw [fullWords, chars, again, all, List.map_map]
    simp [Function.comp_def]

variable {name : String}

theorem isSettled_of_mem_fullWords (small : ∀ c ∈ name.toList, settles c = true) :
    ∀ w ∈ fullWords name, ∀ c ∈ w.toList, isSettled c = true := by
  intro w hw
  obtain ⟨cs, mem, -, rfl⟩ := exists_of_mem_fullWords hw
  rw [String.toList_ofList]
  exact isSettled_of_mem_cut small (by simp) cs mem

/-- **Conversion again** changes nothing. -/
theorem kebab_kebab (small : ∀ c ∈ name.toList, settles c = true) : kebab (kebab name) = kebab name := by
  have full : ∀ w ∈ fullWords name, w.toList ≠ [] := by
    intro w hw
    obtain ⟨cs, -, ne, rfl⟩ := exists_of_mem_fullWords hw
    rwa [String.toList_ofList]
  rw [kebab_eq_fullWords (kebab name), kebab_eq_fullWords name,
    fullWords_join full (isSettled_of_mem_fullWords small)]

/-- A capital without a lower case may be parted from the letter in front of it only then. -/
example : kebab "Aℂ" = "aℂ" ∧ kebab "aℂ" = "a-ℂ" := by decide +kernel

theorem isSettled_of_mem_kebab (small : ∀ c ∈ name.toList, settles c = true) :
    ∀ c ∈ (kebab name).toList, c = '-' ∨ isSettled c = true := by
  have word : ∀ w ∈ fullWords name, ∀ c ∈ w.toList, c = '-' ∨ isSettled c = true :=
    fun w hw c hc => .inr (isSettled_of_mem_fullWords small w hw c hc)
  rw [kebab_eq_fullWords]
  refine Text.join_induction (by simp) (fun ha hb => ?_) (by simp) word
  rw [String.toList_append]
  exact List.forall_mem_append.2 ⟨ha, hb⟩

/-! ## Hyphens -/

/-- Hyphens stand alone, and neither in front nor at the end. -/
structure HyphensBetween (cs : List Char) : Prop where
  first : cs.head? ≠ some '-'
  last : cs.getLast? ≠ some '-'
  alone : cs.IsChain fun c d => c = '-' → d ≠ '-'

theorem hyphensBetween_of_notMem {cs : List Char} (h : '-' ∉ cs) : HyphensBetween cs where
  first hyphen := h (List.mem_of_head? hyphen)
  last hyphen := h (List.mem_of_getLast? hyphen)
  alone := List.Pairwise.isChain <| List.pairwise_of_forall_mem_list fun _ mem _ _ hyphen =>
    absurd (hyphen ▸ mem) h

theorem HyphensBetween.word_append {w cs : List Char} (ne : w ≠ []) (plain : '-' ∉ w) (some' : cs ≠ [])
    (h : HyphensBetween cs) : HyphensBetween (w ++ '-' :: cs) := by
  have own := hyphensBetween_of_notMem plain
  refine ⟨?_, ?_, List.isChain_append.2 ⟨own.alone, List.isChain_cons.2 ⟨?_, h.alone⟩, ?_⟩⟩
  · rw [List.head?_append_of_ne_nil w ne]
    exact own.first
  · rw [List.getLast?_append_cons, List.getLast?_cons_of_ne_nil some']
    exact h.last
  · rintro d hd - rfl
    exact h.first hd
  · rintro c hc - - rfl
    exact absurd hc own.last

theorem intercalate_ne_nil {ws : List (List Char)} (ne : ws ≠ []) (full : ∀ w ∈ ws, w ≠ []) :
    ['-'].intercalate ws ≠ [] := by
  obtain ⟨w, rest, rfl⟩ := List.exists_cons_of_ne_nil ne
  by_cases single : rest = []
  · rw [single, List.intercalate_singleton]
    exact full w List.mem_cons_self
  · rw [List.intercalate_cons_of_ne_nil single]
    simp

theorem hyphensBetween_intercalate {ws : List (List Char)} (full : ∀ w ∈ ws, w ≠ [])
    (plain : ∀ w ∈ ws, '-' ∉ w) : HyphensBetween (['-'].intercalate ws) := by
  induction ws with
  | nil => exact hyphensBetween_of_notMem (by simp)
  | cons w rest ih =>
    rw [List.forall_mem_cons] at full plain
    by_cases single : rest = []
    · rw [single, List.intercalate_singleton]
      exact hyphensBetween_of_notMem plain.1
    · rw [List.intercalate_cons_of_ne_nil single, List.append_assoc]
      exact (ih full.2 plain.2).word_append full.1 plain.1 (intercalate_ne_nil single full.2)

/-- **The hyphens of a converted name** stand alone and between words. -/
theorem hyphensBetween_kebab (name : String) : HyphensBetween (kebab name).toList := by
  have chars : (kebab name).toList = ['-'].intercalate ((cut none [] name.toList).filter (!·.isEmpty)) := by
    rw [kebab_eq_fullWords, fullWords, join_map_ofList, String.toList_ofList]
  rw [chars]
  refine hyphensBetween_intercalate (fun w hw => ?_) fun w hw => ?_
  · simpa using (List.mem_filter.1 hw).2
  · exact notMem_of_mem_cut (by simp) w (List.mem_filter.1 hw).1

/-! ## Names of ASCII characters -/

theorem kebab_typography {key property : String} (listed : (key, property) ∈ typographyProperties) :
    (∀ c ∈ key.toList, c.toNat < 128) ∧ kebab key = property ∧ '.' ∉ property.toList := by
  have all : ∀ p ∈ typographyProperties, p.1.toList.all (fun c => c.toNat < 128) = true ∧
      kebab p.1 = p.2 ∧ '.' ∉ p.2.toList := by
    decide +kernel
  obtain ⟨ascii, converted, dot⟩ := all _ listed
  exact ⟨by simpa using ascii, converted, dot⟩

/-- **Names of ASCII characters** are converted to names without capitals, underscores and blanks, with
single hyphens between words, and converting them again changes nothing. So the sub-properties of text styles
stay, and a reference to one has the custom property of that sub-property. -/
theorem kebab_stable {name : String} (ascii : ∀ c ∈ name.toList, c.toNat < 128) :
    (∀ c ∈ (kebab name).toList, Text.isUpper c = false ∧ c ≠ '_' ∧ c ≠ ' ') ∧
    HyphensBetween (kebab name).toList ∧ kebab (kebab name) = kebab name ∧
    ∀ key property, (key, property) ∈ typographyProperties →
      kebab key = property ∧ kebab property = property ∧
      ∀ path, customProperty (path ++ "." ++ property) = customProperty path ++ "-" ++ property := by
  have small {name : String} (ascii : ∀ c ∈ name.toList, c.toNat < 128) :
      ∀ c ∈ name.toList, settles c = true := fun c hc => settles_of_ascii (ascii c hc)
  refine ⟨fun c hc => ?_, hyphensBetween_kebab name, kebab_kebab (small ascii), ?_⟩
  · rcases isSettled_of_mem_kebab (small ascii) c hc with rfl | stays
    · decide
    · obtain ⟨letter, lower⟩ := isSettled_iff.1 stays
      refine ⟨lower, ?_, ?_⟩ <;> rintro rfl <;> cases letter
  · intro key property listed
    obtain ⟨keyAscii, rfl, dot⟩ := kebab_typography listed
    have stays := kebab_kebab (small keyAscii)
    refine ⟨rfl, stays, fun path => ?_⟩
    rw [customProperty_append dot, stays]

/-- Separators in front, side by side and at the end, and words that a digit or a small letter ends. -/
theorem kebab_stable_mixed :
    (∀ c ∈ "_Big__blueButton 2XL-".toList, c.toNat < 128) ∧
      kebab "_Big__blueButton 2XL-" = "big-blue-button-2-xl" ∧
      kebab "big-blue-button-2-xl" = "big-blue-button-2-xl" ∧
      ("fontSize", "font-size") ∈ typographyProperties ∧
      customProperty ("body" ++ "." ++ "font-size") = customProperty "body" ++ "-" ++ "font-size" := by
  have ascii : ∀ c ∈ "_Big__blueButton 2XL-".toList, c.toNat < 128 := by simp
  have converted : kebab "_Big__blueButton 2XL-" = "big-blue-button-2-xl" := by decide +kernel
  have listed : ("fontSize", "font-size") ∈ typographyProperties := by decide
  obtain ⟨-, -, again, styles⟩ := kebab_stable ascii
  rw [converted] at again
  exact ⟨ascii, converted, again, listed, (styles _ _ listed).2.2 "body"⟩

end DesignTokens.Name
