import DesignTokens.Name
import DesignTokens.Proofs.Text.Pieces
import Mathlib.Data.List.Induction

/-!
# Words of names

A custom property keeps of a path the words of its segments and their order, and nothing else: neither
where a segment ends, nor by what two words are parted, nor which letters are capitals.

* `Name.cut`, `Name.words`: the words of a name in lower case; `Name.pathWords`: those of all segments of
  a path;
* `IsLetterBeyond`: what lower case may bring; **`mem_toLower`**, `toLower_plain`;
* `kebabChars_eq`: what is written behind the words that are complete and the one under way;
  **`kebab_eq`**: a name is converted to its words;
* **`kebab_eq_kebab_iff`**, `property_injective`: names, and custom properties, that are written alike have
  the same words; **`customProperty_eq`**, `customProperty_append_kebab`: those of paths and of parts.
-/

namespace DesignTokens

namespace Name

/-- The words of a text in lower case, those without characters included. `before` is the preceding
character, and `word` is what the first word has in front of the text. -/
def cut (before : Option Char) (word : List Char) : List Char → List (List Char)
  | [] => [word]
  | c :: rest =>
    if isSeparator c then word :: cut (some '-') [] rest
    else if Text.isUpper c then
      if endsWord before then word :: cut (some c) (Text.toLower c) rest
      else cut (some c) (word ++ Text.toLower c) rest
    else cut (some c) (word ++ [c]) rest

/-- The words that have characters. -/
def fullWords (name : String) : List String :=
  ((cut none [] name.toList).filter (!·.isEmpty)).map String.ofList

/-- The words of a name in lower case: what stands between underscores, blanks and hyphens, cut in front
of a capital behind a small letter or a digit. A name of separators alone has one empty word. -/
def words (name : String) : List String :=
  if fullWords name = [] then [""] else fullWords name

/-- The words of all segments of a path. -/
def pathWords (path : String) : List String := (Text.splitOn '.' path).flatMap words

/-! ## Lower case -/

/-- A small basic letter, or a character outside the first 128. -/
def IsLetterBeyond (c : Char) : Prop := 97 ≤ c.toNat ∧ c.toNat ≤ 122 ∨ 128 ≤ c.toNat

instance (c : Char) : Decidable (IsLetterBeyond c) :=
  inferInstanceAs (Decidable (97 ≤ c.toNat ∧ c.toNat ≤ 122 ∨ 128 ≤ c.toNat))

theorem shift_bounds : ∀ s ∈ Text.lowerShifts,
    (97 ≤ (s.run.first : Int) + s.distance ∧ (s.run.last : Int) + s.distance ≤ 122) ∨
      128 ≤ (s.run.first : Int) + s.distance ∧ ((s.run.last : Int) + s.distance < 0xD800 ∨
        0xDFFF < (s.run.first : Int) + s.distance ∧ (s.run.last : Int) + s.distance < 0x110000) := by
  decide +kernel

/-- **Lower case** brings letters only. -/
theorem mem_toLower {c d : Char} (h : d ∈ Text.toLower c) : d = c ∨ IsLetterBeyond d := by
  unfold Text.toLower at h
  split at h
  · refine .inr ?_
    rcases List.mem_cons.1 h with rfl | h
    · decide
    · rw [List.mem_singleton.1 h]
      decide
  · split at h
    · rename_i s found
      have bounds := shift_bounds s (List.mem_of_find?_eq_some found)
      have covers : s.run.covers c.toNat = true :=
        List.find?_some (p := fun s : Text.Shift => s.run.covers c.toNat) found
      simp only [Text.Run.covers, Bool.and_eq_true, decide_eq_true_eq] at covers
      obtain rfl := List.mem_singleton.1 h
      have valid : ((c.toNat : Int) + s.distance).toNat.isValidChar := by
        unfold Nat.isValidChar
        omega
      have point : (Char.ofNat ((c.toNat : Int) + s.distance).toNat).toNat =
          ((c.toNat : Int) + s.distance).toNat := by
        rw [Char.ofNat, dif_pos valid]
        rfl
      refine .inr ?_
      unfold IsLetterBeyond
      omega
    · exact .inl (List.mem_singleton.1 h)

theorem toLower_plain {c : Char} (h : c ≠ '-') : Text.toLower c ≠ [] ∧ '-' ∉ Text.toLower c := by
  refine ⟨?_, fun mem => ?_⟩
  · unfold Text.toLower
    repeat' split
    all_goals exact List.cons_ne_nil _ _
  · rcases mem_toLower mem with same | letter
    · exact h same.symm
    · exact absurd letter (by decide)

/-! ## The words as they are written -/

section Kebab

variable {before : Option Char} {word : List Char} {done : List (List Char)}

/-- Complete words, each with a hyphen behind it. -/
def hyphenated (done : List (List Char)) : List Char := done.flatMap (· ++ ['-'])

theorem hyphenated_append_singleton : hyphenated (done ++ [word]) = hyphenated done ++ word ++ ['-'] := by
  simp [hyphenated]

theorem intercalate_append_singleton :
    ['-'].intercalate (done ++ [word]) = hyphenated done ++ word := by
  induction done with
  | nil => simp [hyphenated]
  | cons first rest ih =>
    rw [List.cons_append, List.intercalate_cons_of_ne_nil (by simp), ih]
    simp [hyphenated]

theorem dropWhile_of_plain (ne : word ≠ []) (plain : '-' ∉ word) (l : List Char) :
    (word.reverse ++ l).dropWhile (· = '-') = word.reverse ++ l := by
  cases word using List.reverseRecOn with
  | nil => exact absurd rfl ne
  | append_singleton front last =>
    have other : last ≠ '-' := by
      rintro rfl
      simp at plain
    simp [other]

theorem hyphenate_of_plain (ne : word ≠ []) (plain : '-' ∉ word) (l : List Char) :
    hyphenate (word.reverse ++ l) = '-' :: (word.reverse ++ l) := by
  cases word using List.reverseRecOn with
  | nil => exact absurd rfl ne
  | append_singleton front last =>
    have other : last ≠ '-' := by
      rintro rfl
      simp at plain
    simp [hyphenate, other]

theorem hyphenate_hyphenated :
    (if (hyphenated done).reverse.isEmpty then (hyphenated done).reverse
      else hyphenate (hyphenated done).reverse) = (hyphenated done).reverse := by
  cases done using List.reverseRecOn with
  | nil => rfl
  | append_singleton front last =>
    rw [hyphenated_append_singleton]
    simp [hyphenate]

theorem hyphenate_word (ne : word ≠ []) (plain : '-' ∉ word) :
    hyphenate (word.reverse ++ (hyphenated done).reverse) = (hyphenated (done ++ [word])).reverse := by
  rw [hyphenate_of_plain ne plain, hyphenated_append_singleton]
  simp

theorem dropWhile_written (complete : ∀ w ∈ done, w ≠ [] ∧ '-' ∉ w) (plain : '-' ∉ word) :
    ((word.reverse ++ (hyphenated done).reverse).dropWhile (· = '-')).reverse =
      ['-'].intercalate (done ++ [word].filter (!·.isEmpty)) := by
  by_cases empty : word = []
  · subst empty
    cases done using List.reverseRecOn with
    | nil => rfl
    | append_singleton front last =>
      obtain ⟨ne, plainLast⟩ := complete last (by simp)
      have cutEnd := dropWhile_of_plain ne plainLast (hyphenated front).reverse
      rw [List.filter_cons_of_neg (by simp), List.filter_nil, List.append_nil,
        intercalate_append_singleton, hyphenated_append_singleton]
      simp only [List.reverse_nil, List.nil_append, List.reverse_append, List.reverse_singleton,
        List.singleton_append, List.dropWhile_cons, decide_true, if_true]
      rw [cutEnd]
      simp
  · rw [dropWhile_of_plain empty plain, List.filter_cons_of_pos (by simpa using empty),
      List.filter_nil, intercalate_append_singleton]
    simp

/-- **What is written** behind complete words and the one under way, without a hyphen at the end, are the
complete words and those of the text. -/
theorem kebabChars_eq {cs : List Char} (complete : ∀ w ∈ done, w ≠ [] ∧ '-' ∉ w)
    (plain : '-' ∉ word) (ends : endsWord before = true → word ≠ []) :
    ((kebabChars before (word.reverse ++ (hyphenated done).reverse) cs).dropWhile (· = '-')).reverse =
      ['-'].intercalate (done ++ (cut before word cs).filter (!·.isEmpty)) := by
  -- the words that are complete grow while the text becomes shorter
  induction cs generalizing before word done with
  | nil => exact dropWhile_written complete plain
  | cons c rest ih =>
    have finished : word ≠ [] → ∀ w ∈ done ++ [word], w ≠ [] ∧ '-' ∉ w := by
      intro ne w hw
      rcases List.mem_append.1 hw with hw | hw
      · exact complete w hw
      · exact List.mem_singleton.1 hw ▸ ⟨ne, plain⟩
    have joined : ∀ more, done ++ word :: more = done ++ [word] ++ more := by simp
    have grown : ∀ more : List Char, more.reverse ++ (word.reverse ++ (hyphenated done).reverse) =
        (word ++ more).reverse ++ (hyphenated done).reverse := by simp
    unfold kebabChars cut
    by_cases separator : isSeparator c = true
    · rw [if_pos separator, if_pos separator]
      by_cases empty : word = []
      · subst empty
        rw [List.filter_cons_of_neg (by simp), List.reverse_nil, List.nil_append, hyphenate_hyphenated]
        exact ih complete (by simp : '-' ∉ ([] : List Char)) (by decide)
      · rw [List.filter_cons_of_pos (by simpa using empty), joined, hyphenate_word empty plain,
          if_neg (by simp [empty])]
        exact ih (finished empty) (by simp : '-' ∉ ([] : List Char)) (by decide)
    · have other : c ≠ '-' := by
        rintro rfl
        exact separator rfl
      rw [if_neg separator, if_neg separator]
      by_cases capital : Text.isUpper c = true
      · obtain ⟨some, plainLower⟩ := toLower_plain other
        rw [if_pos capital, if_pos capital]
        by_cases ended : endsWord before = true
        · have empty := ends ended
          simp only [ended, if_true]
          rw [List.filter_cons_of_pos (by simpa using empty), joined, hyphenate_word empty plain]
          exact ih (finished empty) plainLower fun _ => some
        · simp only [ended, Bool.false_eq_true, if_false]
          rw [grown]
          exact ih complete (by simp [plain, plainLower]) fun _ => by simp [some]
      · rw [if_neg capital, if_neg capital]
        have one := grown [c]
        rw [List.reverse_singleton, List.singleton_append] at one
        rw [one]
        exact ih complete (by simp [plain, Ne.symm other]) fun _ => by simp

theorem notMem_of_mem_cut {cs : List Char} (plain : '-' ∉ word) :
    ∀ w ∈ cut before word cs, '-' ∉ w := by
  induction cs generalizing before word with
  | nil =>
    intro w hw
    rw [cut, List.mem_singleton] at hw
    exact hw ▸ plain
  | cons c rest ih =>
    unfold cut
    by_cases separator : isSeparator c = true
    · rw [if_pos separator]
      exact List.forall_mem_cons.2 ⟨plain, ih (by simp)⟩
    · have other : c ≠ '-' := by
        rintro rfl
        exact separator rfl
      rw [if_neg separator]
      split
      · obtain ⟨-, plainLower⟩ := toLower_plain other
        split
        · exact List.forall_mem_cons.2 ⟨plain, ih plainLower⟩
        · exact ih (by simp [plain, plainLower])
      · exact ih (by simp [plain, Ne.symm other])

end Kebab

/-! ## Names and paths -/

theorem words_ne_nil (name : String) : words name ≠ [] := by
  unfold words
  split
  · exact List.cons_ne_nil _ _
  · assumption

theorem notMem_of_mem_words {name w : String} (h : w ∈ words name) : '-' ∉ w.toList := by
  unfold words at h
  split at h
  · rw [List.mem_singleton.1 h]
    decide
  · obtain ⟨cs, hcs, rfl⟩ := List.mem_map.1 h
    rw [String.toList_ofList]
    exact notMem_of_mem_cut (by simp : '-' ∉ ([] : List Char)) cs (List.mem_filter.1 hcs).1

theorem join_map_ofList (ws : List (List Char)) :
    Text.join "-" (ws.map String.ofList) = String.ofList (['-'].intercalate ws) := by
  apply String.toList_injective
  rw [Text.join, String.toList_intercalate, String.toList_ofList, List.map_map]
  simp [Function.comp_def]

theorem kebab_eq_fullWords (name : String) : kebab name = Text.join "-" (fullWords name) := by
  have written := @kebabChars_eq none [] [] name.toList (by simp) (by simp) (by simp [endsWord])
  rw [fullWords, join_map_ofList]
  exact congrArg String.ofList written

/-- **A name is converted to its words**, with hyphens between them. -/
theorem kebab_eq (name : String) : kebab name = Text.join "-" (words name) := by
  rw [kebab_eq_fullWords]
  unfold words
  split
  · rename_i none
    rw [none]
    rfl
  · rfl

theorem kebab_eq_kebab_iff {name name' : String} : kebab name = kebab name' ↔ words name = words name' := by
  constructor
  · intro h
    rw [kebab_eq, kebab_eq] at h
    have plain : ∀ {n : String}, ∀ w ∈ words n, '-' ∉ w.toList := fun _ => notMem_of_mem_words
    exact Text.join_injective plain plain (words_ne_nil name) (words_ne_nil name') h
  · intro h
    rw [kebab_eq, kebab_eq, h]

theorem pathWords_ne_nil (path : String) : pathWords path ≠ [] := by
  obtain ⟨segment, rest, split⟩ := List.exists_cons_of_ne_nil (Text.splitOn_ne_nil '.' path)
  rw [pathWords, split, List.flatMap_cons]
  simp [words_ne_nil]

theorem notMem_of_mem_pathWords {path w : String} (h : w ∈ pathWords path) : '-' ∉ w.toList := by
  obtain ⟨segment, -, h⟩ := List.mem_flatMap.1 h
  exact notMem_of_mem_words h

theorem join_map_kebab (names : List String) :
    Text.join "-" (names.map kebab) = Text.join "-" (names.flatMap words) := by
  induction names with
  | nil => rfl
  | cons name rest ih =>
    cases rest with
    | nil => simp [Text.join, kebab_eq]
    | cons name' rest =>
      have more : (name' :: rest).flatMap words ≠ [] := by simp [words_ne_nil]
      rw [List.map_cons, List.flatMap_cons, Text.join, Text.join,
        String.intercalate_append_of_ne_nil (words_ne_nil name) more, List.map_cons,
        String.intercalate_cons_cons, ← List.map_cons]
      rw [Text.join, Text.join] at ih
      rw [ih, kebab_eq, Text.join]

/-- **A path is converted to the words of its segments.** -/
theorem customProperty_eq (path : String) :
    customProperty path = "--" ++ Text.join "-" (pathWords path) := by
  unfold customProperty kebabPath pathWords
  rw [join_map_kebab]

theorem customProperty_append_kebab (path part : String) :
    customProperty path ++ "-" ++ kebab part = "--" ++ Text.join "-" (pathWords path ++ words part) := by
  rw [customProperty_eq, kebab_eq, Text.join, Text.join, Text.join,
    String.intercalate_append_of_ne_nil (pathWords_ne_nil path) (words_ne_nil part)]
  simp only [String.append_assoc]

theorem property_injective {ws ws' : List String} (plain : ∀ w ∈ ws, '-' ∉ w.toList)
    (plain' : ∀ w ∈ ws', '-' ∉ w.toList) (ne : ws ≠ []) (ne' : ws' ≠ [])
    (h : "--" ++ Text.join "-" ws = "--" ++ Text.join "-" ws') : ws = ws' :=
  Text.join_injective plain plain' ne ne' (by simpa using h)

end Name

end DesignTokens
