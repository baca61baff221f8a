import DesignTokens.Proofs.Css.Strings

/-!
# Names of families

A family is named by an identifier, by a keyword, or by a string. A name with other characters than those of
names, or with a digit in front, gets quotation marks; the others stay.

* `isIdentifier`: an identifier as it is read; `NamesFamily`: a text that is read as a name;
* `trim_trim`, **`quoteFamily_quoteFamily`**: what is written for a name is not changed when written again;
* `isIdentifier_iff`: the names without quotation marks that are identifiers;
* **`quoteFamily_names_iff`**: the text of a name is read as that name exactly if it has no backslash, no line
  end and no null, and is no number behind a hyphen.
-/

namespace DesignTokens

/-! ## What names a family -/

/-- Whether an identifier may begin with the character. -/
def isNameStart (c : Char) : Bool := c.isAlpha || c = '_' || 128 ≤ c.toNat

/-- Whether an identifier begins here. -/
def startsIdentifier : List Char → Bool
  | '-' :: c :: _ => isNameStart c || c = '-'
  | c :: _ => isNameStart c
  | [] => false

/-- Whether the characters are an identifier without escapes. -/
def isIdentifier (cs : List Char) : Bool := startsIdentifier cs && cs.all isNameChar

/-- The text is read as the name of a family: an identifier or a keyword, or a string that holds it. -/
def NamesFamily (text name : String) : Prop :=
  text = name ∧ (isIdentifier name.toList = true ∨ Text.lowerAscii name ∈ genericFamilies) ∨
    stringContent? text.toList = some name.toList

instance (text name : String) : Decidable (NamesFamily text name) :=
  inferInstanceAs (Decidable (_ ∧ _ ∨ _))

/-- Whether there is a first character, and it is no quotation mark. -/
def isBare (name : String) : Bool := name.toList.head?.any fun c => c ≠ '"' && c ≠ '\''

/-- Whether the characters are a hyphen, and behind it nothing or a digit and characters of names. -/
def isHyphenNumber : List Char → Bool
  | '-' :: cs => cs.all isFamilyChar && cs.head?.all Char.isDigit
  | _ => false

/-! ## Writing again -/

theorem trim_eq_self {text : String} (first : ∀ c ∈ text.toList.head?, Text.isBlank c = false)
    (last : ∀ c ∈ text.toList.getLast?, Text.isBlank c = false) : Text.trim text = text := by
  have stays : ∀ cs : List Char, (∀ c ∈ cs.head?, Text.isBlank c = false) →
      cs.dropWhile Text.isBlank = cs := by
    rintro (_ | ⟨c, cs⟩) h
    · rfl
    · exact List.dropWhile_cons_of_neg (by simp [h c rfl])
  rw [← List.head?_reverse] at last
  unfold Text.trim
  rw [stays _ first, stays _ last, List.reverse_reverse, String.ofList_toList]

theorem trim_trim (text : String) : Text.trim (Text.trim text) = Text.trim text := by
  have head : ∀ cs : List Char, ∀ c ∈ (cs.dropWhile Text.isBlank).head?, Text.isBlank c = false := by
    intro cs c hc
    have := List.head?_dropWhile_not Text.isBlank cs
    rw [Option.mem_def.1 hc] at this
    simpa using this
  refine trim_eq_self ?_ ?_
  · intro c hc
    refine head text.toList c ?_
    unfold Text.trim at hc
    rw [String.toList_ofList, List.head?_reverse] at hc
    obtain ⟨front, split⟩ := List.dropWhile_suffix Text.isBlank
      (l := (text.toList.dropWhile Text.isBlank).reverse)
    rw [← List.getLast?_reverse, ← split, List.getLast?_append, hc]
    rfl
  · intro c hc
    unfold Text.trim at hc
    rw [String.toList_ofList, List.getLast?_reverse] at hc
    exact head _ c hc

theorem quoteFamily_trim (text : String) : quoteFamily (Text.trim text) = quoteFamily text := by
  unfold quoteFamily
  rw [trim_trim]

theorem quoteFamily_quoted (cs : List Char) :
    quoteFamily (String.ofList ('"' :: cs ++ ['"'])) = String.ofList ('"' :: cs ++ ['"']) := by
  have stays : Text.trim (String.ofList ('"' :: cs ++ ['"'])) = String.ofList ('"' :: cs ++ ['"']) := by
    have mark : Text.isBlank '"' = false := by decide
    refine trim_eq_self ?_ ?_
    · simp [mark]
    · rw [String.toList_ofList, List.getLast?_append]
      simp [mark]
  unfold quoteFamily
  rw [stays]
  simp

/-- Whether a name gets quotation marks that neither has one in front nor is a keyword. -/
def needsQuotes (cs : List Char) : Bool :=
  cs.any (!isFamilyChar ·) || (cs.head?.map Char.isDigit).getD false

/-- **The text of a name** is the name without the blanks around it, or that between quotation marks. -/
theorem quoteFamily_cases (name : String) :
    (quoteFamily name = Text.trim name ∧ (isBare (Text.trim name) = true →
      Text.lowerAscii (Text.trim name) ∈ genericFamilies ∨
        needsQuotes (Text.trim name).toList = false)) ∨
    (quoteFamily name = String.ofList ('"' :: escapeQuotes (Text.trim name).toList ++ ['"']) ∧
      needsQuotes (Text.trim name).toList = true) := by
  unfold quoteFamily
  simp only
  split_ifs with marked keyword quotes
  · refine .inl ⟨rfl, fun bare => ?_⟩
    simp only [Bool.or_eq_true, decide_eq_true_eq] at marked
    unfold isBare at bare
    rcases marked with mark | mark <;> rw [mark] at bare <;> cases bare
  · exact .inl ⟨rfl, fun _ => .inl keyword⟩
  · exact .inr ⟨rfl, quotes⟩
  · exact .inl ⟨rfl, fun _ => .inr (by simpa [needsQuotes] using quotes)⟩

/-- **Writing again** changes nothing. -/
theorem quoteFamily_quoteFamily (name : String) : quoteFamily (quoteFamily name) = quoteFamily name := by
  rcases quoteFamily_cases name with ⟨same, -⟩ | ⟨quoted, -⟩
  · rw [same, quoteFamily_trim, same]
  · rw [quoted, quoteFamily_quoted]

/-! ## Identifiers -/

section Chars

variable {c : Char}

theorem isNameChar_of_isNameStart (h : isNameStart c = true) : isNameChar c = true := by
  simp only [isNameStart, isNameChar, Char.isAlphanum, Bool.or_eq_true] at h ⊢
  tauto

theorem isNameStart_of_isAlphanumeric (h : Text.isAlphanumeric c = true) :
    isNameStart c = true ∨ c.isDigit = true := by
  have runs : ∀ r ∈ Text.alphanumericRuns,
      128 ≤ r.first ∨ (r.first, r.last) ∈ [(0x30, 0x39), (0x41, 0x5A), (0x61, 0x7A)] := by
    decide +kernel
  obtain ⟨r, hr, covers⟩ := List.any_eq_true.1 h
  simp only [Text.Run.covers, Bool.and_eq_true, decide_eq_true_eq] at covers
  rcases runs r hr with beyond | ascii
  · left
    simp [isNameStart, Nat.le_trans beyond covers.1.1]
  · simp only [List.mem_cons, Prod.mk.injEq, List.not_mem_nil, or_false] at ascii
    exact Text.forall_char_lt (fun c => 0x30 ≤ c.toNat ∧ c.toNat ≤ 0x39 ∨ 0x41 ≤ c.toNat ∧ c.toNat ≤ 0x5A ∨
      0x61 ≤ c.toNat ∧ c.toNat ≤ 0x7A → isNameStart c = true ∨ c.isDigit = true) (b := 128)
      (by decide +kernel) (by omega) (by omega)

theorem isNameStart_of_isFamilyChar (h : isFamilyChar c = true) :
    isNameStart c = true ∨ c.isDigit = true ∨ c = '-' := by
  simp only [isFamilyChar, Bool.or_eq_true, decide_eq_true_eq] at h
  rcases h with (letter | rfl) | rfl
  · exact (isNameStart_of_isAlphanumeric letter).imp_right .inl
  · exact .inr (.inr rfl)
  · exact .inl rfl

theorem isNameStart_of_isDigit (h : c.isDigit = true) : isNameStart c = false := by
  have ascii : c.toNat < 58 := by
    simp only [Char.isDigit, Bool.and_eq_true, decide_eq_true_eq] at h
    exact Nat.lt_succ_of_le (UInt32.le_iff_toNat_le.1 h.2)
  exact Text.forall_char_lt (fun c => c.isDigit = true → isNameStart c = false) (by decide) ascii h

theorem isNameChar_of_isFamilyChar (h : isFamilyChar c = true) : isNameChar c = true := by
  rcases isNameStart_of_isFamilyChar h with start | digit | rfl
  · exact isNameChar_of_isNameStart start
  · simp [isNameChar, Char.isAlphanum, digit]
  · decide

theorem isSteady_eq_false_iff : isSteady c = false ↔ c ∈ unsteady := by simp [isSteady]

theorem isSteady_of_isNameChar (h : isNameChar c = true) : isSteady c = true := by
  have others : ∀ c ∈ unsteady, isNameChar c = false := List.all_iff_forall_prop.1 (by decide)
  by_contra mem
  rw [others c (isSteady_eq_false_iff.1 (by simpa using mem))] at h
  cases h

end Chars

variable {cs : List Char}

theorem isFamilyChar_of_not_needsQuotes (h : needsQuotes cs = false) :
    ∀ c ∈ cs, isFamilyChar c = true := by
  simp only [needsQuotes, Bool.or_eq_false_iff, List.any_eq_false, Bool.not_eq_true', Bool.not_eq_false] at h
  exact h.1

theorem startsIdentifier_of_ne {c : Char} (other : c ≠ '-') :
    startsIdentifier (c :: cs) = isNameStart c := by
  unfold startsIdentifier
  split <;> simp_all

theorem startsIdentifier_hyphen {d : Char} (family : isFamilyChar d = true) :
    startsIdentifier ('-' :: d :: cs) = !d.isDigit := by
  show (isNameStart d || d = '-') = _
  by_cases digit : d.isDigit = true
  · have other : d ≠ '-' := by
      rintro rfl
      cases digit
    simp [isNameStart_of_isDigit digit, digit, other]
  · rcases isNameStart_of_isFamilyChar family with start | same | rfl
    · simp [start, digit]
    · exact absurd same digit
    · rfl

theorem isHyphenNumber_of_ne {c : Char} (other : c ≠ '-') : isHyphenNumber (c :: cs) = false := by
  unfold isHyphenNumber
  split <;> simp_all

/-- **A name without quotation marks** is an identifier unless it is a number behind a hyphen. -/
theorem isIdentifier_iff (ne : cs ≠ []) (h : needsQuotes cs = false) :
    isIdentifier cs = true ↔ isHyphenNumber cs = false := by
  have family := isFamilyChar_of_not_needsQuotes h
  have front := (Bool.or_eq_false_iff.1 h).2
  have all : cs.all isNameChar = true :=
    List.all_eq_true.2 fun c hc => isNameChar_of_isFamilyChar (family c hc)
  rw [isIdentifier, all, Bool.and_true]
  obtain ⟨c, rest, rfl⟩ := List.exists_cons_of_ne_nil ne
  by_cases hyphen : c = '-'
  · subst hyphen
    rcases rest with _ | ⟨d, rest⟩
    · decide
    · have inner : (d :: rest).all isFamilyChar = true :=
        List.all_eq_true.2 fun x hx => family x (List.mem_cons_of_mem _ hx)
      rw [startsIdentifier_hyphen (family d (by simp))]
      simp [isHyphenNumber, inner]
  · have noDigit : c.isDigit = false := front
    have start : isNameStart c = true := by
      simpa [noDigit, hyphen] using isNameStart_of_isFamilyChar (family c List.mem_cons_self)
    rw [startsIdentifier_of_ne hyphen, isHyphenNumber_of_ne hyphen, start]
    simp

/-! ## Names that are read back -/

theorem toList_of_isBare {name : String} (h : isBare name = true) :
    ∃ c cs, name.toList = c :: cs ∧ c ≠ '"' := by
  unfold isBare at h
  cases split : name.toList with
  | nil => simp [split] at h
  | cons c cs =>
    refine ⟨c, cs, rfl, ?_⟩
    rintro rfl
    simp [split] at h

/-- Whether the name is read as it is, with or without quotation marks around it. -/
def isNameable (name : String) : Bool := name.toList.all isSteady && !isHyphenNumber name.toList

theorem head?_of_isHyphenNumber (h : isHyphenNumber cs = true) : cs.head? = some '-' := by
  unfold isHyphenNumber at h
  split at h
  · rfl
  · cases h

theorem isNameable_of_keyword {name : String} (h : Text.lowerAscii name ∈ genericFamilies) :
    isNameable name = true := by
  have words : ∀ word ∈ genericFamilies,
      word.toList.head? ≠ some '-' ∧ word.toList.all isSteady = true := by decide
  have stays : ∀ c ∈ unsteady, c.toLower = c := List.all_iff_forall_prop.1 (by decide)
  have lowered : (Text.lowerAscii name).toList = name.toList.map Char.toLower := by
    rw [Text.lowerAscii, String.toList_map]
  obtain ⟨first, steady⟩ := words _ h
  -- Lower case leaves a hyphen and the unsteady characters as they are, so they would be in the keyword.
  rw [lowered] at first steady
  rw [isNameable, Bool.and_eq_true, List.all_eq_true, Bool.not_eq_true']
  constructor
  · intro c hc
    by_contra mem
    have same := stays c (isSteady_eq_false_iff.1 (Bool.eq_false_iff.2 mem))
    exact mem (same ▸ List.all_eq_true.1 steady _ (List.mem_map_of_mem hc))
  · by_contra number
    refine first ?_
    rw [List.head?_map, head?_of_isHyphenNumber (by simpa using number)]
    rfl

theorem isHyphenNumber_of_needsQuotes (h : needsQuotes cs = true) : isHyphenNumber cs = false := by
  by_contra number
  simp only [Bool.not_eq_false] at number
  unfold isHyphenNumber at number
  split at number
  · rw [Bool.and_eq_true, List.all_eq_true] at number
    rw [needsQuotes, Bool.or_eq_true, List.any_eq_true] at h
    rcases h with ⟨c, hc, special⟩ | digit
    · rcases List.mem_cons.1 hc with rfl | hc
      · exact absurd special (by decide +kernel)
      · simp [number.1 c hc] at special
    · exact absurd digit (by simp)
  · cases number

theorem stringContent?_eq_none {c : Char} (mark : c ≠ '"') (steady : ∀ d ∈ c :: cs, isSteady d = true) :
    stringContent? (c :: cs) = none := by
  rw [stringContent?, preprocess_eq_self steady, StringReader.run_cons]
  simp [StringReader.start, StringReader.next?, mark]

theorem namesFamily_self_iff {name : String} (bare : isBare name = true)
    (plain : needsQuotes name.toList = false) : NamesFamily name name ↔ isNameable name = true := by
  obtain ⟨c, cs, split, mark⟩ := toList_of_isBare bare
  have steady : ∀ d ∈ name.toList, isSteady d = true := fun d hd =>
    isSteady_of_isNameChar (isNameChar_of_isFamilyChar (isFamilyChar_of_not_needsQuotes plain d hd))
  have noString : stringContent? name.toList = none := by
    rw [split] at steady ⊢
    exact stringContent?_eq_none mark steady
  have identifier := isIdentifier_iff (by simp [split]) plain
  have nameable : isNameable name = true ↔ isHyphenNumber name.toList = false := by
    rw [isNameable, List.all_eq_true.2 steady, Bool.true_and, Bool.not_eq_true']
  rw [NamesFamily, noString, nameable, ← identifier]
  constructor
  · rintro (⟨-, found | keyword⟩ | none)
    · exact found
    · exact identifier.2 (nameable.1 (isNameable_of_keyword keyword))
    · cases none
  · exact fun found => .inl ⟨rfl, .inl found⟩

/-- **What is written for a name is read as the name** exactly if it can be. -/
theorem namesFamily_iff {name : String} (bare : isBare (Text.trim name) = true) :
    NamesFamily (quoteFamily name) (Text.trim name) ↔ isNameable (Text.trim name) = true := by
  rcases quoteFamily_cases name with ⟨same, plain⟩ | ⟨quoted, needed⟩
  · rw [same]
    rcases plain bare with keyword | plain
    · exact iff_of_true (.inl ⟨rfl, .inr keyword⟩) (isNameable_of_keyword keyword)
    · exact namesFamily_self_iff bare plain
  · obtain ⟨c, cs, split, mark⟩ := toList_of_isBare bare
    have other : quoteFamily name ≠ Text.trim name := by
      intro same
      have := congrArg String.toList (quoted.symm.trans same)
      rw [String.toList_ofList, split] at this
      exact mark (List.cons.inj this).1.symm
    have string : stringContent? (quoteFamily name).toList = some (Text.trim name).toList ↔
        isNameable (Text.trim name) = true := by
      rw [quoted, String.toList_ofList, stringContent?_escapeQuotes_iff, isNameable,
        isHyphenNumber_of_needsQuotes needed, Bool.not_false, Bool.and_true, List.all_eq_true]
    rw [NamesFamily, string]
    exact or_iff_right fun same => other same.1

/-- **The text of a name**: it is not changed when it is written again, and it is an identifier, a keyword or
a string that is read as the name, unless the name has a backslash, a line end or null or is a number behind
a hyphen. -/
theorem quoteFamily_names_iff (name : String) :
    quoteFamily (quoteFamily name) = quoteFamily name ∧
      (isBare (Text.trim name) = true →
        (NamesFamily (quoteFamily name) (Text.trim name) ↔ isNameable (Text.trim name) = true)) :=
  ⟨quoteFamily_quoteFamily name, namesFamily_iff⟩

/-- A name of two words and marks inside. -/
theorem quoteFamily_names_marked :
    isBare (Text.trim " Fira \"Code\" ") = true ∧
      quoteFamily " Fira \"Code\" " = "\"Fira \\\"Code\\\"\"" ∧
      NamesFamily (quoteFamily " Fira \"Code\" ") (Text.trim " Fira \"Code\" ") := by
  have bare : isBare (Text.trim " Fira \"Code\" ") = true := by decide +kernel
  exact ⟨bare, by decide +kernel, ((quoteFamily_names_iff _).2 bare).2 (by decide +kernel)⟩

/-- A backslash at the end takes the second mark with it, one inside is lost, and a number behind a hyphen is
no identifier. -/
theorem quoteFamily_backslash :
    (isBare (Text.trim "Acme\\") = true ∧ quoteFamily "Acme\\" = "\"Acme\\\"" ∧
      stringContent? (quoteFamily "Acme\\").toList = none ∧
      ¬ NamesFamily (quoteFamily "Acme\\") (Text.trim "Acme\\")) ∧
    (isBare (Text.trim "Ac\\me") = true ∧
      ¬ NamesFamily (quoteFamily "Ac\\me") (Text.trim "Ac\\me")) ∧
    (isBare (Text.trim "-1") = true ∧ quoteFamily "-1" = "-1" ∧
      ¬ NamesFamily (quoteFamily "-1") (Text.trim "-1")) := by
  decide +kernel

end DesignTokens
