import DesignTokens.Json.Raw
import DesignTokens.Lint.Scalar
import DesignTokens.Proofs.Css.Grammar

/-!
# Strings in quotation marks

A stylesheet is read after its line ends are made line feeds and null is replaced. A string then goes from a
quotation mark to the next one, and no line may end in it. A backslash with up to six hexadecimal digits is
the character of that number, a backslash at the end of a line is left out with it, and any other backslash
stands before a character that is taken as it is.

* `preprocess`: what is done first; `isSteady`: a character that is left as it is;
  `preprocess_escapeQuotes`: the escapes of marks are not touched;
* `StringReader`, `StringReader.next?`: a reader of one string; `stringContent?`: what the string holds;
* `StringReader.size`, `size_run_le`: a character between the marks adds one character at most;
* **`length_lt_of_backslash`**: a backslash that is not escaped loses one;
* **`stringContent?_escapeQuotes_iff`**: characters are read back from between the marks exactly if there is
  no backslash, no line end and no null among them.
-/

namespace DesignTokens

variable {c : Char} {cs ds : List Char}

/-! ## Before the reading -/

/-- What the reader gets for a character. -/
def readAs (c : Char) : Char := if isLineEnd c then '\n' else if c = '\x00' then '\ufffd' else c

/-- What the reader gets for some characters; a carriage return with a line feed is one line end. -/
def preprocess : List Char → List Char
  | [] => []
  | c :: cs => if c = '\r' ∧ cs.head? = some '\n' then preprocess cs else readAs c :: preprocess cs

/-- The characters that are replaced before the reading, or have a meaning in a string. -/
def unsteady : List Char := ['\\', '\n', '\r', '\x0c', '\x00']

/-- Whether the reader gets the character as it is, and goes on behind it. -/
def isSteady (c : Char) : Bool := c ∉ unsteady

theorem readAs_eq_self (h : isSteady c = true) : readAs c = c := by
  simp only [isSteady, unsteady, decide_eq_true_eq, List.mem_cons, List.not_mem_nil, or_false, not_or] at h
  simp [readAs, isLineEnd, h]

theorem preprocess_eq_self (h : ∀ c ∈ cs, isSteady c = true) : preprocess cs = cs := by
  induction cs with
  | nil => rfl
  | cons c cs ih =>
    obtain ⟨steady, rest⟩ := List.forall_mem_cons.1 h
    have noReturn : ¬ (c = '\r' ∧ cs.head? = some '\n') := by
      rintro ⟨rfl, -⟩
      exact absurd steady (by decide)
    rw [preprocess, if_neg noReturn, readAs_eq_self steady, ih rest]

theorem mem_preprocess (h : c ∈ preprocess cs) : c = '\n' ∨ isLineEnd c = false ∧ c ≠ '\x00' := by
  induction cs with
  | nil => cases h
  | cons d cs ih =>
    rw [preprocess] at h
    split_ifs at h with pair
    · exact ih h
    rcases List.mem_cons.1 h with rfl | h
    · rw [readAs]
      split_ifs with line null
      · exact .inl rfl
      · exact .inr ⟨by decide, by decide⟩
      · exact .inr ⟨by simpa using line, null⟩
    · exact ih h

theorem length_preprocess_le (cs : List Char) : (preprocess cs).length ≤ cs.length := by
  induction cs with
  | nil => exact Nat.le_refl _
  | cons c cs ih =>
    rw [preprocess]
    split_ifs
    · exact Nat.le_succ_of_le ih
    · exact Nat.succ_le_succ ih

theorem backslash_mem_preprocess : '\\' ∈ preprocess cs ↔ '\\' ∈ cs := by
  induction cs with
  | nil => rfl
  | cons c cs ih =>
    have same : '\\' = readAs c ↔ '\\' = c := by
      unfold readAs
      split_ifs with line null
      · exact ⟨fun h => absurd h (by decide), fun h => absurd line (h ▸ by decide)⟩
      · exact ⟨fun h => absurd h (by decide), fun h => absurd null (h ▸ by decide)⟩
      · rfl
    rw [preprocess]
    split_ifs with pair
    · rw [ih, pair.1]
      simp
    · rw [List.mem_cons, List.mem_cons, ih, same]

theorem escapeQuotes_mark : escapeQuotes ('"' :: cs) = '\\' :: '"' :: escapeQuotes cs := rfl

theorem escapeQuotes_other (h : c ≠ '"') : escapeQuotes (c :: cs) = c :: escapeQuotes cs := by
  rw [escapeQuotes, List.flatMap_cons, if_neg h]
  rfl

theorem escapeQuotes_append : escapeQuotes (cs ++ ds) = escapeQuotes cs ++ escapeQuotes ds :=
  List.flatMap_append

theorem head?_escapeQuotes :
    (escapeQuotes cs ++ ['"']).head? = some '\n' ↔ cs.head? = some '\n' := by
  cases cs with
  | nil => decide
  | cons c cs =>
    by_cases mark : c = '"'
    · simp [mark, escapeQuotes_mark]
    · simp [escapeQuotes_other mark]

/-- **The escapes of marks** stay what they are. -/
theorem preprocess_escapeQuotes :
    preprocess (escapeQuotes cs ++ ['"']) = escapeQuotes (preprocess cs) ++ ['"'] := by
  induction cs with
  | nil => decide
  | cons c cs ih =>
    by_cases mark : c = '"'
    · subst mark
      simp only [escapeQuotes_mark, List.cons_append, preprocess, ih]
      rfl
    · rw [escapeQuotes_other mark, List.cons_append, preprocess, preprocess, ih]
      simp only [head?_escapeQuotes]
      split_ifs with pair
      · rfl
      · have kept : readAs c ≠ '"' := by
          rw [readAs]
          split_ifs
          · decide
          · decide
          · exact mark
        rw [escapeQuotes_other kept, List.cons_append]

/-! ## The reader -/

/-- Where a reader stands in a string. -/
inductive StringSpot where
  /-- Before the mark. -/
  | start
  /-- Between the marks. -/
  | inside
  /-- Behind a backslash. -/
  | escape
  /-- Behind a backslash and some hexadecimal digits. -/
  | digits (before : List Char)
  /-- Behind the second mark. -/
  | closed
  deriving DecidableEq, Repr

/-- A reader of one string. -/
structure StringReader where
  /-- What the string holds so far. -/
  content : List Char
  spot : StringSpot
  deriving DecidableEq, Repr

/-- The character whose number has these hexadecimal digits. -/
def numbered (digits : List Char) : Char :=
  let n := digits.foldl (fun n d => n * 16 + (Json.Raw.hexValue? d).getD 0) 0
  if n ≠ 0 ∧ n.isValidChar then Char.ofNat n else '\ufffd'

namespace StringReader

/-- Nothing is read. -/
def start : StringReader := ⟨[], .start⟩

/-- The reader behind a character between the marks. -/
def inside? (content : List Char) (c : Char) : Option StringReader :=
  if c = '"' then some ⟨content, .closed⟩
  else if c = '\\' then some ⟨content, .escape⟩
  else if c = '\n' then none
  else some ⟨content ++ [c], .inside⟩

/-- The reader behind a character, if the character may stand there. -/
def next? (r : StringReader) (c : Char) : Option StringReader :=
  match r.spot with
  | .start => if c = '"' then some ⟨[], .inside⟩ else none
  | .inside => inside? r.content c
  | .escape =>
    if isHexDigit c then some ⟨r.content, .digits [c]⟩
    else if c = '\n' then some ⟨r.content, .inside⟩
    else some ⟨r.content ++ [c], .inside⟩
  | .digits before =>
    if isHexDigit c && before.length < 6 then some ⟨r.content, .digits (before ++ [c])⟩
    else if c ∈ ['\n', '\t', ' '] then some ⟨r.content ++ [numbered before], .inside⟩
    else inside? (r.content ++ [numbered before]) c
  | .closed => none

/-- The reader behind some characters. -/
def run (r : StringReader) (cs : List Char) : Option StringReader := cs.foldlM next? r

end StringReader

/-- What is held by a string that is the whole text. -/
def stringContent? (cs : List Char) : Option (List Char) :=
  match StringReader.start.run (preprocess cs) with
  | some ⟨content, .closed⟩ => some content
  | _ => none

namespace StringReader

variable {r r' : StringReader}

theorem run_cons : r.run (c :: cs) = (r.next? c).bind fun r => r.run cs :=
  List.foldlM_cons

theorem run_append : r.run (cs ++ ds) = (r.run cs).bind fun r => r.run ds :=
  List.foldlM_append

/-! ## How much is read -/

/-- The characters that the string holds, one for the digits counted in. -/
def size (r : StringReader) : Nat :=
  match r.spot with
  | .digits _ => r.content.length + 1
  | _ => r.content.length

theorem size_inside?_le {content : List Char} (h : inside? content c = some r) :
    r.size ≤ content.length + 1 := by
  unfold inside? at h
  split_ifs at h <;> cases h <;> simp [size]

/-- **One character** makes a string longer by one at most. -/
theorem size_next?_le (h : r.next? c = some r') : r'.size ≤ r.size + 1 := by
  obtain ⟨content, spot⟩ := r
  cases spot with
  | start =>
    simp only [next?] at h
    split_ifs at h
    cases h
    simp [size]
  | inside => exact size_inside?_le h
  | escape =>
    simp only [next?] at h
    split_ifs at h <;> cases h <;> simp [size]
  | digits before =>
    simp only [next?] at h
    split_ifs at h
    · cases h
      simp [size]
    · cases h
      simp [size]
    · simpa [size] using size_inside?_le h
  | closed => cases h

theorem size_run_mark_le (h : r.run ['\\', '"'] = some r') : r'.size ≤ r.size + 1 := by
  obtain ⟨content, spot⟩ := r
  have backslash : isHexDigit '\\' = false := by decide
  have quote : isHexDigit '"' = false := by decide
  cases spot with
  | start | closed => cases h
  | inside =>
    simp [run, next?, inside?, quote] at h
    simp [← h, size]
  | escape =>
    simp [run, next?, inside?, backslash] at h
    simp [← h, size]
  | digits before =>
    simp [run, next?, inside?, backslash, quote] at h
    simp [← h, size]

/-- **What is between the marks** makes a string as long as it was before, at most. -/
theorem size_run_le (h : r.run (escapeQuotes cs) = some r') : r'.size ≤ r.size + cs.length := by
  induction cs generalizing r with
  | nil =>
    cases h
    exact Nat.le_refl _
  | cons c cs ih =>
    have one : ∃ mid : StringReader, mid.size ≤ r.size + 1 ∧ mid.run (escapeQuotes cs) = some r' := by
      by_cases mark : c = '"'
      · subst mark
        rw [escapeQuotes_mark, show '\\' :: '"' :: escapeQuotes cs = ['\\', '"'] ++ escapeQuotes cs from rfl,
          run_append] at h
        obtain ⟨mid, first, rest⟩ := Option.bind_eq_some_iff.1 h
        exact ⟨mid, size_run_mark_le first, rest⟩
      · rw [escapeQuotes_other mark, run_cons] at h
        obtain ⟨mid, first, rest⟩ := Option.bind_eq_some_iff.1 h
        exact ⟨mid, size_next?_le first, rest⟩
    obtain ⟨mid, first, rest⟩ := one
    have all := ih rest
    rw [List.length_cons]
    omega

theorem length_of_closed (h : r.run ['"'] = some ⟨cs, .closed⟩) : cs.length = r.size := by
  obtain ⟨content, spot⟩ := r
  have quote : isHexDigit '"' = false := by decide
  cases spot with
  | start | closed => cases h
  | inside =>
    simp [run, next?, inside?] at h
    simp [← h, size]
  | escape => simp [run, next?, quote] at h
  | digits before =>
    simp [run, next?, inside?, quote] at h
    simp [← h, size]

/-! ## What is read -/

theorem run_inside (plain : '\\' ∉ ds) : run ⟨cs, .inside⟩ (escapeQuotes ds) =
    if '\n' ∈ ds then none else some ⟨cs ++ ds, .inside⟩ := by
  induction ds generalizing cs with
  | nil => simp [escapeQuotes, run]
  | cons d ds ih =>
    rw [List.mem_cons, not_or] at plain
    by_cases mark : d = '"'
    · have quote : isHexDigit '"' = false := by decide
      subst mark
      rw [escapeQuotes_mark, run_cons]
      simp [next?, inside?, run_cons, quote, ih plain.2]
    · rw [escapeQuotes_other mark, run_cons]
      by_cases line : d = '\n'
      · simp [next?, inside?, line]
      · simp [next?, inside?, mark, Ne.symm plain.1, line, Ne.symm line, ih plain.2]

end StringReader

open StringReader

theorem stringContent?_quoted : stringContent? ('"' :: escapeQuotes cs ++ ['"']) =
    match run ⟨[], .inside⟩ (escapeQuotes (preprocess cs) ++ ['"']) with
    | some ⟨content, .closed⟩ => some content
    | _ => none := by
  have first : preprocess ('"' :: (escapeQuotes cs ++ ['"'])) =
      '"' :: preprocess (escapeQuotes cs ++ ['"']) := by
    rw [preprocess, if_neg fun pair => absurd pair.1 (by decide)]
    rfl
  rw [stringContent?, List.cons_append, first, preprocess_escapeQuotes]
  rfl

theorem stringContent?_eq_some {content : List Char}
    (h : stringContent? ('"' :: escapeQuotes cs ++ ['"']) = some content) :
    ∃ r, run ⟨[], .inside⟩ (escapeQuotes (preprocess cs)) = some r ∧
      r.run ['"'] = some ⟨content, .closed⟩ := by
  rw [stringContent?_quoted] at h
  split at h
  case h_2 => cases h
  case h_1 read =>
    cases h
    rw [run_append] at read
    exact Option.bind_eq_some_iff.1 read

/-- **A backslash that is not escaped** loses a character. -/
theorem length_lt_of_backslash {content : List Char} (backslash : '\\' ∈ cs)
    (h : stringContent? ('"' :: escapeQuotes cs ++ ['"']) = some content) :
    content.length < cs.length := by
  obtain ⟨r, between, last⟩ := stringContent?_eq_some h
  obtain ⟨front, back, split, plain⟩ :=
    List.eq_append_cons_of_mem (backslash_mem_preprocess.2 backslash)
  have all : front.length + (back.length + 1) ≤ cs.length := by
    have := length_preprocess_le cs
    rwa [split, List.length_append, List.length_cons] at this
  -- Behind the backslash `back` is left, and the backslash itself has added nothing.
  rw [split, escapeQuotes_append, run_append, run_inside plain] at between
  split_ifs at between with line
  · cases between
  have behind : run ⟨front, .escape⟩ (escapeQuotes back) = some r := between
  have short : r.size ≤ front.length + back.length := size_run_le behind
  rw [length_of_closed last]
  omega

/-- **What is between the marks is read back** exactly if the reader goes on behind every character. -/
theorem stringContent?_escapeQuotes_iff :
    stringContent? ('"' :: escapeQuotes cs ++ ['"']) = some cs ↔ ∀ c ∈ cs, isSteady c = true := by
  constructor
  · intro h
    have plain : '\\' ∉ cs := fun mem => absurd (length_lt_of_backslash mem h) (Nat.lt_irrefl _)
    obtain ⟨r, between, last⟩ := stringContent?_eq_some h
    rw [run_inside (backslash_mem_preprocess.not.2 plain)] at between
    split_ifs at between with line
    cases between
    have same : preprocess cs = cs := by simpa [run, next?, inside?] using last
    intro c hc
    have noLine : c ≠ '\n' := fun feed => line (same.symm ▸ feed ▸ hc)
    obtain ⟨known, null⟩ := (mem_preprocess (same.symm ▸ hc)).resolve_left noLine
    have other : c ≠ '\\' := fun mark => plain (mark ▸ hc)
    simpa [isSteady, unsteady, isLineEnd, null, other] using known
  · intro steady
    have plain : '\\' ∉ cs := fun mem => absurd (steady _ mem) (by decide)
    have line : '\n' ∉ cs := fun mem => absurd (steady _ mem) (by decide)
    rw [stringContent?_quoted, preprocess_eq_self steady, run_append, run_inside plain, if_neg line]
    rfl

end DesignTokens
