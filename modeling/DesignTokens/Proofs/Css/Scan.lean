import Mathlib.Data.Bool.AllAny
import DesignTokens.Proofs.Css.Composed
import DesignTokens.Proofs.Name.Letters

/-!
# Texts that end where they seem to

What stands in a stylesheet is read one character after the other. A semicolon or a brace counts only
outside of brackets, quotation marks and comments, and without a backslash in front; a closing bracket has
to be the one that is awaited.

* `Scan`, `Scan.next?`: the brackets that are open, and whether a quotation mark or a comment is;
* `pass`: the state behind some characters, none of which may end a text where nothing is open;
* `isWhole`: a text that ends with nothing open; `Neutral`: one that leaves the state as it is;
  **`pass_of_neutral`**: whatever brackets are open around it; `Neutral.append`;
* `isMild`: a character that opens and closes nothing; `neutral_of_isMild`, `Inert.neutral`;
* **`Neutral.call`**: a function with neutral arguments; **`neutral_quoted`**: what stands between quotation
  marks; `pass_escapeQuotes`: with the marks inside escaped.
-/

namespace DesignTokens

/-! ## Characters -/

/-- What a reader is in the middle of. -/
inductive Lexis where
  /-- Nothing. -/
  | text
  /-- Behind a slash, which may begin a comment. -/
  | slash
  /-- Behind a backslash. -/
  | escape
  /-- A string between these marks. -/
  | quoted (mark : Char)
  /-- The same behind a backslash. -/
  | escaped (mark : Char)
  | comment
  /-- A comment behind an asterisk. -/
  | star
  deriving DecidableEq, Repr

/-- The state of a reader inside a text. -/
structure Scan where
  /-- The closing brackets that are awaited, the next one first. -/
  awaited : List Char
  lexis : Lexis
  deriving DecidableEq, Repr

/-- The bracket that closes what this one opens. -/
def closing? : Char → Option Char
  | '(' => some ')'
  | '[' => some ']'
  | '{' => some '}'
  | _ => none

/-- Whether the character ends a line. -/
def isLineEnd (c : Char) : Bool := c ∈ ['\n', '\r', '\x0c']

namespace Scan

/-- Nothing is open. -/
def start : Scan := ⟨[], .text⟩

/-- A text may end here. -/
def isTop (s : Scan) : Bool := s.awaited.isEmpty && (s.lexis = .text || s.lexis = .slash)

/-- A closing bracket, if it is the one that is awaited. -/
def close? (awaited : List Char) (c : Char) : Option Scan :=
  match awaited with
  | close :: rest => if c = close then some ⟨rest, .text⟩ else none
  | [] => none

/-- A character outside of quotation marks and comments. -/
def plain? (awaited : List Char) (c : Char) : Option Scan :=
  if c = '"' || c = '\'' then some ⟨awaited, .quoted c⟩
  else if c = '\\' then some ⟨awaited, .escape⟩
  else if c = '/' then some ⟨awaited, .slash⟩
  else match closing? c with
    | some close => some ⟨close :: awaited, .text⟩
    | none => if c ∈ [')', ']', '}'] then close? awaited c else some ⟨awaited, .text⟩

/-- The state behind a character, if the character may stand there. -/
def next? (s : Scan) (c : Char) : Option Scan :=
  match s.lexis with
  | .text => plain? s.awaited c
  | .slash => if c = '*' then some ⟨s.awaited, .comment⟩ else plain? s.awaited c
  | .escape => if isLineEnd c then none else some ⟨s.awaited, .text⟩
  | .quoted mark =>
    if c = mark then some ⟨s.awaited, .text⟩
    else if c = '\\' then some ⟨s.awaited, .escaped mark⟩
    else if isLineEnd c then none
    else some s
  | .escaped mark => some ⟨s.awaited, .quoted mark⟩
  | .comment => some ⟨s.awaited, if c = '*' then .star else .comment⟩
  | .star => some ⟨s.awaited, if c = '/' then .text else if c = '*' then .star else .comment⟩

/-- More brackets are open around. -/
def within (s : Scan) (awaited : List Char) : Scan := ⟨s.awaited ++ awaited, s.lexis⟩

theorem close?_within {awaited : List Char} {c : Char} {s : Scan} (h : close? awaited c = some s)
    (around : List Char) : close? (awaited ++ around) c = some (s.within around) := by
  cases awaited with
  | nil => cases h
  | cons close rest =>
    unfold close? at h ⊢
    simp only [List.cons_append] at h ⊢
    split_ifs at h ⊢ with same
    cases h
    rfl

theorem plain?_within {awaited : List Char} {c : Char} {s : Scan} (h : plain? awaited c = some s)
    (around : List Char) : plain? (awaited ++ around) c = some (s.within around) := by
  unfold plain? at h ⊢
  by_cases mark : (c = '"' || c = '\'') = true
  · rw [if_pos mark] at h ⊢
    cases h
    rfl
  rw [if_neg mark] at h ⊢
  by_cases backslash : c = '\\'
  · rw [if_pos backslash] at h ⊢
    cases h
    rfl
  rw [if_neg backslash] at h ⊢
  by_cases slash : c = '/'
  · rw [if_pos slash] at h ⊢
    cases h
    rfl
  rw [if_neg slash] at h ⊢
  cases opens : closing? c with
  | some close =>
    rw [opens] at h
    cases h
    rfl
  | none =>
    rw [opens] at h
    by_cases closes : c ∈ [')', ']', '}']
    · simp only [if_pos closes] at h ⊢
      exact close?_within h around
    · simp only [if_neg closes] at h ⊢
      cases h
      rfl

/-- **Brackets around a text** do not change how it is read. -/
theorem next?_within {s s' : Scan} {c : Char} (h : s.next? c = some s') (around : List Char) :
    (s.within around).next? c = some (s'.within around) := by
  obtain ⟨awaited, lexis⟩ := s
  cases lexis with
  | text => exact plain?_within h around
  | slash =>
    unfold next? at h ⊢
    simp only [within] at h ⊢
    split_ifs at h ⊢ with opens
    · cases h
      rfl
    · exact plain?_within h around
  | escape | quoted _ =>
    unfold next? at h ⊢
    simp only [within] at h ⊢
    split_ifs at h ⊢ <;> cases h <;> rfl
  | escaped _ | comment | star =>
    cases h
    rfl

end Scan

/-! ## Texts -/

/-- The state behind some characters; those that end a text may not stand where nothing is open. -/
def pass (stops : List Char) (s : Scan) (cs : List Char) : Option Scan :=
  cs.foldlM (fun s c => if s.isTop && c ∈ stops then none else s.next? c) s

/-- Whether a text ends with nothing open. -/
def isWhole (stops : List Char) (cs : List Char) : Bool := (pass stops .start cs).any Scan.isTop

section Pass

variable {stops : List Char} {s s' : Scan}

theorem isWhole_iff {cs : List Char} :
    isWhole stops cs = true ↔ ∃ s, pass stops .start cs = some s ∧ s.isTop = true := by
  unfold isWhole
  cases pass stops .start cs <;> simp

theorem pass_cons {c : Char} {cs : List Char} : pass stops s (c :: cs) =
    if s.isTop && c ∈ stops then none else (s.next? c).bind fun s => pass stops s cs := by
  unfold pass
  rw [List.foldlM_cons]
  split_ifs
  · rfl
  · rfl

theorem pass_append {cs ds : List Char} :
    pass stops s (cs ++ ds) = (pass stops s cs).bind fun s => pass stops s ds :=
  List.foldlM_append

theorem isTop_of_isTop_within {around : List Char} (h : (s.within around).isTop = true) :
    s.isTop = true := by
  unfold Scan.isTop Scan.within at *
  simp only [Bool.and_eq_true, List.isEmpty_iff, List.append_eq_nil_iff] at h ⊢
  exact ⟨h.1.1, h.2⟩

theorem pass_within {cs : List Char} (h : pass stops s cs = some s') (around : List Char) :
    pass stops (s.within around) cs = some (s'.within around) := by
  induction cs generalizing s with
  | nil =>
    cases h
    rfl
  | cons c cs ih =>
    rw [pass_cons] at h ⊢
    by_cases ends : (s.isTop && c ∈ stops) = true
    · rw [if_pos ends] at h
      cases h
    · have outer : ¬ ((s.within around).isTop && c ∈ stops) = true := fun outer => ends (by
        rw [Bool.and_eq_true] at outer ⊢
        exact ⟨isTop_of_isTop_within outer.1, outer.2⟩)
      rw [if_neg ends] at h
      rw [if_neg outer]
      obtain ⟨mid, hmid, h⟩ := Option.bind_eq_some_iff.1 h
      exact Option.bind_eq_some_iff.2 ⟨_, Scan.next?_within hmid around, ih h⟩

end Pass

/-! ## Neutral texts -/

/-- The text leaves nothing open, and ends no other one. -/
def Neutral (stops : List Char) (text : String) : Prop := pass stops .start text.toList = some .start

instance (stops : List Char) (text : String) : Decidable (Neutral stops text) :=
  inferInstanceAs (Decidable (_ = _))

section Neutral

variable {stops : List Char} {a b text : String}

/-- **A neutral text** leaves the state as it is, whatever brackets are open. -/
theorem pass_of_neutral (h : Neutral stops text) (awaited : List Char) :
    pass stops ⟨awaited, .text⟩ text.toList = some ⟨awaited, .text⟩ := by
  simpa [Scan.within, Scan.start] using pass_within h awaited

theorem Neutral.isWhole (h : Neutral stops text) : isWhole stops text.toList = true := by
  unfold DesignTokens.isWhole
  rw [show pass stops .start text.toList = some .start from h]
  rfl

theorem Neutral.append (ha : Neutral stops a) (hb : Neutral stops b) : Neutral stops (a ++ b) := by
  unfold Neutral
  rw [String.toList_append, pass_append, ha]
  exact hb

end Neutral

/-! ## Characters without a meaning -/

/-- The characters that open or close something, or end a text. -/
def marks : List Char := ['"', '\'', '\\', '/', '(', ')', '[', ']', '{', '}', ';']

/-- Whether the character opens and closes nothing. -/
def isMild (c : Char) : Bool := c ∉ marks

theorem plain?_of_isMild {c : Char} (h : isMild c = true) (awaited : List Char) :
    Scan.plain? awaited c = some ⟨awaited, .text⟩ := by
  simp only [isMild, marks, decide_eq_true_eq, List.mem_cons, List.not_mem_nil, or_false, not_or] at h
  obtain ⟨double, single, backslash, slash, round, round', square, square', curly, curly', -⟩ := h
  have opens : closing? c = none := by
    unfold closing?
    split <;> simp_all
  simp [Scan.plain?, opens, double, single, backslash, slash, round', square', curly']

section Mild

variable {stops : List Char} (marked : ∀ c ∈ stops, isMild c = false)

include marked

theorem pass_of_isMild {cs : List Char} (h : ∀ c ∈ cs, isMild c = true) (awaited : List Char) :
    pass stops ⟨awaited, .text⟩ cs = some ⟨awaited, .text⟩ := by
  induction cs with
  | nil => rfl
  | cons c cs ih =>
    obtain ⟨mild, rest⟩ := List.forall_mem_cons.1 h
    have going : ¬ c ∈ stops := fun mem => by
      rw [marked c mem] at mild
      cases mild
    rw [pass_cons, if_neg (by simp [going])]
    show (Scan.plain? awaited c).bind _ = _
    rw [plain?_of_isMild mild, Option.bind_some]
    exact ih rest

theorem neutral_of_isMild {text : String} (h : ∀ c ∈ text.toList, isMild c = true) :
    Neutral stops text := pass_of_isMild marked h []

theorem Inert.neutral {text : String} (h : Inert text) : Neutral stops text := by
  have inert : ∀ c ∈ marks, isInert c = false := List.all_iff_forall_prop.1 (by decide)
  refine neutral_of_isMild marked fun c hc => ?_
  by_contra meant
  have mem : c ∈ marks := by simpa [isMild] using meant
  have := List.all_eq_true.1 h c hc
  rw [inert c mem] at this
  cases this

end Mild

/-! ## Functions and strings -/

section Call

variable {stops : List Char} (marked : ∀ c ∈ stops, isMild c = false) (going : '(' ∉ stops)

include marked going

theorem pass_of_opensCall {opening : String} (h : OpensCall opening) :
    pass stops .start opening.toList = some ⟨[')'], .text⟩ := by
  obtain ⟨name, first, hname, hfirst, rfl⟩ := h
  rw [String.toList_append, String.toList_append, pass_append, pass_append,
    show pass stops .start name.toList = some .start from hname.neutral marked]
  show ((pass stops .start ['(']).bind _) = _
  rw [pass_cons, if_neg (by simp [going])]
  exact pass_of_neutral (hfirst.neutral marked) [')']

/-- **A function** with neutral arguments. -/
theorem Neutral.call {opening inside closing : String} (opens : OpensCall opening)
    (h : Neutral stops inside) (closes : ClosesCall closing) :
    Neutral stops (opening ++ inside ++ closing) := by
  obtain ⟨last, hlast, rfl⟩ := closes
  unfold Neutral
  rw [String.toList_append, String.toList_append, String.toList_append, pass_append, pass_append,
    pass_of_opensCall marked going opens, Option.bind_some, pass_of_neutral h, Option.bind_some,
    pass_append, pass_of_neutral (hlast.neutral marked)]
  rfl

end Call

/-- Whether the character may stand between double quotation marks as it is. -/
def isQuotable (c : Char) : Bool := c ≠ '"' && c ≠ '\\' && !isLineEnd c

theorem pass_quoted {stops cs : List Char} (h : ∀ c ∈ cs, isQuotable c = true) (awaited : List Char) :
    pass stops ⟨awaited, .quoted '"'⟩ cs = some ⟨awaited, .quoted '"'⟩ := by
  induction cs with
  | nil => rfl
  | cons c cs ih =>
    obtain ⟨fine, rest⟩ := List.forall_mem_cons.1 h
    simp only [isQuotable, Bool.and_eq_true, decide_eq_true_eq, Bool.not_eq_true'] at fine
    obtain ⟨⟨mark, backslash⟩, line⟩ := fine
    rw [pass_cons, if_neg (by simp [Scan.isTop])]
    simp only [Scan.next?, if_neg mark, if_neg backslash, line, Bool.false_eq_true, if_false,
      Option.bind_some]
    exact ih rest

theorem pass_escapeQuotes {stops cs : List Char} (h : ∀ c ∈ cs, c ≠ '\\' ∧ isLineEnd c = false)
    (awaited : List Char) :
    pass stops ⟨awaited, .quoted '"'⟩ (escapeQuotes cs) = some ⟨awaited, .quoted '"'⟩ := by
  induction cs with
  | nil => rfl
  | cons c cs ih =>
    obtain ⟨⟨backslash, line⟩, rest⟩ := List.forall_mem_cons.1 h
    rw [escapeQuotes, List.flatMap_cons, pass_append]
    have one : pass stops ⟨awaited, .quoted '"'⟩ (if c = '"' then ['\\', '"'] else [c]) =
        some ⟨awaited, .quoted '"'⟩ := by
      split_ifs with mark
      · simp [pass, Scan.isTop, Scan.next?]
      · exact pass_quoted (by simp [isQuotable, mark, backslash, line]) awaited
    rw [one]
    exact ih rest

/-- **Between quotation marks**, whatever is read without closing them. -/
theorem neutral_quoted {stops cs : List Char} (going : '"' ∉ stops)
    (h : pass stops ⟨[], .quoted '"'⟩ cs = some ⟨[], .quoted '"'⟩) :
    Neutral stops (String.ofList ('"' :: cs ++ ['"'])) := by
  unfold Neutral
  rw [String.toList_ofList, List.cons_append, pass_cons, if_neg (by simp [going])]
  show (pass stops ⟨[], .quoted '"'⟩ (cs ++ ['"'])) = _
  rw [pass_append, h]
  rfl

end DesignTokens
