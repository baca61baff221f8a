import DesignTokens.Json.Compact
import DesignTokens.Proofs.Json.Numbers

/-!
# Reading compact texts

A value that is written is read back, if its numbers are.

* `escape_cases`: a character of a string as it is written; **`readsString_escape`**: a string;
* `Json.numbers`: the numbers in a value;
* **`written_compact`**, `read_compact`: a value.
-/

namespace DesignTokens.Json

open Raw

/-! ## Strings -/

theorem hexValue?_hexDigit : ∀ n, n < 16 → hexValue? (hexDigit n) = some n := by decide

theorem escape_cases (c : Char) :
    (∃ e, escape c = ['\\', e] ∧ e ≠ 'u' ∧ unescape? e = some c) ∨
    (c.toNat < 0x20 ∧
      escape c = ['\\', 'u', '0', '0', hexDigit (c.toNat / 16), hexDigit (c.toNat % 16)]) ∨
    (IsPlain c ∧ escape c = [c]) := by
  by_cases quote : c = '"'
  · subst quote
    exact .inl ⟨'"', rfl, by decide, by decide⟩
  by_cases backslash : c = '\\'
  · subst backslash
    exact .inl ⟨'\\', rfl, by decide, by decide⟩
  by_cases b : c = '\x08'
  · subst b
    exact .inl ⟨'b', rfl, by decide, by decide⟩
  by_cases f : c = '\x0c'
  · subst f
    exact .inl ⟨'f', rfl, by decide, by decide⟩
  by_cases n : c = '\n'
  · subst n
    exact .inl ⟨'n', rfl, by decide, by decide⟩
  by_cases r : c = '\r'
  · subst r
    exact .inl ⟨'r', rfl, by decide, by decide⟩
  by_cases t : c = '\t'
  · subst t
    exact .inl ⟨'t', rfl, by decide, by decide⟩
  unfold escape
  simp only [quote, backslash, b, f, n, r, t, if_false]
  by_cases control : c.toNat < 0x20
  · exact .inr (.inl ⟨control, if_pos control⟩)
  · exact .inr (.inr ⟨⟨quote, backslash, Nat.le_of_not_lt control⟩, if_neg control⟩)

theorem chars?_unit {n : Nat} (h : n < 0xD800) (ps : List Piece) :
    Piece.chars? (.unit n :: ps) = (Char.ofNat n :: ·) <$> Piece.chars? ps := by
  have low : ¬ (0xD800 ≤ n ∧ n < 0xE000) := by omega
  have high : ¬ (0xD800 ≤ n ∧ n < 0xDC00) := by omega
  have last : ¬ (0xDC00 ≤ n ∧ n < 0xE000) := by omega
  cases ps with
  | nil => simp only [Piece.chars?, if_neg low]
  | cons p later =>
    cases p with
    | char c => simp only [Piece.chars?, if_neg low]
    | unit m => rw [Piece.chars?, if_neg high, if_neg last]

theorem pieces_escape {cs rest : List Char} {ps : List Piece} {h}
    (c : Char) (read : pieces cs = some (ps, ⟨rest, h⟩)) :
    ∃ p h', pieces (escape c ++ cs) = some (p :: ps, ⟨rest, h'⟩) ∧
      Piece.chars? (p :: ps) = (c :: ·) <$> Piece.chars? ps := by
  have longer : ∀ front : List Char, rest.length < (front ++ cs).length := fun front => by
    rw [List.length_append]
    omega
  rcases escape_cases c with ⟨e, written, ne, value⟩ | ⟨control, written⟩ |
    ⟨⟨quote, backslash, control⟩, written⟩
  · rw [written]
    refine ⟨.char c, longer _, ?_, by rw [Piece.chars?]⟩
    show pieces ('\\' :: e :: cs) = _
    rw [pieces.eq_4 e cs fun _ _ _ _ _ same _ => ne same, value, read]
    rfl
  · have small := hexValue?_hexDigit (c.toNat % 16) (by omega)
    have great := hexValue?_hexDigit (c.toNat / 16) (by omega)
    have unit : ((0 * 16 + 0) * 16 + c.toNat / 16) * 16 + c.toNat % 16 = c.toNat := by omega
    rw [written]
    refine ⟨.unit c.toNat, longer _, ?_, ?_⟩
    · show pieces ('\\' :: 'u' :: '0' :: '0' :: hexDigit (c.toNat / 16) :: hexDigit (c.toNat % 16) :: cs) = _
      rw [pieces.eq_3, show hexValue? '0' = some 0 by decide, great, small, read]
      simp only [bind, Option.bind, unit]
    · rw [chars?_unit (by omega), Char.ofNat_toNat]
  · rw [written]
    refine ⟨.char c, longer _, ?_, by rw [Piece.chars?]⟩
    show pieces (c :: cs) = _
    rw [pieces.eq_5 c cs quote (fun _ _ _ _ _ same _ => backslash same)
      (fun _ _ same _ => backslash same), if_neg (Nat.not_lt.2 control), read]
    rfl

/-- **A string is read back.** -/
theorem readsString_escape (s : String) (rest : List Char) :
    ReadsString (s.toList.flatMap escape ++ '"' :: rest) (some s) rest := by
  have all : ∀ cs : List Char, ∃ ps h,
      pieces (cs.flatMap escape ++ '"' :: rest) = some (ps, ⟨rest, h⟩) ∧ Piece.chars? ps = some cs := by
    intro cs
    induction cs with
    | nil => exact ⟨[], by simp, pieces.eq_2 rest, rfl⟩
    | cons c later ih =>
      obtain ⟨ps, h, read, chars⟩ := ih
      obtain ⟨p, h', read', chars'⟩ := pieces_escape c read
      rw [chars] at chars'
      rw [List.flatMap_cons, List.append_assoc]
      exact ⟨p :: ps, h', read', chars'⟩
  obtain ⟨ps, h, read, chars⟩ := all s.toList
  refine ⟨h, ?_⟩
  unfold string
  rw [read, Option.map_some]
  dsimp only
  rw [chars, Option.map_some, String.ofList_toList]

/-! ## Values -/

mutual

/-- The numbers in a value. -/
def numbers : Json → List Number
  | .null => []
  | .bool _ => []
  | .num n => [n]
  | .str _ => []
  | .arr items => itemNumbers items
  | .obj members => memberNumbers members

/-- The numbers in the items of an array. -/
def itemNumbers : List Json → List Number
  | [] => []
  | j :: rest => numbers j ++ itemNumbers rest

/-- The numbers in the members of an object. -/
def memberNumbers : List (String × Json) → List Number
  | [] => []
  | (_, j) :: rest => numbers j ++ memberNumbers rest

end

theorem written_of_reads (c : Char) (later : List Char) {t : Raw} (blank : isBlank c = false)
    (reads : ∀ rest, Reads (c :: (later ++ rest)) t rest) : Written (c :: later) t := by
  refine fun rest _ => ⟨rest, ?_, rfl⟩
  have whole : skip (c :: later ++ rest) = c :: (later ++ rest) :=
    List.dropWhile_cons_of_neg (by simp [blank])
  exact whole ▸ reads rest

mutual

/-- **A value is read back** if its numbers are. -/
theorem written_compact : ∀ j : Json, (∀ n ∈ j.numbers, parse? n.text = some (.num n)) →
    Written j.compact.toList (ofJson j)
  | .null, _ => written_of_reads 'n' ['u', 'l', 'l'] rfl Reads.null
  | .bool true, _ => written_of_reads 't' ['r', 'u', 'e'] rfl (Reads.bool true)
  | .bool false, _ => written_of_reads 'f' ['a', 'l', 's', 'e'] rfl (Reads.bool false)
  | .num n, numbers => written_of_parse? (numbers n (List.mem_singleton_self n))
  | .str s, _ => by
    rw [compact, toList_quote, List.cons_append]
    refine written_of_reads _ _ rfl fun rest => ?_
    rw [List.append_assoc]
    exact .str (readsString_escape s rest)
  | .arr [], _ => written_of_reads '[' [']'] rfl fun rest => .arr_nil rfl
  | .arr (j :: later), numbers => by
    have items := readsItems_compact (j :: later) (by simp) numbers
    have chars : (Json.arr (j :: later)).compact.toList =
        '[' :: ((",".intercalate (compactItems (j :: later))).toList ++ [']']) := by
      rw [compact, String.toList_append, String.toList_append]
      rfl
    rw [chars]
    refine written_of_reads _ _ rfl fun rest => ?_
    rw [List.append_assoc]
    exact .arr (items rest).full (items rest)
  | .obj [], _ => written_of_reads '\x7b' ['\x7d'] rfl fun rest => .obj_nil rfl
  | .obj (m :: later), numbers => by
    have members := readsMembers_compact (m :: later) (by simp) numbers
    have chars : (Json.obj (m :: later)).compact.toList =
        '\x7b' :: ((",".intercalate (compactMembers (m :: later))).toList ++ ['\x7d']) := by
      rw [compact, String.toList_append, String.toList_append]
      rfl
    rw [chars]
    refine written_of_reads _ _ rfl fun rest => ?_
    rw [List.append_assoc]
    exact .obj (members rest).full (members rest)

theorem readsItems_compact : ∀ items : List Json, items ≠ [] →
    (∀ n ∈ itemNumbers items, parse? n.text = some (.num n)) → ∀ rest,
    ReadsItems ((",".intercalate (compactItems items)).toList ++ ']' :: rest) (ofItems items) rest
  | [], ne, _, _ => absurd rfl ne
  | [j], _, numbers, rest => by
    -- a number is read up to the bracket, since no number goes on with one
    obtain ⟨r, reads, closed⟩ := written_compact j (by simpa [itemNumbers] using numbers) (']' :: rest)
      (by simp [Ends])
    rw [compactItems, compactItems, String.intercalate_singleton]
    exact .last reads closed
  | j :: k :: later, _, numbers, rest => by
    obtain ⟨own, others⟩ := List.forall_mem_append.1 numbers
    have more := readsItems_compact (k :: later) (by simp) others rest
    obtain ⟨r, reads, comma⟩ := written_compact j own
      (',' :: ((",".intercalate (compactItems (k :: later))).toList ++ ']' :: rest)) (by simp [Ends])
    have chars : (",".intercalate (compactItems (j :: k :: later))).toList ++ ']' :: rest =
        j.compact.toList ++ ',' :: ((",".intercalate (compactItems (k :: later))).toList ++ ']' :: rest) := by
      rw [compactItems, compactItems, String.intercalate_cons_cons, String.toList_append,
        String.toList_append, List.append_assoc, List.append_assoc]
      rfl
    rw [chars]
    exact .next reads comma more

theorem readsMembers_compact : ∀ members : List (String × Json), members ≠ [] →
    (∀ n ∈ memberNumbers members, parse? n.text = some (.num n)) → ∀ rest,
    ReadsMembers ((",".intercalate (compactMembers members)).toList ++ '}' :: rest) (ofMembers members) rest
  | [], ne, _, _ => absurd rfl ne
  | [(key, j)], _, numbers, rest => by
    obtain ⟨r, reads, closed⟩ := written_compact j (by simpa [memberNumbers] using numbers)
      ('}' :: rest) (by simp [Ends])
    have chars : (",".intercalate (compactMembers [(key, j)])).toList ++ '}' :: rest =
        '"' :: (key.toList.flatMap escape ++ '"' :: ':' :: (j.compact.toList ++ '}' :: rest)) := by
      rw [compactMembers, compactMembers, String.intercalate_singleton, String.toList_append,
        String.toList_append, toList_quote]
      simp
    rw [chars]
    exact .last rfl (readsString_escape key _) rfl reads closed
  | (key, j) :: m :: later, _, numbers, rest => by
    obtain ⟨own, others⟩ := List.forall_mem_append.1 numbers
    have more := readsMembers_compact (m :: later) (by simp) others rest
    obtain ⟨r, reads, comma⟩ := written_compact j own
      (',' :: ((",".intercalate (compactMembers (m :: later))).toList ++ '}' :: rest)) (by simp [Ends])
    have chars : (",".intercalate (compactMembers ((key, j) :: m :: later))).toList ++ '}' :: rest =
        '"' :: (key.toList.flatMap escape ++ '"' :: ':' :: (j.compact.toList ++
          ',' :: ((",".intercalate (compactMembers (m :: later))).toList ++ '}' :: rest))) := by
      obtain ⟨key', j'⟩ := m
      rw [compactMembers, compactMembers, String.intercalate_cons_cons]
      simp [toList_quote]
    rw [chars]
    exact .next rfl (readsString_escape key _) rfl reads comma more

end

theorem read_compact {j : Json} (numbers : ∀ n ∈ j.numbers, parse? n.text = some (.num n)) :
    Raw.read j.compact = some (ofJson j) := by
  obtain ⟨r, reads, closed⟩ := written_compact j numbers [] (by simp [Ends])
  rw [List.append_nil] at reads
  exact read_of_reads reads closed

end DesignTokens.Json
