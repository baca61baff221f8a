import DesignTokens.Json.Raw

/-!
# Reading by the grammar

One rule for each way to go on while a text is read: what is in front, and the rest behind it.

* `Reads`, `ReadsItems`, `ReadsMembers`: a tree, the items of an array, the members of an object;
* `Reads.null`, `Reads.bool`, `Reads.str`, `Reads.arr_nil`, `Reads.arr`, `Reads.obj_nil`, `Reads.obj`;
* `ReadsItems.cons`, `ReadsMembers.cons`: one in front, as `last` one or with a `next` one behind it;
* `ReadsItems.full`, `ReadsMembers.full`: what is read so is not empty;
* `readsString_of_plain`: a string without escapes; `read_of_reads`: a whole text;
* `value?_cases`: which trees have a value.
-/

namespace DesignTokens.Json.Raw

/-- A tree is in front of a rest. -/
def Reads (cs : List Char) (t : Raw) (rest : List Char) : Prop := ∃ h, tree cs = some (t, ⟨rest, h⟩)

/-- The items of an array and its closing bracket are in front of a rest. -/
def ReadsItems (cs : List Char) (ts : List Raw) (rest : List Char) : Prop :=
  ∃ h, trees cs = some (ts, ⟨rest, h⟩)

/-- The members of an object and its closing brace are in front of a rest. -/
def ReadsMembers (cs : List Char) (ms : List (Option String × Raw)) (rest : List Char) : Prop :=
  ∃ h, members cs = some (ms, ⟨rest, h⟩)

/-- The characters of a string and its closing quote are in front of a rest. -/
def ReadsString (cs : List Char) (s : Option String) (rest : List Char) : Prop :=
  ∃ h, string cs = some (s, ⟨rest, h⟩)

variable {cs rest : List Char}

theorem length_lt_of_skip {c : Char} (h : skip cs = c :: rest) : rest.length < cs.length := by
  have bound := length_skip_le cs
  rw [h, List.length_cons] at bound
  omega

/-- A character of a string that stands for itself. -/
def IsPlain (c : Char) : Prop := c ≠ '"' ∧ c ≠ '\\' ∧ 0x20 ≤ c.toNat

instance (c : Char) : Decidable (IsPlain c) := inferInstanceAs (Decidable (_ ∧ _ ∧ _))

theorem pieces_of_plain {name : List Char} (plain : ∀ c ∈ name, IsPlain c) (rest : List Char) :
    ∃ h, pieces (name ++ '"' :: rest) = some (name.map .char, ⟨rest, h⟩) := by
  induction name with
  | nil => exact ⟨by simp, rfl⟩
  | cons c later ih =>
    obtain ⟨⟨quote, escape, control⟩, plain⟩ := List.forall_mem_cons.1 plain
    obtain ⟨shorter, h⟩ := ih plain
    refine ⟨by simp; omega, ?_⟩
    show pieces (c :: (later ++ '"' :: rest)) = _
    rw [pieces.eq_5 c _ quote (fun _ _ _ _ _ same _ => escape same) (fun _ _ same _ => escape same),
      if_neg (Nat.not_lt.2 control), h]
    rfl

theorem chars?_map_char (cs : List Char) : Piece.chars? (cs.map .char) = some cs := by
  induction cs with
  | nil => rfl
  | cons c later ih =>
    rw [List.map_cons, Piece.chars?, ih]
    rfl

/-- **A string without escapes.** -/
theorem readsString_of_plain {name : String} (plain : ∀ c ∈ name.toList, IsPlain c)
    (rest : List Char) : ReadsString (name.toList ++ '"' :: rest) (some name) rest := by
  obtain ⟨shorter, h⟩ := pieces_of_plain plain rest
  refine ⟨shorter, ?_⟩
  unfold string
  rw [h, Option.map_some]
  dsimp only
  rw [chars?_map_char, Option.map_some, String.ofList_toList]

theorem Reads.str {s : Option String} (h : ReadsString cs s rest) : Reads ('"' :: cs) (.str s) rest := by
  obtain ⟨shorter, h⟩ := h
  refine ⟨?_, ?_⟩
  · simp only [List.length_cons]
    omega
  · rw [tree, h]
    rfl

theorem Reads.arr {ts : List Raw} (full : ∀ r, skip cs ≠ ']' :: r) (h : ReadsItems cs ts rest) :
    Reads ('[' :: cs) (.arr ts) rest := by
  obtain ⟨shorter, h⟩ := h
  refine ⟨?_, ?_⟩
  · simp only [List.length_cons]
    omega
  · rw [tree]
    split
    · rename_i r closed
      exact absurd closed (full r)
    · rw [h]
      rfl

theorem Reads.obj {ms : List (Option String × Raw)} (full : ∀ r, skip cs ≠ '}' :: r)
    (h : ReadsMembers cs ms rest) : Reads ('\x7b' :: cs) (.obj ms) rest := by
  obtain ⟨shorter, h⟩ := h
  refine ⟨?_, ?_⟩
  · simp only [List.length_cons]
    omega
  · rw [tree]
    split
    · rename_i r closed
      exact absurd closed (full r)
    · rw [h]
      rfl

theorem Reads.arr_nil (closed : skip cs = ']' :: rest) : Reads ('[' :: cs) (.arr []) rest := by
  refine ⟨Nat.lt_succ_of_lt (length_lt_of_skip closed), ?_⟩
  rw [tree]
  split
  · rename_i closed'
    rw [closed] at closed'
    cases closed'
    rfl
  · rename_i other
    exact absurd closed (other rest)

theorem Reads.obj_nil (closed : skip cs = '}' :: rest) : Reads ('\x7b' :: cs) (.obj []) rest := by
  refine ⟨Nat.lt_succ_of_lt (length_lt_of_skip closed), ?_⟩
  rw [tree]
  split
  · rename_i closed'
    rw [closed] at closed'
    cases closed'
    rfl
  · rename_i other
    exact absurd closed (other rest)

theorem word_append {α : Type} {w : List Char} (ne : w ≠ []) (a : α) (rest : List Char) :
    ∃ h, word w a (w ++ rest) = some (a, ⟨rest, h⟩) := by
  have shorter : rest.length < (w ++ rest).length := by
    have := List.length_pos_iff.2 ne
    rw [List.length_append]
    omega
  refine ⟨shorter, ?_⟩
  unfold word
  rw [dif_pos ⟨List.prefix_append w rest, ne⟩]
  simp only [List.drop_left]

theorem Reads.null (rest : List Char) : Reads ("null".toList ++ rest) .null rest := by
  obtain ⟨shorter, read⟩ := word_append (w := "null".toList) (by decide) Raw.null rest
  exact ⟨shorter, (tree.eq_5 'n' _ (by decide) (by decide) (by decide)).trans read⟩

theorem Reads.bool (b : Bool) (rest : List Char) :
    Reads ((if b then "true" else "false").toList ++ rest) (.bool b) rest := by
  cases b with
  | true =>
    obtain ⟨shorter, read⟩ := word_append (w := "true".toList) (by decide) (Raw.bool true) rest
    exact ⟨shorter, (tree.eq_5 't' _ (by decide) (by decide) (by decide)).trans read⟩
  | false =>
    obtain ⟨shorter, read⟩ := word_append (w := "false".toList) (by decide) (Raw.bool false) rest
    exact ⟨shorter, (tree.eq_5 'f' _ (by decide) (by decide) (by decide)).trans read⟩

/-- **An item in front** of the end of the array or of more items. -/
theorem ReadsItems.cons {t : Raw} {ts : List Raw} {r : List Char} (h : Reads (skip cs) t r)
    (behind : skip r = ']' :: rest ∧ ts = [] ∨ ∃ w, skip r = ',' :: w ∧ ReadsItems w ts rest) :
    ReadsItems cs (t :: ts) rest := by
  obtain ⟨shorter, h⟩ := h
  have bound := length_skip_le cs
  rcases behind with ⟨closed, rfl⟩ | ⟨w, comma, shorter', more⟩
  · have after := length_lt_of_skip closed
    refine ⟨by omega, ?_⟩
    rw [trees, h]
    simp only [bind, Option.bind, Front.afterSkip, Option.map]
    split
    · rename_i closed'
      rw [closed] at closed'
      cases closed'
      rfl
    · rename_i more
      rw [closed] at more
      cases more
    · rename_i other _
      exact absurd closed (other rest)
  · have after := length_lt_of_skip comma
    refine ⟨by omega, ?_⟩
    rw [trees, h]
    simp only [bind, Option.bind, Front.afterSkip, Option.map]
    split
    · rename_i closed
      rw [comma] at closed
      cases closed
    · rename_i comma'
      rw [comma] at comma'
      cases comma'
      rw [more]
    · rename_i other
      exact absurd comma (other w)

theorem ReadsItems.last {t : Raw} {r : List Char} (h : Reads (skip cs) t r)
    (closed : skip r = ']' :: rest) : ReadsItems cs [t] rest :=
  .cons h (.inl ⟨closed, rfl⟩)

theorem ReadsItems.next {t : Raw} {ts : List Raw} {r w : List Char} (h : Reads (skip cs) t r)
    (comma : skip r = ',' :: w) (more : ReadsItems w ts rest) : ReadsItems cs (t :: ts) rest :=
  .cons h (.inr ⟨w, comma, more⟩)

/-- **A member in front** of the end of the object or of more members. -/
theorem ReadsMembers.cons {key : Option String} {t : Raw} {ms : List (Option String × Raw)}
    {k v r s : List Char} (quoted : skip cs = '"' :: k) (named : ReadsString k key r)
    (colon : skip r = ':' :: v) (h : Reads (skip v) t s)
    (behind : skip s = '}' :: rest ∧ ms = [] ∨ ∃ w, skip s = ',' :: w ∧ ReadsMembers w ms rest) :
    ReadsMembers cs ((key, t) :: ms) rest := by
  obtain ⟨shorter, h⟩ := h
  obtain ⟨shorter', named⟩ := named
  have after : rest.length < s.length := by
    rcases behind with ⟨closed, -⟩ | ⟨w, comma, shorter'', -⟩
    · exact length_lt_of_skip closed
    · exact Nat.lt_trans shorter'' (length_lt_of_skip comma)
  refine ⟨?_, ?_⟩
  · have front := length_lt_of_skip quoted
    have behindColon := length_lt_of_skip colon
    have bound := length_skip_le v
    omega
  rw [members]
  split
  · rename_i quoted'
    rw [quoted] at quoted'
    cases quoted'
    rw [named]
    simp only [bind, Option.bind]
    split
    · rename_i colon'
      rw [colon] at colon'
      cases colon'
      rw [h]
      simp only [Front.afterSkip, Option.map]
      rcases behind with ⟨closed, rfl⟩ | ⟨w, comma, shorter'', more⟩
      · split
        · rename_i closed'
          rw [closed] at closed'
          cases closed'
          rfl
        · rename_i more
          rw [closed] at more
          cases more
        · rename_i other _
          exact absurd closed (other rest)
      · split
        · rename_i closed
          rw [comma] at closed
          cases closed
        · rename_i comma'
          rw [comma] at comma'
          cases comma'
          rw [more]
        · rename_i other
          exact absurd comma (other w)
    · rename_i other
      exact absurd colon (other v)
  · rename_i other
    exact absurd quoted (other k)

theorem ReadsMembers.last {key : Option String} {t : Raw} {k v r s : List Char}
    (quoted : skip cs = '"' :: k) (named : ReadsString k key r) (colon : skip r = ':' :: v)
    (h : Reads (skip v) t s) (closed : skip s = '}' :: rest) : ReadsMembers cs [(key, t)] rest :=
  .cons quoted named colon h (.inl ⟨closed, rfl⟩)

theorem ReadsMembers.next {key : Option String} {t : Raw} {ms : List (Option String × Raw)}
    {k v r s w : List Char} (quoted : skip cs = '"' :: k) (named : ReadsString k key r)
    (colon : skip r = ':' :: v) (h : Reads (skip v) t s) (comma : skip s = ',' :: w)
    (more : ReadsMembers w ms rest) : ReadsMembers cs ((key, t) :: ms) rest :=
  .cons quoted named colon h (.inr ⟨w, comma, more⟩)

theorem ReadsItems.full {ts : List Raw} (h : ReadsItems cs ts rest) (r : List Char) :
    skip cs ≠ ']' :: r := by
  intro closed
  have none : tree (skip cs) = none := by
    rw [closed, tree.eq_5 ']' r (by decide) (by decide) (by decide)]
    rfl
  obtain ⟨shorter, h⟩ := h
  rw [trees] at h
  obtain ⟨_, front, -⟩ := Option.bind_eq_some_iff.1 h
  obtain ⟨_, read, -⟩ := Option.map_eq_some_iff.1 front
  rw [none] at read
  cases read

theorem ReadsMembers.full {ms : List (Option String × Raw)}
    (h : ReadsMembers cs ms rest) (r : List Char) : skip cs ≠ '}' :: r := by
  intro closed
  obtain ⟨shorter, h⟩ := h
  rw [members] at h
  split at h
  · rename_i quoted
    cases closed.symm.trans quoted
  · cases h

/-- **A whole text.** -/
theorem read_of_reads {text : String} {t : Raw} (h : Reads (skip text.toList) t rest)
    (closed : skip rest = []) : read text = some t := by
  obtain ⟨shorter, h⟩ := h
  unfold read
  rw [h]
  simp [closed]

/-- **The forms of a tree with a value.** -/
theorem value?_cases {depth : Nat} {t : Raw} {j : Json} (h : t.value? depth = some j) :
    t = .null ∧ j = .null ∨ (∃ b, t = .bool b ∧ j = .bool b) ∨
    (∃ n, t = .num (some n) ∧ j = .num n) ∨ (∃ s, t = .str (some s) ∧ j = .str s) ∨
    (∃ d ts js, depth = d + 1 ∧ t = .arr ts ∧ itemValues? d ts = some js ∧ j = .arr js) ∨
    ∃ d ms es, depth = d + 1 ∧ t = .obj ms ∧ memberValues? d ms = some es ∧
      j = .obj (Table.ofList es).entries := by
  cases t with
  | null => exact .inl ⟨rfl, (Option.some.inj h).symm⟩
  | bool b => exact .inr (.inl ⟨b, rfl, (Option.some.inj h).symm⟩)
  | num n =>
    obtain ⟨n, rfl, rfl⟩ := Option.map_eq_some_iff.1 h
    exact .inr (.inr (.inl ⟨n, rfl, rfl⟩))
  | str s =>
    obtain ⟨s, rfl, rfl⟩ := Option.map_eq_some_iff.1 h
    exact .inr (.inr (.inr (.inl ⟨s, rfl, rfl⟩)))
  | arr ts =>
    cases depth with
    | zero => cases h
    | succ d =>
      obtain ⟨js, hjs, rfl⟩ := Option.map_eq_some_iff.1 h
      exact .inr (.inr (.inr (.inr (.inl ⟨d, ts, js, rfl, rfl, hjs, rfl⟩))))
  | obj ms =>
    cases depth with
    | zero => cases h
    | succ d =>
      obtain ⟨es, hes, rfl⟩ := Option.map_eq_some_iff.1 h
      exact .inr (.inr (.inr (.inr (.inr ⟨d, ms, es, rfl, rfl, hes, rfl⟩))))

end DesignTokens.Json.Raw
