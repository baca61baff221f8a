import DesignTokens.Proofs.Tree.Reading

/-!
# Names in references

A reference is read by rules of its own, character by character and segment by segment, and so is a
name. Both ask for the same, except that a name may have blanks and a reference may not.

* `isPath_iff`: the paths of references are those whose segments are names without blanks;
* `Node.mem_leaves_of_at?`, `names_of_token?`: the names that lead to a token of a document;
* **`parse?_text_of_flatten`**: which tokens of documents their paths in braces refer to.
-/

namespace DesignTokens

/-! ## Segments -/

theorem Reference.isPathChar_iff {c : Char} :
    Reference.isPathChar c = true ↔ c ≠ '\x7b' ∧ c ≠ '\x7d' ∧ Text.isBlank c = false := by
  simp [Reference.isPathChar, and_assoc]

theorem isPathChar_dot : Reference.isPathChar '.' = true := by decide

theorem all_splitOn_iff {p : Char → Bool} {sep : Char} (hsep : p sep = true) {text : String} :
    text.toList.all p = true ↔ ∀ piece ∈ Text.splitOn sep text, ∀ c ∈ piece.toList, p c = true := by
  rw [List.all_eq_true]
  constructor
  · intro h piece hp c hc
    refine h c ?_
    rw [← Text.join_splitOn sep text]
    exact Text.mem_join hp hc
  · intro h
    rw [← Text.join_splitOn sep text]
    refine Text.join_induction (P := fun t => ∀ c ∈ t.toList, p c = true) (by simp) ?_ (by simpa) h
    intro a b ha hb c hc
    rw [String.toList_append, List.mem_append] at hc
    exact hc.elim (ha c) (hb c)

/-- **The paths of references** are those whose segments are names without blanks. -/
theorem isPath_iff {path : String} : Reference.isPath path.toList = true ↔
    ∀ name ∈ Text.splitOn '.' path, IsName name ∧ ∀ c ∈ name.toList, Text.isBlank c = false := by
  unfold Reference.isPath
  rw [Bool.and_eq_true, all_splitOn_iff isPathChar_dot]
  have nonempty : ((Text.splitChars '.' path.toList).all fun segment => !segment.isEmpty) = true ↔
      ∀ name ∈ Text.splitOn '.' path, name ≠ "" := by
    simp [Text.splitOn]
  rw [nonempty, ← forall₂_and]
  refine forall₂_congr fun name hn => ?_
  have noDot := Text.notMem_of_mem_splitOn hn
  simp only [Reference.isPathChar_iff, IsName]
  constructor
  · rintro ⟨chars, ne⟩
    exact ⟨⟨ne, fun c hc => ⟨(chars c hc).1, (chars c hc).2.1, fun h => noDot (h ▸ hc)⟩⟩,
      fun c hc => (chars c hc).2.2⟩
  · rintro ⟨⟨ne, chars⟩, blank⟩
    exact ⟨fun c hc => ⟨(chars c hc).1, (chars c hc).2.1, blank c hc⟩, ne⟩

theorem text_injective : Function.Injective Reference.text := by
  intro r r' h
  have chars := congrArg String.toList h
  rw [toList_text, toList_text, List.append_left_inj, List.cons.injEq] at chars
  exact congrArg Reference.mk (String.toList_injective chars.2)

theorem parse?_text {path : String} (names : ∀ name ∈ Text.splitOn '.' path, IsName name) :
    Reference.parse? (Reference.text ⟨path⟩) =
      if path.toList.any Text.isBlank then none else some ⟨path⟩ := by
  have plain : path.toList.any Text.isBlank = false ↔ Reference.isPath path.toList = true := by
    have pieces : path.toList.all (fun c => !Text.isBlank c) = true ↔ _ :=
      all_splitOn_iff (show (!Text.isBlank '.') = true by decide)
    rw [isPath_iff, forall₂_congr fun name hn => and_iff_right (names name hn)]
    simpa using pieces
  split
  · rename_i blank
    refine Option.eq_none_iff_forall_ne_some.2 fun r hr => ?_
    obtain ⟨same, isPath⟩ := parse?_eq_some_iff.1 hr
    rw [← text_injective same] at isPath
    cases (plain.2 isPath).symm.trans blank
  · rename_i noBlank
    exact parse?_eq_some_iff.2 ⟨rfl, plain.1 (Bool.eq_false_iff.2 noBlank)⟩

/-! ## The names of tokens -/

theorem mem_childLeaves_iff {children : List (String × Node)} {names : List String} {t : Token} :
    (names, t) ∈ childLeaves children ↔
      ∃ child ∈ children, ∃ below, names = child.1 :: below ∧ (below, t) ∈ child.2.leaves := by
  induction children with
  | nil => simp [childLeaves]
  | cons child rest ih => simp [childLeaves, ih, and_comm, eq_comm]

theorem Node.mem_leaves_of_at? {names : List String} {n : Node} {inherited handed : Option TokenType}
    {t : Token} (h : n.at? inherited names = some (handed, .token t)) : (names, t) ∈ n.leaves := by
  induction names generalizing n inherited with
  | nil =>
    cases h
    exact List.mem_singleton.2 rfl
  | cons name below ih =>
    cases n with
    | token _ => cases h
    | group info children =>
      obtain ⟨m, hm, found⟩ := Option.bind_eq_some_iff.1 h
      exact mem_childLeaves_iff.2 ⟨_, Table.mem_of_find?_eq_some hm, below, rfl, ih found⟩

theorem mem_leaves_of_token? {tree : Tree} {path : String} {t : FlatToken}
    (h : tree.token? path = some t) : ∃ token, (Text.splitOn '.' path, token) ∈ tree.tokens.leaves := by
  unfold Tree.token? at h
  split at h
  · rename_i handed token found
    -- a path has a first segment
    obtain ⟨name, below, cut⟩ := List.exists_cons_of_ne_nil (Text.splitOn_ne_nil '.' path)
    rw [Tree.at?, cut] at found
    obtain ⟨n, hn, found⟩ := Option.bind_eq_some_iff.1 found
    rw [cut]
    exact ⟨token, mem_childLeaves_iff.2
      ⟨_, Table.mem_of_find?_eq_some hn, below, rfl, Node.mem_leaves_of_at? found⟩⟩
  · cases h

theorem names_of_token? {tree : Tree} (parsed : tree.Parsed) {path : String} {t : FlatToken}
    (h : tree.token? path = some t) : ∀ name ∈ Text.splitOn '.' path, IsName name := by
  obtain ⟨file, document, distinct, read⟩ := parsed
  obtain ⟨token, mem⟩ := mem_leaves_of_token? h
  rw [leaves_eq read] at mem
  obtain ⟨⟨names, k⟩, hk, same⟩ := List.mem_map.1 mem
  obtain ⟨descends, -⟩ := (mem_tokenObjects_iff distinct).1 hk
  have place := ((exists_ofJson_eq_ok_iff distinct).1 ⟨_, read⟩).places names k descends
  rw [show Text.splitOn '.' path = names from (congrArg Prod.fst same).symm]
  exact place.names

/-! ## Paths of tokens -/

/-- **When a token may be referred to.** Trees are read from documents and flattened. The path of every
token consists of names that a document may have. In braces it is a reference, and to this very path,
unless there is a blank in a name: then it is no reference. -/
theorem parse?_text_of_flatten {trees : List Tree} (parsed : ∀ tree ∈ trees, tree.Parsed) {c : Context}
    {path : String} {t : FlatToken}
    (h : ((flatten trees).get? c).bind (·.tokens.get? path) = some t) :
    t.path = path ∧ (∀ name ∈ Text.splitOn '.' path, IsName name) ∧
      Reference.parse? (Reference.text ⟨t.path⟩) =
        if path.toList.any Text.isBlank then none else some ⟨path⟩ := by
  have own : t.path = path := (keyed_flatten trees).path_of_get? h
  obtain ⟨f, hf, ht⟩ := Option.bind_eq_some_iff.1 h
  obtain ⟨-, rfl⟩ := get?_flatten_eq_some_iff.1 hf
  have named : ∀ tree ∈ trees.filter (·.context = c), tree.WellNamed := fun tree mem =>
    (parsed tree (List.mem_of_mem_filter mem)).wellNamed
  obtain ⟨-, merged⟩ := (get?_ofTrees_eq_some_iff named path).1 ht
  obtain ⟨last, hlast, -⟩ := Option.map_eq_some_iff.1 merged
  obtain ⟨tree, mem, found⟩ := List.mem_filterMap.1 (List.mem_of_getLast? hlast)
  have names := names_of_token? (parsed tree (List.mem_of_mem_filter mem)) found
  refine ⟨own, names, ?_⟩
  rw [own]
  exact parse?_text names

/-- A document with two colors, one of them by a name of two words. -/
def twilight : Json :=
  .obj [("sky", .obj [("pale", paleSky)]), ("deep sky", paleSky)]

/-- The tree of the two colors. -/
def twilightTree : Tree where
  context := .base
  tokens := ⟨.empty, [
    ("sky", .group .empty [("pale", .token ⟨.str "#fff", none, none, none, some skyFile⟩)]),
    ("deep sky", .token ⟨.str "#fff", none, none, none, some skyFile⟩)]⟩
  file := skyFile

theorem parsed_twilightTree : ∀ tree ∈ [twilightTree], tree.Parsed := by
  intro tree h
  obtain rfl := List.mem_singleton.1 h
  refine ⟨skyFile, twilight, ?_, rfl⟩
  simp [twilight, paleSky, Json.Distinct, Json.MembersDistinct]

/-- The color by names without blanks may be referred to. -/
theorem parse?_text_of_flatten_twilight :
    ((∀ tree ∈ [twilightTree], tree.Parsed) ∧ ∃ t,
      ((flatten [twilightTree]).get? .base).bind (·.tokens.get? "sky.pale") = some t) ∧
    Reference.parse? (Reference.text ⟨"sky.pale"⟩) = some ⟨"sky.pale"⟩ := by
  obtain ⟨t, ht⟩ : ∃ t, ((flatten [twilightTree]).get? .base).bind (·.tokens.get? "sky.pale") = some t :=
    ⟨_, rfl⟩
  obtain ⟨own, -, reference⟩ := parse?_text_of_flatten parsed_twilightTree ht
  refine ⟨⟨parsed_twilightTree, t, ht⟩, ?_⟩
  rw [own] at reference
  exact reference.trans (if_neg (by decide))

/-- The color by a name of two words may not. -/
theorem parse?_text_deep_sky : (∀ tree ∈ [twilightTree], tree.Parsed) ∧
    (∃ t, ((flatten [twilightTree]).get? .base).bind (·.tokens.get? "deep sky") = some t) ∧
    Reference.parse? (Reference.text ⟨"deep sky"⟩) = none :=
  ⟨parsed_twilightTree, ⟨_, rfl⟩, by decide⟩

end DesignTokens
