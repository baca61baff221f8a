import DesignTokens.Proofs.Flat.Keys

/-!
# What merging keeps

Contradictions are found one by one and types are handed on to the tokens that replace others; which
paths are kept, and what is at them, is said here of the trees themselves.

* `tokensAt`, `groupAt`: the tokens of trees at a path, and whether one of them has a group there;
* `Mergeable`: the trees do not contradict each other at a path;
* `tokensOf_entries`, `groupAmong_entries`, `tokenPaths_entries`: the entries of a tree, by its nodes;
* **`ofTrees_keeps_mergeable`**: the tokens that are kept, their order, and the errors.
-/

namespace DesignTokens

/-- The tokens of trees at a path, in the order of the trees. -/
def tokensAt (trees : List Tree) (path : String) : List FlatToken := trees.filterMap (·.token? path)

/-- Whether a tree has a group at a path. -/
def groupAt (trees : List Tree) (path : String) : Bool := trees.any (·.hasGroup path)

/-- Some tree has a token at the path, no tree has a group there, and no two of the tokens there have
different types. -/
def Mergeable (trees : List Tree) (path : String) : Prop :=
  tokensAt trees path ≠ [] ∧ groupAt trees path = false ∧ Agree (tokensAt trees path)

/-! ## The entries of a tree -/

theorem tokensOf_eq_filter (es : List Entry) (path : String) :
    tokensOf es path = (es.filter (·.path = path)).filterMap (·.tokenAt? path) := by
  rw [List.filterMap_filter]
  refine congrArg (List.filterMap · es) (funext fun e => ?_)
  by_cases h : e.path = path
  · simp [h]
  · simp [h, Entry.tokenAt?_of_ne (Ne.symm h)]

theorem groupAmong_eq_filter (es : List Entry) (path : String) :
    groupAmong es path = (es.filter (·.path = path)).any (·.isGroupAt path) := by
  rw [List.any_filter]
  refine List.any_congr rfl fun e => ?_
  by_cases h : e.path = path
  · simp [h]
  · simp [h, Entry.isGroupAt_of_ne (Ne.symm h)]

theorem tokensOf_entries {t : Tree} (named : t.WellNamed) (path : String) :
    tokensOf t.entries path = (t.token? path).toList := by
  rw [tokensOf_eq_filter, Tree.filter_entries named]
  unfold Tree.token?
  cases h : t.at? path with
  | none => rfl
  | some m =>
    obtain ⟨inherited, n⟩ := m
    cases n with
    | group info children => rfl
    | token token => simp [Node.entry, Entry.tokenAt?, joinPath_splitOn]

theorem groupAmong_entries {t : Tree} (named : t.WellNamed) (path : String) :
    groupAmong t.entries path = t.hasGroup path := by
  rw [groupAmong_eq_filter, Tree.filter_entries named]
  unfold Tree.hasGroup
  cases h : t.at? path with
  | none => rfl
  | some m =>
    obtain ⟨inherited, n⟩ := m
    cases n with
    | group info children => simp [Node.entry, Entry.isGroupAt, joinPath_splitOn]
    | token token => rfl

mutual

theorem Node.tokenPaths_entries (origin : Origin) : ∀ (n : Node) (segments : List String)
    (inherited : Option TokenType),
    (n.entries origin segments inherited).filterMap Entry.tokenPath? = n.tokenPaths segments
  | .token _, _, _ => rfl
  | .group info children, segments, inherited => by
    rw [Node.entries, Node.tokenPaths, List.filterMap_cons]
    exact tokenPaths_childEntries origin children segments _

theorem tokenPaths_childEntries (origin : Origin) : ∀ (children : List (String × Node))
    (segments : List String) (inherited : Option TokenType),
    (childEntries origin segments inherited children).filterMap Entry.tokenPath? =
      childTokenPaths segments children
  | [], _, _ => rfl
  | (name, n) :: rest, segments, inherited => by
    rw [childEntries, childTokenPaths, List.filterMap_append,
      Node.tokenPaths_entries origin n, tokenPaths_childEntries origin rest]

end

theorem tokenPaths_entries (t : Tree) : t.entries.filterMap Entry.tokenPath? = t.tokenPaths :=
  tokenPaths_childEntries _ _ _ _

/-! ## The entries of several trees -/

section Trees

variable {trees : List Tree} (named : ∀ t ∈ trees, t.WellNamed) (path : String)

include named in
theorem tokensOf_flatMap_entries :
    tokensOf (trees.flatMap Tree.entries) path = tokensAt trees path := by
  induction trees with
  | nil => rfl
  | cons t rest ih =>
    have here := tokensOf_entries (named t (by simp)) path
    have there := ih fun u hu => named u (by simp [hu])
    unfold tokensOf tokensAt at *
    rw [List.flatMap_cons, List.filterMap_append, here, there, List.filterMap_cons]
    cases t.token? path <;> rfl

include named in
theorem groupAmong_flatMap_entries :
    groupAmong (trees.flatMap Tree.entries) path = groupAt trees path := by
  induction trees with
  | nil => rfl
  | cons t rest ih =>
    have here := groupAmong_entries (named t (by simp)) path
    have there := ih fun u hu => named u (by simp [hu])
    unfold groupAmong groupAt at *
    rw [List.flatMap_cons, List.any_append, here, there, List.any_cons]

include named in
theorem clash_iff : Clash (trees.flatMap Tree.entries) path ↔
    tokensAt trees path ≠ [] ∧ ¬ Mergeable trees path := by
  unfold Clash Mergeable
  rw [tokensOf_flatMap_entries named, groupAmong_flatMap_entries named]
  cases groupAt trees path <;> by_cases h : tokensAt trees path = [] <;> simp [h]

theorem filterMap_tokenPath?_flatMap (trees : List Tree) :
    (trees.flatMap Tree.entries).filterMap Entry.tokenPath? = trees.flatMap Tree.tokenPaths := by
  rw [List.filterMap_flatMap]
  simp only [tokenPaths_entries]

include named in
theorem get?_ofTrees_eq_some_iff {t : FlatToken} :
    (Flat.ofTrees trees).tokens.get? path = some t ↔
      Mergeable trees path ∧ mergedToken? (tokensAt trees path) = some t := by
  by_cases clash : Clash (trees.flatMap Tree.entries) path
  · have := ((clash_iff named path).1 clash).2
    simp [get?_ofTrees_of_clash trees clash, this]
  · rw [get?_ofTrees trees clash, tokensOf_flatMap_entries named]
    constructor
    · intro h
      have some : tokensAt trees path ≠ [] := fun none => by
        rw [mergedToken?_eq_none_iff.2 none] at h
        cases h
      exact ⟨Classical.not_not.1 fun not => clash ((clash_iff named path).2 ⟨some, not⟩), h⟩
    · exact fun h => h.2

include named in
theorem get?_ofTrees_of_mergeable (h : Mergeable trees path) :
    (Flat.ofTrees trees).tokens.get? path = mergedToken? (tokensAt trees path) := by
  refine Option.ext fun t => ?_
  rw [get?_ofTrees_eq_some_iff named]
  exact and_iff_right h

include named in
theorem get?_ofTrees_of_not_mergeable (h : ¬ Mergeable trees path) :
    (Flat.ofTrees trees).tokens.get? path = none := by
  refine Option.eq_none_iff_forall_ne_some.2 fun t ht => ?_
  exact h ((get?_ofTrees_eq_some_iff named path).1 ht).1

include named in
theorem contains_ofTrees_iff :
    (Flat.ofTrees trees).tokens.contains path = true ↔ Mergeable trees path := by
  unfold Table.contains
  constructor
  · intro h
    obtain ⟨t, ht⟩ := Option.isSome_iff_exists.1 h
    exact ((get?_ofTrees_eq_some_iff named path).1 ht).1
  · intro h
    rw [get?_ofTrees_of_mergeable named path h, Option.isSome_iff_ne_none]
    exact mt mergedToken?_eq_none_iff.1 h.1

end Trees

theorem Agree.perm {ts us : List FlatToken} (h : ts.Perm us) : Agree ts ↔ Agree us := by
  unfold Agree
  simp only [h.mem_iff]

theorem Mergeable.perm {trees trees' : List Tree} (h : trees'.Perm trees) (path : String) :
    Mergeable trees' path ↔ Mergeable trees path := by
  have tokens : (tokensAt trees' path).Perm (tokensAt trees path) := h.filterMap _
  have groups : groupAt trees' path = groupAt trees path := h.any_eq
  unfold Mergeable
  rw [groups, Agree.perm tokens]
  exact and_congr_left' (not_congr ⟨fun h => (h ▸ tokens).nil_eq.symm, fun h => (h ▸ tokens).eq_nil⟩)

theorem Agree.commonType?_eq_some_iff {ts : List FlatToken} (h : Agree ts) {type : TokenType} :
    commonType? ts = some type ↔ ∃ t ∈ ts, t.type = some type :=
  ⟨List.exists_of_findSome?_eq_some, fun ⟨_, ht, htype⟩ => h.commonType?_eq ht htype⟩

theorem Agree.commonType?_perm {ts us : List FlatToken} (agree : Agree ts) (h : us.Perm ts) :
    commonType? us = commonType? ts := by
  have agree' : Agree us := (Agree.perm h).2 agree
  refine Option.ext fun type => ?_
  rw [agree.commonType?_eq_some_iff, agree'.commonType?_eq_some_iff]
  simp only [h.mem_iff]

theorem map_type_mergedToken? (ts : List FlatToken) :
    (mergedToken? ts).map FlatToken.type = if ts = [] then none else some (commonType? ts) := by
  cases h : mergedToken? ts with
  | none => rw [if_pos (mergedToken?_eq_none_iff.1 h)]; rfl
  | some t =>
    have some : ts ≠ [] := fun none => by
      rw [mergedToken?_eq_none_iff.2 none] at h
      cases h
    obtain ⟨last, -, rfl⟩ := Option.map_eq_some_iff.1 h
    rw [if_neg some]
    rfl

/-! ## The tokens that are kept -/

theorem not_conflicted_eq_contains {trees : List Tree} {path : String}
    (h : path ∈ (trees.flatMap Tree.entries).filterMap Entry.tokenPath?) :
    (!(Flat.ofTrees trees).conflicted path) = (Flat.ofTrees trees).tokens.contains path := by
  cases hc : (Flat.ofTrees trees).conflicted path with
  | true =>
    rw [Table.contains, get?_ofTrees_of_clash trees ((conflicted_ofTrees trees path).1 hc)]
    rfl
  | false =>
    have clean : ¬ Clash (trees.flatMap Tree.entries) path := fun clash => by
      rw [(conflicted_ofTrees trees path).2 clash] at hc
      cases hc
    have some : tokensOf (trees.flatMap Tree.entries) path ≠ [] := by
      obtain ⟨e, he, hp⟩ := List.mem_filterMap.1 h
      cases e with
      | group _ _ _ _ => cases hp
      | token t =>
        obtain rfl : t.path = path := Option.some.inj hp
        exact List.ne_nil_of_mem (mem_tokensOf.2 ⟨he, rfl⟩)
    obtain ⟨t, ht⟩ := Option.ne_none_iff_exists'.1 (mt mergedToken?_eq_none_iff.1 some)
    rw [Table.contains, get?_ofTrees trees clean, ht]
    rfl

/-- **What merging keeps.** A token is kept at a path exactly if the trees can be merged there. It is
the last token at the path, with the type that any of the tokens there gives. Every other path at which
some tree has a token has one error, and no further path has any. The kept tokens are in the order in
which their paths first came, and the order of the trees decides neither which paths are kept nor with
which types. -/
theorem ofTrees_keeps_mergeable (trees : List Tree) (named : ∀ t ∈ trees, t.WellNamed) :
    (∀ path, (Flat.ofTrees trees).tokens.contains path = true ↔ Mergeable trees path) ∧
    (∀ path kept, (Flat.ofTrees trees).tokens.get? path = some kept →
      (∃ last, (tokensAt trees path).getLast? = some last ∧ kept = { last with type := kept.type }) ∧
      ∀ type, kept.type = some type ↔ ∃ t ∈ tokensAt trees path, t.type = some type) ∧
    (∀ path, tokensAt trees path ≠ [] → ¬ Mergeable trees path →
      ((Flat.ofTrees trees).errors.filter (·.path = path)).length = 1) ∧
    (∀ path, tokensAt trees path = [] ∨ Mergeable trees path →
      ∀ e ∈ (Flat.ofTrees trees).errors, e.path ≠ path) ∧
    (Flat.ofTrees trees).tokens.values.map FlatToken.path =
      (trees.flatMap Tree.tokenPaths).eraseDups.filter
        ((Flat.ofTrees trees).tokens.contains ·) ∧
    ∀ trees', trees'.Perm trees → ∀ path,
      ((Flat.ofTrees trees').tokens.get? path).map FlatToken.type =
        ((Flat.ofTrees trees).tokens.get? path).map FlatToken.type := by
  have errors : ∀ path, (Flat.ofTrees trees).conflicted path = true ↔
      tokensAt trees path ≠ [] ∧ ¬ Mergeable trees path := fun path =>
    (conflicted_ofTrees trees path).trans (clash_iff named path)
  refine ⟨contains_ofTrees_iff named, ?_, ?_, ?_, ?_, ?_⟩
  · intro path kept h
    obtain ⟨mergeable, merged⟩ := (get?_ofTrees_eq_some_iff named path).1 h
    obtain ⟨last, hlast, rfl⟩ := Option.map_eq_some_iff.1 merged
    exact ⟨⟨last, hlast, rfl⟩, fun type => mergeable.2.2.commonType?_eq_some_iff⟩
  · intro path some not
    rw [length_errors_ofTrees, if_pos ((errors path).2 ⟨some, not⟩)]
  · intro path none e he same
    have := (errors path).1 (Flat.conflicted_eq_true_iff.2 (List.mem_map.2 ⟨e, he, same⟩))
    exact none.elim this.1 this.2
  · have paths : (Flat.ofTrees trees).tokens.values.map FlatToken.path =
        (Flat.ofTrees trees).tokens.keys := by
      rw [Table.values, Table.keys, List.map_map]
      refine List.map_congr_left fun e he => ?_
      exact path_of_get?_ofTrees trees ((Table.get?_eq_some_iff (nodup_keys_ofTrees trees)).2 he)
    rw [paths, keys_ofTrees, ← filterMap_tokenPath?_flatMap]
    exact List.filter_congr fun path h => not_conflicted_eq_contains (List.mem_eraseDups.1 h)
  · intro trees' perm path
    have named' : ∀ t ∈ trees', t.WellNamed := fun t ht => named t (perm.mem_iff.1 ht)
    have tokens : (tokensAt trees' path).Perm (tokensAt trees path) := perm.filterMap _
    by_cases h : Mergeable trees path
    · have h' : Mergeable trees' path := (Mergeable.perm perm path).2 h
      rw [get?_ofTrees_of_mergeable named path h, get?_ofTrees_of_mergeable named' path h',
        map_type_mergedToken?, map_type_mergedToken?, if_neg h.1, if_neg h'.1,
        h.2.2.commonType?_perm tokens]
    · have h' : ¬ Mergeable trees' path := mt (Mergeable.perm perm path).1 h
      rw [get?_ofTrees_of_not_mergeable named path h, get?_ofTrees_of_not_mergeable named' path h']

/-! ## A theme and another one over it -/

/-- A token as a file states it. -/
def themeToken (type : Option TokenType) (value : Json) : Node := .token ⟨value, type, none, none, none⟩

/-- A color, typed by its group, and a size. -/
def plainTheme : Tree where
  context := .base
  tokens := ⟨.empty, [
    ("color", .group { GroupInfo.empty with type := some .color }
      [("bg", themeToken none (.str "#fff"))]),
    ("size", themeToken (some .dimension) (.str "1px"))]⟩
  file := ⟨"plain.json"⟩

/-- The color once more, without a type, and a group in place of the size. -/
def darkTheme : Tree where
  context := .base
  tokens := ⟨.empty, [
    ("color", .group .empty [("bg", themeToken none (.str "#000"))]),
    ("size", .group .empty [("small", themeToken (some .dimension) (.str "2px"))])]⟩
  file := ⟨"dark.json"⟩

theorem wellNamed_themes : ∀ t ∈ [plainTheme, darkTheme], t.WellNamed := by
  simp [Tree.WellNamed, plainTheme, darkTheme, WellNamed, Node.WellNamed, themeToken]

/-- The color is the second one with the type of the first; the size is left out with one error. -/
theorem ofTrees_themes :
    ((Flat.ofTrees [plainTheme, darkTheme]).tokens.contains "color.bg" = true ∧
      ∀ kept, (Flat.ofTrees [plainTheme, darkTheme]).tokens.get? "color.bg" = some kept →
        kept.type = some .color) ∧
    ((Flat.ofTrees [plainTheme, darkTheme]).errors.filter (·.path = "size")).length = 1 := by
  obtain ⟨contains, kept, once, -, -, -⟩ :=
    ofTrees_keeps_mergeable [plainTheme, darkTheme] wellNamed_themes
  refine ⟨⟨(contains _).2 ?_, fun t h => ((kept _ t h).2 .color).2 ?_⟩, once _ ?_ ?_⟩
  · exact ⟨by decide, by decide, by decide⟩
  · decide
  · decide
  · exact fun h => absurd h.2.1 (by decide)

end DesignTokens
