import DesignTokens.Proofs.Flat.Trees
import Mathlib.Data.List.Nodup

/-!
# One tree alone

A tree that is flattened alone keeps all its tokens, in their order. Those below one of its groups are
the tokens of that group, flattened as a tree of its own, under the names that lead to it and with the
type that it hands on.

* `Entry.token?`, `Tree.flatTokens`: the tokens of a tree;
* `get?_ofTrees_singleton`, **`values_ofTrees_singleton`**: merging one tree keeps them;
* `FlatToken.under`: a token under some more names;
* `tokens_childEntries_under`: the tokens of children under some names;
* **`filter_tokens_childEntries`**: the tokens below some names are those of the node there.
-/

namespace DesignTokens

/-- The token of an entry. -/
def Entry.token? : Entry → Option FlatToken
  | .token t => some t
  | .group .. => none

/-- The tokens among entries, in order. -/
def tokensAmong (es : List Entry) : List FlatToken := es.filterMap Entry.token?

/-- The tokens of a tree, in the order of the document. -/
def Tree.flatTokens (t : Tree) : List FlatToken := tokensAmong t.entries

theorem tokensAmong_append (es es' : List Entry) :
    tokensAmong (es ++ es') = tokensAmong es ++ tokensAmong es' :=
  List.filterMap_append

theorem mem_tokensAmong {es : List Entry} {t : FlatToken} : t ∈ tokensAmong es ↔ .token t ∈ es := by
  rw [tokensAmong, List.mem_filterMap]
  constructor
  · rintro ⟨e, he, h⟩
    cases e with
    | group _ _ _ _ => cases h
    | token _ =>
      cases h
      exact he
  · exact fun h => ⟨_, h, rfl⟩

theorem map_path_tokensAmong (es : List Entry) :
    (tokensAmong es).map FlatToken.path = es.filterMap Entry.tokenPath? := by
  rw [tokensAmong, List.map_filterMap]
  refine congrArg (List.filterMap · es) (funext fun e => ?_)
  cases e <;> rfl

theorem count_tokenPath? (es : List Entry) (path : String) :
    (es.filterMap Entry.tokenPath?).count path = (tokensOf es path).length := by
  induction es with
  | nil => rfl
  | cons e rest ih =>
    cases e with
    | group _ _ _ _ => exact ih
    | token t =>
      rw [tokensOf] at ih ⊢
      by_cases h : t.path = path
      · simp [Entry.tokenPath?, Entry.tokenAt?, h, ih]
      · simp [Entry.tokenPath?, Entry.tokenAt?, h, ih]

/-! ## What merging keeps of one tree -/

theorem eraseDups_eq_self {l : List String} (nodup : l.Nodup) : l.eraseDups = l := by
  induction l with
  | nil => rfl
  | cons a rest ih =>
    obtain ⟨fresh, nodup⟩ := List.nodup_cons.1 nodup
    have kept : (rest.filter fun b => !b == a) = rest := by
      refine List.filter_eq_self.2 fun b hb => ?_
      simpa using fun same : b = a => fresh (same ▸ hb)
    rw [List.eraseDups_cons, kept, ih nodup]

theorem eq_of_map_eq {α : Type u} {β : Type v} {f : α → β} {l m : List α} (nodup : (m.map f).Nodup)
    (same : l.map f = m.map f) (sub : l ⊆ m) : l = m := by
  have length : l.length = m.length := by simpa using congrArg List.length same
  refine List.ext_getElem length fun i hl hm => ?_
  have at_i : f l[i] = f m[i] := by
    have := List.getElem_of_eq same (by simpa using hl)
    simpa using this
  exact List.inj_on_of_nodup_map nodup (sub (List.getElem_mem hl)) (List.getElem_mem hm) at_i

section Alone

variable {t : Tree}

theorem mergeable_singleton {path : String} {x : FlatToken} (h : t.token? path = some x) :
    Mergeable [t] path := by
  have tokens : tokensAt [t] path = [x] := by simp [tokensAt, h]
  have group : groupAt [t] path = false := by
    unfold Tree.token? at h
    unfold groupAt Tree.hasGroup
    rw [List.any_cons, List.any_nil, Bool.or_false]
    split at h
    · rename_i at_path
      rw [at_path]
    · cases h
  refine ⟨by simp [tokens], group, ?_⟩
  rw [tokens]
  rintro a ha b hb y hy z hz
  cases List.mem_singleton.1 ha
  cases List.mem_singleton.1 hb
  exact Option.mem_unique hy hz

variable (named : t.WellNamed)

include named

theorem get?_ofTrees_singleton (path : String) :
    (Flat.ofTrees [t]).tokens.get? path = t.token? path := by
  have all : ∀ u ∈ [t], u.WellNamed := by simpa using named
  refine Option.ext fun x => ?_
  rw [get?_ofTrees_eq_some_iff all]
  have merged : mergedToken? (tokensAt [t] path) = t.token? path := by
    cases h : t.token? path with
    | none => simp [tokensAt, h, mergedToken?]
    | some x => simp [tokensAt, h, mergedToken?, commonType?, List.findSome?_singleton]
  rw [merged]
  exact and_iff_right_of_imp mergeable_singleton

theorem nodup_tokenPaths : t.tokenPaths.Nodup := by
  rw [List.nodup_iff_count_le_one, ← tokenPaths_entries]
  intro path
  rw [count_tokenPath?, tokensOf_entries named]
  exact Option.length_toList_le

theorem keys_ofTrees_singleton : (Flat.ofTrees [t]).tokens.keys = t.tokenPaths := by
  rw [keys_ofTrees, filterMap_tokenPath?_flatMap, List.flatMap_singleton,
    eraseDups_eq_self (nodup_tokenPaths named)]
  refine List.filter_eq_self.2 fun path mem => ?_
  have here : path ∈ ([t].flatMap Tree.entries).filterMap Entry.tokenPath? := by
    rwa [filterMap_tokenPath?_flatMap, List.flatMap_singleton]
  have some : tokensOf t.entries path ≠ [] := by
    rw [← List.length_pos_iff, ← count_tokenPath?, tokenPaths_entries]
    exact List.count_pos_iff.2 mem
  rw [not_conflicted_eq_contains here, Table.contains, get?_ofTrees_singleton named]
  rw [tokensOf_entries named] at some
  cases found : t.token? path with
  | none => simp [found] at some
  | some _ => rfl

/-- **Merging keeps the tokens of one tree.** -/
theorem values_ofTrees_singleton : (Flat.ofTrees [t]).tokens.values = t.flatTokens := by
  have paths : t.flatTokens.map FlatToken.path = t.tokenPaths := by
    rw [Tree.flatTokens, map_path_tokensAmong, tokenPaths_entries]
  have kept : ∀ e ∈ (Flat.ofTrees [t]).tokens.entries, t.token? e.1 = some e.2 := fun e he => by
    rw [← get?_ofTrees_singleton named, Table.get?_eq_some_iff (nodup_keys_ofTrees _)]
    exact he
  refine eq_of_map_eq (paths ▸ nodup_tokenPaths named) ?_ fun x hx => ?_
  · rw [paths, ← keys_ofTrees_singleton named, Table.values, Table.keys, List.map_map]
    refine List.map_congr_left fun e he => ?_
    exact path_of_get?_ofTrees [t] (by rw [get?_ofTrees_singleton named]; exact kept e he)
  · obtain ⟨e, he, rfl⟩ := List.mem_map.1 hx
    have mem : e.2 ∈ tokensOf t.entries e.1 := by
      rw [tokensOf_entries named, kept e he]
      exact List.mem_singleton.2 rfl
    exact mem_tokensAmong.2 (mem_tokensOf.1 mem).1

end Alone

/-! ## Tokens under names -/

/-- The token under some more names, inside groups of a type. -/
def FlatToken.under (names : List String) (handed : Option TokenType) (t : FlatToken) : FlatToken :=
  { t with
    path := joinPath (names ++ t.segments)
    segments := names ++ t.segments
    type := t.type <|> handed }

section Under

variable (origin : Origin) (names : List String) (handed : Option TokenType)

mutual

theorem Node.tokens_entries_under : ∀ (n : Node) (segments : List String)
    (inherited : Option TokenType),
    tokensAmong (n.entries origin (names ++ segments) (inherited <|> handed)) =
      (tokensAmong (n.entries origin segments inherited)).map (.under names handed)
  | .token t, segments, inherited => by
    show [FlatToken.mk _ _ _ (t.type <|> inherited <|> handed) _ _ _] =
      [FlatToken.mk _ _ _ ((t.type <|> inherited) <|> handed) _ _ _]
    cases t.type <;> rfl
  | .group info children, segments, inherited => by
    have outer : (info.type <|> inherited <|> handed) = ((info.type <|> inherited) <|> handed) := by
      cases info.type <;> rfl
    rw [Node.entries, Node.entries, outer]
    exact tokens_childEntries_under children segments _

/-- **The tokens of children under some names.** -/
theorem tokens_childEntries_under : ∀ (children : List (String × Node)) (segments : List String)
    (inherited : Option TokenType),
    tokensAmong (childEntries origin (names ++ segments) (inherited <|> handed) children) =
      (tokensAmong (childEntries origin segments inherited children)).map (.under names handed)
  | [], _, _ => rfl
  | (name, n) :: rest, segments, inherited => by
    rw [childEntries, childEntries, tokensAmong_append, tokensAmong_append, List.map_append,
      List.append_assoc, Node.tokens_entries_under n, tokens_childEntries_under rest]

end

end Under

/-! ## Tokens below names -/

section Below

variable {origin : Origin}

mutual

theorem Node.segments_of_mem : ∀ {n : Node} {segments : List String} {inherited : Option TokenType}
    {t : FlatToken}, t ∈ tokensAmong (n.entries origin segments inherited) →
    segments <+: t.segments ∧ t.path = joinPath t.segments
  | .token _, segments, _, t, h => by
    obtain rfl := List.mem_singleton.1 h
    exact ⟨List.prefix_refl segments, rfl⟩
  | .group info children, segments, inherited, t, h => by
    have h : t ∈ tokensAmong (childEntries origin segments (info.type <|> inherited) children) := h
    obtain ⟨child, -, start, path⟩ := segments_of_mem_children h
    exact ⟨(List.prefix_append segments [child.1]).trans start, path⟩

theorem segments_of_mem_children : ∀ {children : List (String × Node)} {segments : List String}
    {inherited : Option TokenType} {t : FlatToken},
    t ∈ tokensAmong (childEntries origin segments inherited children) →
    ∃ child ∈ children, segments ++ [child.1] <+: t.segments ∧ t.path = joinPath t.segments
  | [], _, _, _, h => by cases h
  | (name, n) :: rest, segments, inherited, t, h => by
    rw [childEntries, tokensAmong_append] at h
    rcases List.mem_append.1 h with h | h
    · exact ⟨(name, n), by simp, Node.segments_of_mem h⟩
    · obtain ⟨child, mem, start⟩ := segments_of_mem_children h
      exact ⟨child, List.mem_cons_of_mem _ mem, start⟩

end

theorem eq_of_prefix {α : Type u} {l below s : List α} {a b : α} (ha : l ++ [a] <+: s)
    (hb : l ++ b :: below <+: s) : a = b := by
  obtain ⟨u, rfl⟩ := ha
  obtain ⟨v, hv⟩ := hb
  simp only [List.append_assoc, List.append_cancel_left_eq, List.cons_append, List.nil_append,
    List.cons.injEq] at hv
  exact hv.1.symm

mutual

theorem Node.filter_tokens_entries : ∀ {n : Node} {segments : List String} (names : List String)
    (inherited : Option TokenType), n.WellNamed →
    (tokensAmong (n.entries origin segments inherited)).filter (segments ++ names <+: ·.segments) =
      (n.at? inherited names).elim [] fun m => tokensAmong (m.2.entries origin (segments ++ names) m.1)
  | n, segments, [], inherited, _ => by
    have all : ∀ t ∈ tokensAmong (n.entries origin segments inherited),
        decide (segments ++ [] <+: t.segments) = true := fun t ht => by
      rw [List.append_nil, decide_eq_true_iff]
      exact (Node.segments_of_mem ht).1
    rw [List.filter_eq_self.2 all, List.append_nil]
    cases n <;> rfl
  | .token t, segments, name :: below, inherited, _ => by
    refine List.filter_eq_nil_iff.2 fun x hx => ?_
    obtain rfl := List.mem_singleton.1 hx
    simp [List.prefix_iff_eq_append]
  | .group info children, segments, name :: below, inherited, named =>
    filter_tokens_childEntries name below _ named

/-- **The tokens below some names** are those of the node there. -/
theorem filter_tokens_childEntries : ∀ {children : List (String × Node)} {segments : List String}
    (name : String) (below : List String) (inherited : Option TokenType), WellNamed children →
    (tokensAmong (childEntries origin segments inherited children)).filter
        (segments ++ name :: below <+: ·.segments) =
      (childAt? inherited children (name :: below)).elim [] fun m =>
        tokensAmong (m.2.entries origin (segments ++ name :: below) m.1)
  | [], _, _, _, _, _ => rfl
  | (name', n) :: rest, segments, name, below, inherited, named => by
    obtain ⟨-, -, fresh, namedNode, namedRest⟩ := named
    rw [childEntries, tokensAmong_append, List.filter_append, childAt?, Table.find?]
    by_cases same : name' = name
    · subst same
      have here : (tokensAmong (n.entries origin (segments ++ [name']) inherited)).filter
          (segments ++ [name'] ++ below <+: ·.segments) = _ :=
        Node.filter_tokens_entries below inherited namedNode
      have later : (tokensAmong (childEntries origin segments inherited rest)).filter
          (segments ++ name' :: below <+: ·.segments) = [] := by
        refine List.filter_eq_nil_iff.2 fun t ht start => ?_
        obtain ⟨child, mem, other, -⟩ := segments_of_mem_children ht
        refine fresh (List.mem_map.2 ⟨child, mem, ?_⟩)
        exact eq_of_prefix other (of_decide_eq_true start)
      rw [List.append_assoc, List.cons_append, List.nil_append] at here
      rw [here, later, List.append_nil, if_pos rfl]
      rfl
    · have here : (tokensAmong (n.entries origin (segments ++ [name']) inherited)).filter
          (segments ++ name :: below <+: ·.segments) = [] := by
        refine List.filter_eq_nil_iff.2 fun t ht start => same ?_
        exact eq_of_prefix (Node.segments_of_mem ht).1 (of_decide_eq_true start)
      rw [here, List.nil_append, filter_tokens_childEntries name below inherited namedRest,
        if_neg same]
      rfl

end

end Below

end DesignTokens
