import DesignTokens.Flat
import DesignTokens.Proofs.Tables
import DesignTokens.Proofs.Text.Pieces

/-!
# Places in a tree

A path leads from the root of a tree to at most one node. The list of entries from which trees are
merged has, at every path, the entry of that node and no other.

* `WellNamed`, `Tree.WellNamed`: names that are not empty, without dots and distinct in every group;
* `Node.at?`, `Tree.at?`: the node at a path, with the type that it inherits;
* `Tree.token?`, `Tree.hasGroup`: the token at a path with its own or inherited type, and whether a
  group is there;
* `Tree.tokenPaths`: the paths of the tokens in the order of the document;
* **`filter_entries`**: the entries of a tree at one path.
-/

namespace DesignTokens

/-! ## Names -/

mutual

/-- Every name below the node may stand in a path and is used once in its group. -/
def Node.WellNamed : Node → Prop
  | .token _ => True
  | .group _ children => WellNamed children

/-- Every name among children and below them may stand in a path and is used once in its group. -/
def WellNamed : List (String × Node) → Prop
  | [] => True
  | (name, n) :: rest =>
    name ≠ "" ∧ '.' ∉ name.toList ∧ name ∉ rest.map Prod.fst ∧ n.WellNamed ∧ WellNamed rest

end

/-- Every name in the tree may stand in a path and is used once in its group. -/
def Tree.WellNamed (t : Tree) : Prop := DesignTokens.WellNamed t.tokens.children

/-- Segments without dots. -/
def DotFree (segments : List String) : Prop := ∀ s ∈ segments, '.' ∉ s.toList

theorem joinPath_injective {ss ts : List String} (hs : DotFree ss) (ht : DotFree ts)
    (ss_ne : ss ≠ []) (ts_ne : ts ≠ []) (h : joinPath ss = joinPath ts) : ss = ts :=
  Text.join_injective hs ht ss_ne ts_ne h

theorem splitOn_joinPath {ss : List String} (hs : DotFree ss) (ne : ss ≠ []) :
    Text.splitOn '.' (joinPath ss) = ss :=
  Text.splitOn_join hs ne

theorem joinPath_splitOn (path : String) : joinPath (Text.splitOn '.' path) = path :=
  Text.join_splitOn '.' path

theorem dotFree_splitOn (path : String) : DotFree (Text.splitOn '.' path) :=
  fun _ h => Text.notMem_of_mem_splitOn h

/-! ## Nodes and tokens at paths -/

/-- The node at segments below a node, with the type that it inherits. -/
def Node.at? (inherited : Option TokenType) : List String → Node → Option (Option TokenType × Node)
  | [], n => some (inherited, n)
  | name :: rest, .group info children =>
    (Table.find? name children).bind (Node.at? (info.type <|> inherited) rest)
  | _ :: _, .token _ => none

/-- The node at segments below children. -/
def childAt? (inherited : Option TokenType) (children : List (String × Node)) :
    List String → Option (Option TokenType × Node)
  | [] => none
  | name :: rest => (Table.find? name children).bind (Node.at? inherited rest)

/-- The node of a tree at a path. The type of the document itself is not inherited. -/
def Tree.at? (t : Tree) (path : String) : Option (Option TokenType × Node) :=
  childAt? none t.tokens.children (Text.splitOn '.' path)

/-- The token of a tree at a path, with its own type or that of the innermost group around it that
has one. -/
def Tree.token? (t : Tree) (path : String) : Option FlatToken :=
  match t.at? path with
  | some (inherited, .token token) => some {
      path
      segments := Text.splitOn '.' path
      value := token.value
      type := token.type <|> inherited
      description := token.description
      extensions := token.extensions
      origin := ⟨token.file.getD t.file, t.context⟩ }
  | _ => none

/-- Whether a group of the tree is at a path. -/
def Tree.hasGroup (t : Tree) (path : String) : Bool :=
  match t.at? path with
  | some (_, .group _ _) => true
  | _ => false

mutual

/-- The paths of the tokens below a node, in the order of the document. -/
def Node.tokenPaths (segments : List String) : Node → List String
  | .token _ => [joinPath segments]
  | .group _ children => childTokenPaths segments children

/-- The paths of the tokens below several nodes. -/
def childTokenPaths (segments : List String) : List (String × Node) → List String
  | [] => []
  | (name, n) :: rest => n.tokenPaths (segments ++ [name]) ++ childTokenPaths segments rest

end

/-- The paths of the tokens of a tree, in the order of the document. -/
def Tree.tokenPaths (t : Tree) : List String := childTokenPaths [] t.tokens.children

/-! ## Entries at a path -/

/-- The path of an entry. -/
def Entry.path : Entry → String
  | .group path _ _ _ => path
  | .token t => t.path

/-- The entry of a node itself. -/
def Node.entry (origin : Origin) (segments : List String) (inherited : Option TokenType) :
    Node → Entry
  | .token t => .token {
      path := joinPath segments
      segments
      value := t.value
      type := t.type <|> inherited
      description := t.description
      extensions := t.extensions
      origin := { origin with file := t.file.getD origin.file } }
  | .group info children =>
    .group (joinPath segments) info origin.file ((DesignTokens.firstFile? children).getD origin.file)

mutual

theorem Node.path_of_mem_entries {origin : Origin} : ∀ {n : Node} {segments : List String}
    {inherited : Option TokenType} {e : Entry}, n.WellNamed →
    e ∈ n.entries origin segments inherited →
    ∃ below, DotFree below ∧ e.path = joinPath (segments ++ below)
  | .token t, segments, inherited, e, _, h => by
    rw [Node.entries, List.mem_singleton] at h
    exact ⟨[], by simp [DotFree], by simp [h, Entry.path]⟩
  | .group info children, segments, inherited, e, named, h => by
    rw [Node.entries] at h
    rcases List.mem_cons.1 h with rfl | h
    · exact ⟨[], by simp [DotFree], by simp [Entry.path]⟩
    · obtain ⟨name, below, dotFree, path⟩ := path_of_mem_childEntries named h
      exact ⟨name :: below, dotFree, path⟩

theorem path_of_mem_childEntries {origin : Origin} : ∀ {children : List (String × Node)}
    {segments : List String} {inherited : Option TokenType} {e : Entry}, WellNamed children →
    e ∈ childEntries origin segments inherited children →
    ∃ name below, DotFree (name :: below) ∧ e.path = joinPath (segments ++ name :: below)
  | [], _, _, _, _, h => by simp [childEntries] at h
  | (name, n) :: rest, segments, inherited, e, named, h => by
    obtain ⟨-, dot, -, namedNode, namedRest⟩ := named
    rw [childEntries] at h
    rcases List.mem_append.1 h with h | h
    · obtain ⟨below, dotFree, path⟩ := Node.path_of_mem_entries namedNode h
      refine ⟨name, below, ?_, by simpa using path⟩
      intro s hs
      rcases List.mem_cons.1 hs with rfl | hs
      · exact dot
      · exact dotFree s hs
    · exact path_of_mem_childEntries namedRest h

end

theorem DotFree.append {ss ts : List String} (hs : DotFree ss) (ht : DotFree ts) :
    DotFree (ss ++ ts) := by
  intro s h
  rcases List.mem_append.1 h with h | h
  · exact hs s h
  · exact ht s h

mutual

theorem Node.filter_entries (origin : Origin) : ∀ {n : Node} {segments below : List String}
    (inherited : Option TokenType), n.WellNamed → DotFree segments → segments ≠ [] →
    DotFree below →
    (n.entries origin segments inherited).filter (·.path = joinPath (segments ++ below)) =
      (n.at? inherited below).toList.map fun m => m.2.entry origin (segments ++ below) m.1
  | .token t, segments, below, inherited, _, hs, ne, hb => by
    cases below with
    | nil => simp [Node.entries, Node.at?, Node.entry, Entry.path]
    | cons name below =>
      have : joinPath segments ≠ joinPath (segments ++ name :: below) := fun h => by
        simpa using joinPath_injective hs (hs.append hb) ne (by simp) h
      simp [Node.entries, Node.at?, Entry.path, this]
  | .group info children, segments, below, inherited, named, hs, ne, hb => by
    rw [Node.entries]
    cases below with
    | nil =>
      have none_below : (childEntries origin segments (info.type <|> inherited) children).filter
          (·.path = joinPath (segments ++ [])) = [] := by
        refine List.filter_eq_nil_iff.2 fun e he => ?_
        obtain ⟨name, below, dotFree, path⟩ := path_of_mem_childEntries named he
        rw [path, decide_eq_true_iff, List.append_nil]
        intro h
        simpa using joinPath_injective (hs.append dotFree) hs (by simp) ne h
      rw [List.filter_cons, none_below]
      simp [Node.at?, Node.entry, Entry.path]
    | cons name below =>
      have own : joinPath segments ≠ joinPath (segments ++ name :: below) := fun h => by
        simpa using joinPath_injective hs (hs.append hb) ne (by simp) h
      rw [List.filter_cons_of_neg (by exact mt of_decide_eq_true own),
        filter_childEntries origin _ named hs hb]
      rfl

theorem filter_childEntries (origin : Origin) : ∀ {children : List (String × Node)}
    {segments below : List String} (inherited : Option TokenType) {name : String},
    WellNamed children → DotFree segments → DotFree (name :: below) →
    (childEntries origin segments inherited children).filter
        (·.path = joinPath (segments ++ name :: below)) =
      (childAt? inherited children (name :: below)).toList.map fun m =>
        m.2.entry origin (segments ++ name :: below) m.1
  | [], _, _, _, _, _, _, _ => by simp [childEntries, childAt?, Table.find?]
  | (name', n) :: rest, segments, below, inherited, name, named, hs, hb => by
    obtain ⟨-, dot, distinct, namedNode, namedRest⟩ := named
    have hs' : DotFree (segments ++ [name']) := hs.append (by simpa [DotFree] using dot)
    rw [childEntries, List.filter_append, filter_childEntries origin _ namedRest hs hb]
    by_cases h : name' = name
    · subst h
      have here := Node.filter_entries origin inherited namedNode hs' (by simp)
        fun s hs => hb s (List.mem_cons_of_mem _ hs)
      simp only [List.append_assoc, List.cons_append, List.nil_append] at here
      rw [here]
      simp [childAt?, Table.find?, Table.find?_eq_none_iff.2 distinct]
    · have elsewhere : (n.entries origin (segments ++ [name']) inherited).filter
          (·.path = joinPath (segments ++ name :: below)) = [] := by
        refine List.filter_eq_nil_iff.2 fun e he => ?_
        obtain ⟨below', dotFree, path⟩ := Node.path_of_mem_entries namedNode he
        rw [path, decide_eq_true_iff]
        intro same
        have := joinPath_injective (hs'.append dotFree) (hs.append hb) (by simp) (by simp) same
        simp [h] at this
      rw [elsewhere]
      simp [childAt?, Table.find?, h]

end

/-- **The entries of a tree at a path** are the entry of the node there. -/
theorem Tree.filter_entries {t : Tree} (named : t.WellNamed) (path : String) :
    t.entries.filter (·.path = path) = (t.at? path).toList.map fun m =>
      m.2.entry ⟨t.file, t.context⟩ (Text.splitOn '.' path) m.1 := by
  unfold Tree.entries Tree.at?
  have hs := dotFree_splitOn path
  have hp := joinPath_splitOn path
  cases h : Text.splitOn '.' path with
  | nil => exact absurd h (Text.splitOn_ne_nil '.' path)
  | cons name below =>
    rw [h] at hs hp
    have := filter_childEntries ⟨t.file, t.context⟩ none named (show DotFree [] by simp [DotFree]) hs
    rwa [List.nil_append, hp] at this

end DesignTokens
