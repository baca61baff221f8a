import DesignTokens.Proofs.Json.Written
import DesignTokens.Proofs.Tree.Reading

/-!
# Parts of token files

A pointer takes a part out of a file, and the part is then read as a document of its own. What is lost
is what the part does not say itself: the types that the groups around it hand on, and its own.

* `Json.pointerNames?`: the names of a pointer; `Json.IsNodeAt`: they lead to a node of the tree;
  `loadGroup_eq_ok_iff_of_isNodeAt`: that node is what is read;
* `ofJson_elsewhere`: what is read does not depend on the path at which it stands;
* `flattened`: the tokens of a group, flattened alone; `FlatToken.below`: a token under some names less;
  `filter_flattened_of_descends`, `exists_part_of_isNodeAt`: the tokens of a group inside a document;
* **`loadGroup_of_isNodeAt`**: what a part of a file has of the tokens of the whole.
-/

namespace DesignTokens

/-! ## The names of a pointer -/

namespace Json

/-- The names that a pointer consists of: its steps without their escapes. -/
def pointerNames? (pointer : String) : Option (List String) :=
  match pointer.toList with
  | [] => some []
  | '/' :: steps => some ((Text.splitChars '/' steps).map fun s => String.ofList (unescapeStep s))
  | _ => none

theorem pointer?_of_pointerNames? {pointer : String} {names : List String}
    (h : pointerNames? pointer = some names) (j : Json) :
    j.pointer? pointer = follow? (names.map String.toList) j := by
  unfold pointerNames? at h
  split at h
  · rename_i empty
    cases h
    rw [pointer?, empty]
    rfl
  · rename_i steps slash
    cases h
    rw [pointer?, slash]
    simp [Function.comp_def]
  · cases h

theorem Descends.follow? {group j : Json} {names : List String} (h : group.Descends names j) :
    follow? (names.map String.toList) group = some j := by
  have step {j k : Json} {name : String} (member : j.member? name = some k) :
      step? name.toList j = some k := by
    cases j with
    | obj members =>
      rw [step?, String.ofList_toList]
      exact member
    | null | bool _ | num _ | str _ | arr _ => cases member
  induction h with
  | member _ member => simp [Json.follow?, step member]
  | group _ member _ _ ih => simp [Json.follow?, step member, ih]

/-- The names lead from a document to a node of its tree: to the document itself, or to what a walk by
these names comes to. -/
def IsNodeAt (document : Json) (names : List String) (k : Json) : Prop :=
  names = [] ∧ k = document ∨ document.Descends names k

end Json

section File

variable {fs : FileSystem} {file : Path} {text pointer : String} {document k : Json}
  {names : List String}

theorem loadGroup_eq_ok_iff_of_isNodeAt (stored : fs file = .ok text)
    (parsed : Json.parse? text = some document) (steps : Json.pointerNames? pointer = some names)
    (node : document.IsNodeAt names k) {part : Group} :
    loadGroup fs file (some pointer) = .ok part ↔ Group.ofJson file k = .ok part := by
  have here : document.pointer? pointer = some k := by
    rw [Json.pointer?_of_pointerNames? steps]
    obtain ⟨rfl, rfl⟩ | descends := node
    · rfl
    · exact descends.follow?
  rw [loadGroup_eq_ok]
  constructor
  · rintro ⟨text', document', k', read, value, same, h⟩
    cases stored.symm.trans read
    cases parsed.symm.trans value
    cases here.symm.trans same
    exact h
  · exact fun h => ⟨text, document, k, stored, parsed, here, h⟩

theorem loadGroup_none_eq_ok_iff (stored : fs file = .ok text) (parsed : Json.parse? text = some document)
    {whole : Group} : loadGroup fs file none = .ok whole ↔ Group.ofJson file document = .ok whole := by
  rw [loadGroup_eq_ok]
  constructor
  · rintro ⟨text', document', part, read, value, rfl, h⟩
    cases stored.symm.trans read
    cases parsed.symm.trans value
    exact h
  · exact fun h => ⟨text, document, document, stored, parsed, rfl, h⟩

end File

/-! ## The same node elsewhere -/

section Elsewhere

variable {file : Path}

theorem childRead_elsewhere {path : String} (path' : String) {members : List (String × Json)}
    {children : List (String × Node)} (read : List.Forall₂ (ChildRead file path) members children)
    (each : ∀ m ∈ members, ∀ path n, Node.ofJson file path m.2 = .ok n →
      ∀ path', Node.ofJson file path' m.2 = .ok n) :
    List.Forall₂ (ChildRead file path') members children := by
  induction read with
  | nil => exact .nil
  | cons first _ ih =>
    obtain ⟨here, later⟩ := List.forall_mem_cons.1 each
    exact .cons ⟨first.1, first.2.1, here _ _ first.2.2 _⟩ (ih later)

/-- **What is read** does not depend on the path at which it stands. -/
theorem ofJson_elsewhere {j : Json} : ∀ path n, Node.ofJson file path j = .ok n →
    ∀ path', Node.ofJson file path' j = .ok n := by
  induction j using Json.parts_induction with
  | scalar j kind =>
    intro path n h
    cases j with
    | arr _ | obj _ => cases kind
    | null | bool _ | num _ | str _ => cases h
  | arr items _ =>
    intro path n h
    cases h
  | obj members ih =>
    intro path n h path'
    rw [Node.ofJson] at h ⊢
    cases found : Table.find? "$value" members with
    | some value =>
      rw [found] at h
      obtain ⟨t, ht, rfl⟩ := map_eq_ok.1 h
      exact map_eq_ok.2
        ⟨t, (tokenOfMembers_eq_ok found).2 ((tokenOfMembers_eq_ok found).1 ht), rfl⟩
    | none =>
      rw [found] at h
      obtain ⟨⟨info, children⟩, hr, h⟩ := bind_eq_ok.1 h
      obtain ⟨types, said, read⟩ := membersOfJson_eq_ok.1 hr
      refine bind_eq_ok.2 ⟨(info, children), membersOfJson_eq_ok.2 ⟨types, said, ?_⟩, h⟩
      exact childRead_elsewhere path' read fun m hm => ih m (mem_plainMembers.1 hm).1

theorem ofJson_of_membersOfJson {path : String} {members : List (String × Json)} {g : Group}
    (h : membersOfJson file path .empty members = .ok (g.info, g.children)) :
    Group.ofJson file (.obj members) = .ok g := by
  obtain ⟨types, said, read⟩ := membersOfJson_eq_ok.1 h
  refine ofJson_eq_ok.2 ⟨members, rfl, membersOfJson_eq_ok.2 ⟨types, said, ?_⟩⟩
  exact childRead_elsewhere "" read fun _ _ => ofJson_elsewhere

end Elsewhere

/-! ## The tokens of a part -/

/-- The token under some names less. -/
def FlatToken.below (names : List String) (t : FlatToken) : FlatToken :=
  { t with
    path := joinPath (t.segments.drop names.length)
    segments := t.segments.drop names.length }

/-- The tokens of a group that is flattened alone. -/
def flattened (c : Context) (file : Path) (g : Group) : List FlatToken :=
  (((flatten [⟨c, g, file⟩]).get? c).map (·.tokens.values)).getD []

theorem flattened_eq {c : Context} {file : Path} {g : Group} (named : Tree.WellNamed ⟨c, g, file⟩) :
    flattened c file g = Tree.flatTokens ⟨c, g, file⟩ := by
  have alone : [Tree.mk c g file].filter (·.context = c) = [⟨c, g, file⟩] := by simp
  rw [flattened, get?_flatten_eq_some_iff.2 ⟨mem_contextsOf_singleton ⟨c, g, file⟩, rfl⟩, alone]
  exact values_ofTrees_singleton named

theorem below_under {names : List String} {handed : Option TokenType} {t : FlatToken}
    (path : t.path = joinPath t.segments) :
    (t.under names handed).below names = { t with type := t.type <|> handed } := by
  rw [FlatToken.below, FlatToken.under]
  simp only [List.drop_left, ← path]

section Part

variable {file : Path} {document : Json} {whole : Group} (distinct : document.Distinct)
  (read : Group.ofJson file document = .ok whole) (c : Context) {names : List String} {k : Json}

theorem wellNamed_of_ofJson (distinct : document.Distinct)
    (read : Group.ofJson file document = .ok whole) (c : Context) :
    Tree.WellNamed ⟨c, whole, file⟩ :=
  Tree.Parsed.wellNamed ⟨file, document, distinct, read⟩

include distinct read

theorem path_of_mem_flattened {t : FlatToken} (h : t ∈ flattened c file whole) :
    t.path = joinPath t.segments ∧ t.segments ≠ [] := by
  rw [flattened_eq (wellNamed_of_ofJson distinct read c)] at h
  obtain ⟨child, -, start, path⟩ := segments_of_mem_children h
  refine ⟨path, fun empty => ?_⟩
  simp [empty] at start

theorem filter_flattened (ne : names ≠ []) :
    (flattened c file whole).filter (names <+: ·.segments) =
      (childAt? none whole.children names).elim [] fun m =>
        tokensAmong (m.2.entries ⟨file, c⟩ names m.1) := by
  obtain ⟨name, below, rfl⟩ := List.exists_cons_of_ne_nil ne
  rw [flattened_eq (wellNamed_of_ofJson distinct read c)]
  exact @filter_tokens_childEntries _ whole.children [] name below none
    (wellNamed_of_ofJson distinct read c)

/-- **The tokens of a group inside a document** are those of the group alone, under its names and with
the type that it hands on. -/
theorem filter_flattened_of_descends (descends : document.Descends names k)
    (absent : k.hasMember "$value" = false) : ∃ part, Group.ofJson file k = .ok part ∧
      (flattened c file whole).filter (names <+: ·.segments) =
        (flattened c file part).map (.under names (innermostType? (document.passed names))) := by
  obtain ⟨members, rfl, h⟩ := ofJson_eq_ok.1 read
  obtain ⟨handed, n, place, found, hk, type⟩ := childAt?_of_descends descends rfl distinct.2 h none
  have here : k.Distinct := distinct.descends descends
  obtain ⟨inner, below, rfl, rfl, hin⟩ := groupInfo_of_ofJson absent here hk
  let part : Group := ⟨(Json.obj inner).groupInfo, below⟩
  have partRead : Group.ofJson file (.obj inner) = .ok part := ofJson_of_membersOfJson hin
  have handedOn : ((Json.obj inner).statedType? <|> handed) =
      (none <|> innermostType? ((Json.obj members).passed names)) := by
    rw [type]
    cases innermostType? ((Json.obj members).passed names) <;> rfl
  have under := tokens_childEntries_under ⟨file, c⟩ names
    (innermostType? ((Json.obj members).passed names)) below [] none
  refine ⟨part, partRead, ?_⟩
  rw [filter_flattened distinct read c descends.names_ne_nil, found,
    flattened_eq (wellNamed_of_ofJson here partRead c)]
  rw [← handedOn, List.append_nil] at under
  exact under

theorem filter_flattened_of_token (descends : document.Descends names k) {value : Json}
    (stated : k.member? "$value" = some value) :
    ∃ t, (flattened c file whole).filter (names <+: ·.segments) = [t] ∧ t.segments = names ∧
      t.value = value := by
  obtain ⟨members, rfl, h⟩ := ofJson_eq_ok.1 read
  obtain ⟨handed, n, place, found, hk, -⟩ := childAt?_of_descends descends rfl distinct.2 h none
  obtain ⟨t, rfl, own, -⟩ := token_of_ofJson (by rw [Json.hasMember, stated]; rfl) hk
  rw [filter_flattened distinct read c descends.names_ne_nil, found]
  exact ⟨_, rfl, rfl, Option.some.inj (own.symm.trans stated)⟩

theorem segments_under_ne {t : FlatToken} (h : t ∈ flattened c file whole) (names : List String)
    (handed : Option TokenType) : (t.under names handed).segments ≠ names := fun same =>
  (path_of_mem_flattened distinct read c h).2 (List.append_right_eq_self.1 same)

end Part

theorem under_nil {t : FlatToken} (path : t.path = joinPath t.segments) : t.under [] none = t := by
  rw [FlatToken.under, List.nil_append, ← path]
  cases t with
  | mk _ _ _ type _ _ _ => cases type <;> rfl

theorem exists_part_of_isNodeAt {file : Path} {document k : Json} {whole : Group} {names : List String}
    (distinct : document.Distinct) (read : Group.ofJson file document = .ok whole) (c : Context)
    (node : document.IsNodeAt names k) (isGroup : names = [] ∨ k.hasMember "$value" = false) :
    ∃ part, k.Distinct ∧ Group.ofJson file k = .ok part ∧
      (flattened c file whole).filter (names <+: ·.segments) =
        (flattened c file part).map (.under names (innermostType? (document.passed names))) := by
  obtain ⟨rfl, rfl⟩ | descends := node
  · -- the whole file is a part of itself
    refine ⟨whole, distinct, read, ?_⟩
    have all : (flattened c file whole).filter ([] <+: ·.segments) = flattened c file whole :=
      List.filter_eq_self.2 fun t _ => decide_eq_true (List.nil_prefix)
    rw [all, eq_comm]
    exact (List.map_congr_left fun t ht =>
      under_nil (path_of_mem_flattened distinct read c ht).1).trans (List.map_id _)
  · have absent := isGroup.resolve_left descends.names_ne_nil
    obtain ⟨part, partRead, tokens⟩ := filter_flattened_of_descends distinct read c descends absent
    exact ⟨part, distinct.descends descends, partRead, tokens⟩

theorem mem_metadata_of_value {file : Path} {k value : Json} {part : Group} (here : k.Distinct)
    (partRead : Group.ofJson file k = .ok part) (stated : k.member? "$value" = some value) :
    ("$value", value) ∈ part.info.metadata := by
  rw [info_eq here partRead]
  cases k with
  | obj members =>
    have kept : (Text.startsWith "$" "$value" &&
        "$value" ∉ ["$type", "$description", "$extensions"]) = true := by decide
    exact List.mem_filter.2 ⟨Table.mem_of_find?_eq_some stated, kept⟩
  | null | bool _ | num _ | str _ | arr _ => cases stated

theorem map_below_under_eq_self_iff {names : List String} {handed : Option TokenType}
    {tokens : List FlatToken} (paths : ∀ t ∈ tokens, t.path = joinPath t.segments) :
    (tokens.map (.under names handed)).map (.below names) = tokens ↔
      handed = none ∨ ∀ t ∈ tokens, t.type ≠ none := by
  have typed (t : FlatToken) : { t with type := t.type <|> handed } = t ↔
      handed = none ∨ t.type ≠ none := by
    obtain ⟨_, _, _, type, _, _, _⟩ := t
    cases type <;> cases handed <;> simp
  have each : (tokens.map (.under names handed)).map (.below names) = tokens.map id ↔
      ∀ t ∈ tokens, handed = none ∨ t.type ≠ none := by
    rw [List.map_map, List.map_inj_left]
    refine forall₂_congr fun t ht => ?_
    rw [Function.comp_apply, below_under (paths t ht)]
    exact typed t
  rw [List.map_id] at each
  rw [each]
  cases handed <;> simp

/-- **What a part of a file has of the tokens of the whole.** All of a file is accepted, and a pointer
leads to a node of its tree. If the node is a group, the part is loaded too. It has exactly the tokens
below the group, in their order, each with the same value, description, extensions and origin, under
shorter paths; but the types that the groups on the way hand on, the last one included, are lost. So
nothing is lost if these state no type, or if every token has one from further inside, and only then. If
the node is a token, the part is loaded exactly if the object of the token is a document, a group with
a strange member `$value`; no token that is loaded is the one at the pointer. -/
theorem loadGroup_of_isNodeAt {fs : FileSystem} {file : Path} {text pointer : String}
    {document k : Json} {names : List String} {whole : Group} (stored : fs file = .ok text)
    (parsed : Json.parse? text = some document) (read : loadGroup fs file none = .ok whole)
    (steps : Json.pointerNames? pointer = some names) (node : document.IsNodeAt names k)
    (c : Context) :
    (names = [] ∨ k.hasMember "$value" = false →
      ∃ part, loadGroup fs file (some pointer) = .ok part ∧
        (flattened c file whole).filter (names <+: ·.segments) =
          (flattened c file part).map (.under names (innermostType? (document.passed names))) ∧
        (((flattened c file whole).filter (names <+: ·.segments)).map (.below names) =
            flattened c file part ↔
          innermostType? (document.passed names) = none ∨
            ∀ t ∈ flattened c file part, t.type ≠ none)) ∧
    ∀ value, names ≠ [] → k.member? "$value" = some value →
      ((∃ part, loadGroup fs file (some pointer) = .ok part) ↔ k.IsDocument) ∧
      ∃ t, (flattened c file whole).filter (names <+: ·.segments) = [t] ∧ t.segments = names ∧
        t.value = value ∧ ∀ part, loadGroup fs file (some pointer) = .ok part →
          ("$value", value) ∈ part.info.metadata ∧
          ∀ u ∈ flattened c file part, ∀ handed, u.under names handed ≠ t := by
  have distinct : document.Distinct := Json.distinct_of_parse? parsed
  have loads {part : Group} :
      loadGroup fs file (some pointer) = .ok part ↔ Group.ofJson file k = .ok part :=
    loadGroup_eq_ok_iff_of_isNodeAt stored parsed steps node
  replace read := (loadGroup_none_eq_ok_iff stored parsed).1 read
  constructor
  · intro isGroup
    obtain ⟨part, here, partRead, tokens⟩ := exists_part_of_isNodeAt distinct read c node isGroup
    refine ⟨part, loads.2 partRead, tokens, ?_⟩
    rw [tokens]
    exact map_below_under_eq_self_iff fun t ht => (path_of_mem_flattened here partRead c ht).1
  · intro value ne stated
    obtain ⟨empty, -⟩ | descends := node
    · exact absurd empty ne
    have here : k.Distinct := distinct.descends descends
    obtain ⟨t, only, segments, own⟩ := filter_flattened_of_token distinct read c descends stated
    refine ⟨(exists_congr fun part => loads).trans (exists_ofJson_eq_ok_iff here), t, only, segments, own,
      fun part h => ⟨mem_metadata_of_value here (loads.1 h) stated, fun u hu handed same => ?_⟩⟩
    exact segments_under_ne here (loads.1 h) c hu names handed (same ▸ segments)

/-- A document with a group that states the type of the color in it. -/
def horizon : Json := .obj [("sky", daySky)]

/-- A disk with the document, whatever the file is called. -/
def horizonDisk : FileSystem := fun _ => .ok horizon.compact

theorem parse?_horizon : Json.parse? horizon.compact = some horizon := by
  have read : Json.Raw.read horizon.compact = some (Json.Raw.ofJson horizon) :=
    Json.read_compact fun n hn => (List.not_mem_nil (show n ∈ [] from hn)).elim
  rw [Json.parse?, read]
  rfl

/-- The tree of the document. -/
def horizonGroup : Group where
  info := .empty
  children := [("sky", .group { GroupInfo.empty with type := some .color }
    [("bg", .token ⟨.str "#fff", none, none, none, some skyFile⟩)])]

theorem loadGroup_horizon : loadGroup horizonDisk skyFile none = .ok horizonGroup := by
  refine loadGroup_eq_ok.2 ⟨_, horizon, horizon, rfl, parse?_horizon, rfl, rfl⟩

/-- Read from a pointer to the group, the color in it is there. -/
theorem loadGroup_of_isNodeAt_horizon :
    (horizonDisk skyFile = .ok horizon.compact ∧ Json.parse? horizon.compact = some horizon ∧
      loadGroup horizonDisk skyFile none = .ok horizonGroup ∧
      Json.pointerNames? "/sky" = some ["sky"] ∧ horizon.IsNodeAt ["sky"] daySky) ∧
    ∃ part, loadGroup horizonDisk skyFile (some "/sky") = .ok part ∧
      (flattened .base skyFile horizonGroup).filter (["sky"] <+: ·.segments) =
        (flattened .base skyFile part).map (.under ["sky"] (some .color)) := by
  have steps : Json.pointerNames? "/sky" = some ["sky"] := by decide
  have node : horizon.IsNodeAt ["sky"] daySky := .inr (.member rfl rfl)
  obtain ⟨part, loaded, tokens, -⟩ :=
    (loadGroup_of_isNodeAt rfl parse?_horizon loadGroup_horizon steps node .base).1 (.inr rfl)
  exact ⟨⟨rfl, parse?_horizon, loadGroup_horizon, steps, node⟩, part, loaded, tokens⟩

/-- It has lost the type that it has in the whole, and a pointer to the color itself leads to a group
without tokens. -/
theorem untyped_part_of_horizon :
    loadGroup horizonDisk skyFile none = .ok horizonGroup ∧
    (flattened .base skyFile horizonGroup).map (fun t => (t.path, t.type)) =
      [("sky.bg", some .color)] ∧
    (∃ part, loadGroup horizonDisk skyFile (some "/sky") = .ok part ∧
      (flattened .base skyFile part).map (fun t => (t.path, t.type)) = [("bg", none)]) ∧
    ∃ part, loadGroup horizonDisk skyFile (some "/sky/bg") = .ok part ∧
      flattened .base skyFile part = [] :=
  ⟨loadGroup_horizon, rfl,
    ⟨_, loadGroup_eq_ok.2 ⟨_, horizon, daySky, rfl, parse?_horizon, rfl, rfl⟩, rfl⟩,
    _, loadGroup_eq_ok.2 ⟨_, horizon, paleSky, rfl, parse?_horizon, rfl, rfl⟩, rfl⟩

end DesignTokens
