import DesignTokens.Proofs.Resolution.References
import DesignTokens.Proofs.Tree.Types
import Mathlib.Data.List.Nodup

/-!
# Documents that are read

Which values have a token tree, and what is in it. The document is walked from the outside: it is a
group, whatever it says, and so is every object in a group that has no `$value`; the members of a group
whose names do not begin with a dollar sign are its children.

* `Json.Descends`: what the walk comes to, and by which names;
* `IsName`, `Json.IsNode`, `Json.IsDocument`: what is asked of names, of the objects on the walk, and of
  a document;
* `Json.tokenObjects`: the objects with a value, in the order of the document; `Json.token`,
  `Json.groupInfo`: what such an object, and what a group, says; `Group.leaves`: the tokens of a tree;
* `tokenOfMembers_eq_ok`, `membersOfJson_eq_ok`: a token and a group are read member by member;
* `exists_membersOfJson_iff`: when a group is read; `leaves_of_ofJson`: the tokens of what is read;
  `mem_walkEnds_iff`: where walks end; `childAt?_of_descends`: what stands at the end of a walk;
* **`ofJson_reads_documents`**: exactly the documents are read, and what the tree keeps of them.
-/

namespace DesignTokens

/-! ## What is asked of a document -/

/-- A name that is not empty and has neither braces nor dots. -/
def IsName (name : String) : Prop := name ≠ "" ∧ ∀ c ∈ name.toList, c ≠ '{' ∧ c ≠ '}' ∧ c ≠ '.'

namespace Json

/-- The walk from a group comes to a value by these names. It goes on from objects without `$value`. -/
inductive Descends : Json → List String → Json → Prop
  | member {group j : Json} {name : String} (plain : Text.startsWith "$" name = false)
      (member : group.member? name = some j) : Descends group [name] j
  | group {outer inner j : Json} {name : String} {names : List String}
      (plain : Text.startsWith "$" name = false) (member : outer.member? name = some inner)
      (value : inner.hasMember "$value" = false) (below : Descends inner names j) :
      Descends outer (name :: names) j

/-- An object that states its type by a string, or none. -/
structure IsNode (j : Json) : Prop where
  object : ∃ members, j = .obj members
  type : ∀ t, j.member? "$type" = some t → ∃ name, t = .str name

/-- What is asked of a value to which a walk comes by some names. -/
structure IsPlace (names : List String) (j : Json) : Prop where
  names : ∀ name ∈ names, IsName name
  node : j.IsNode
  value : j.member? "$value" ≠ some .null

/-- What is asked of a document, which is a group even if it has `$value`. -/
structure IsDocument (document : Json) : Prop where
  node : document.IsNode
  places : ∀ names j, document.Descends names j → IsPlace names j

end Json

/-! ## What a document says -/

namespace Json

/-- The token of an object with `$value`. -/
def token (file : Path) (j : Json) : Token where
  value := (j.member? "$value").getD .null
  type := j.statedType?
  description := (j.member? "$description").bind string?
  extensions := j.member? "$extensions"
  file := some file

/-- Whether a member of a group is kept as it is: its name begins with a dollar sign, and it is neither
the type, nor the description, nor the extensions. -/
def isMetadata (m : String × Json) : Bool :=
  Text.startsWith "$" m.1 && m.1 ∉ ["$type", "$description", "$extensions"]

/-- What an object says about itself as a group. -/
def groupInfo (j : Json) : GroupInfo where
  type := j.statedType?
  description := (j.member? "$description").bind string?
  extensions := j.member? "$extensions"
  metadata := (j.members?.getD []).filter isMetadata

mutual

/-- The objects with a value among which a walk from an object ends, with the names from there, in the
order of the document: the object itself, or those below it. -/
def walkEnds : Json → List (List String × Json)
  | .obj members =>
    if (Table.find? "$value" members).isSome then [([], .obj members)] else memberWalkEnds members
  | _ => []

/-- The objects with a value among which the walks from members of a group end. -/
def memberWalkEnds : List (String × Json) → List (List String × Json)
  | [] => []
  | (name, j) :: rest =>
    (if Text.startsWith "$" name then [] else (walkEnds j).map fun e => (name :: e.1, e.2)) ++
      memberWalkEnds rest

end

/-- The objects with a value to which the walk from a group comes, with their names, in the order of the
document. -/
def tokenObjects (group : Json) : List (List String × Json) :=
  memberWalkEnds (group.members?.getD [])

end Json

mutual

/-- The tokens below a node, with the names that lead to them, in order. -/
def Node.leaves : Node → List (List String × Token)
  | .token t => [([], t)]
  | .group _ children => childLeaves children

/-- The tokens below several nodes. -/
def childLeaves : List (String × Node) → List (List String × Token)
  | [] => []
  | (name, n) :: rest => (n.leaves.map fun t => (name :: t.1, t.2)) ++ childLeaves rest

end

/-- The tokens of a group at any depth, with the names that lead to them, in order. -/
def Group.leaves (g : Group) : List (List String × Token) := childLeaves g.children

/-! ## One object -/

section Object

variable {file : Path} {path : String}

theorem nameFault?_eq_none_iff {name : String} (plain : Text.startsWith "$" name = false) :
    nameFault? name = none ↔ IsName name := by
  unfold nameFault? IsName
  by_cases empty : name = ""
  · simp [empty]
  · rw [if_neg (by simpa using empty), if_neg (by simp [plain])]
    split
    · rename_i brace
      obtain ⟨c, hc, isBrace⟩ := List.any_eq_true.1 brace
      refine iff_of_false (by simp) fun ⟨_, fine⟩ => ?_
      obtain ⟨opening, closing, -⟩ := fine c hc
      simp [opening, closing] at isBrace
    · rename_i noBrace
      split
      · rename_i dot
        exact iff_of_false (by simp) fun ⟨_, fine⟩ => (fine '.' dot).2.2 rfl
      · rename_i noDot
        refine iff_of_true rfl ⟨empty, fun c hc => ?_⟩
        have none : ∀ c ∈ name.toList, c ≠ '{' ∧ c ≠ '}' := by simpa using noBrace
        exact ⟨(none c hc).1, (none c hc).2, fun h => noDot (h ▸ hc)⟩

/-- **A token** is read if its value is not null and its type is a string, and then as it is stated. -/
theorem tokenOfMembers_eq_ok {members : List (String × Json)} {value : Json}
    (found : (Json.obj members).member? "$value" = some value) {t : Token} :
    Token.ofMembers file path value members = .ok t ↔
      value ≠ .null ∧ (Json.obj members).IsNode ∧ t = (Json.obj members).token file := by
  have node : (Json.obj members).IsNode ↔
      ∀ j, Table.find? "$type" members = some j → ∃ name, j = .str name :=
    ⟨fun h => h.type, fun h => ⟨⟨members, rfl⟩, h⟩⟩
  have stated : (Json.obj members).token file =
      ⟨value, ((Table.find? "$type" members).bind Json.string?).map TokenType.ofName,
        (Table.find? "$description" members).bind Json.string?,
        Table.find? "$extensions" members, some file⟩ := by
    unfold Json.token
    rw [found]
    rfl
  rw [node, stated]
  cases value with
  | null => exact iff_of_false (fun h => nomatch h) fun h => h.1 rfl
  | bool _ | num _ | str _ | arr _ | obj _ =>
    unfold Token.ofMembers
    cases Table.find? "$type" members with
    | none => simp [bind, Except.bind, pure, Except.pure, eq_comm]
    | some j =>
      cases j with
      | str name =>
        simp [typeOfJson, bind, Except.bind, pure, Except.pure, Functor.map, Except.map, Json.string?,
          eq_comm]
      | null | bool _ | num _ | arr _ | obj _ =>
        simp [typeOfJson, bind, Except.bind, Functor.map, Except.map]

/-! ## Members of a group -/

/-- What is said about a group after a member with a dollar sign. -/
def GroupInfo.note (info : GroupInfo) (m : String × Json) : GroupInfo :=
  if m.1 = "$type" then { info with type := m.2.string?.map .ofName }
  else if m.1 = "$description" then { info with description := m.2.string? }
  else if m.1 = "$extensions" then { info with extensions := some m.2 }
  else { info with metadata := Table.alterEntries m.1 (fun _ => m.2) info.metadata }

theorem add_eq_ok {info info' : GroupInfo} {m : String × Json} :
    info.add file path m.1 m.2 = .ok info' ↔
      (m.1 = "$type" → ∃ name, m.2 = .str name) ∧ info' = info.note m := by
  unfold GroupInfo.add GroupInfo.note
  by_cases type : m.1 = "$type"
  · rw [if_pos type, if_pos type, bind_eq_ok]
    cases m.2 <;> simp [typeOfJson, type, pure, Except.pure, Json.string?, eq_comm]
  · rw [if_neg type, if_neg type]
    by_cases description : m.1 = "$description"
    · simp [description, eq_comm]
    · by_cases extensions : m.1 = "$extensions" <;> simp [type, description, extensions, eq_comm]

/-- The members that a group says about itself. -/
def saidMembers (members : List (String × Json)) : List (String × Json) :=
  members.filter fun m => Text.startsWith "$" m.1

/-- The members that are the children of a group. -/
def plainMembers (members : List (String × Json)) : List (String × Json) :=
  members.filter fun m => !Text.startsWith "$" m.1

/-- A child is read from a member. -/
def ChildRead (file : Path) (path : String) (m : String × Json) (child : String × Node) : Prop :=
  nameFault? m.1 = none ∧ child.1 = m.1 ∧ Node.ofJson file (childPath path m.1) m.2 = .ok child.2

/-- **A group is read** member by member: what it says in order, and its children in order. -/
theorem membersOfJson_eq_ok {info info' : GroupInfo} {members : List (String × Json)}
    {children : List (String × Node)} :
    membersOfJson file path info members = .ok (info', children) ↔
      (∀ m ∈ members, m.1 = "$type" → ∃ name, m.2 = .str name) ∧
      info' = (saidMembers members).foldl .note info ∧
      List.Forall₂ (ChildRead file path) (plainMembers members) children := by
  induction members generalizing info children with
  | nil =>
    simp [membersOfJson, saidMembers, plainMembers, eq_comm]
  | cons m rest ih =>
    unfold membersOfJson
    cases dollar : Text.startsWith "$" m.1 with
    | true =>
      have said : saidMembers (m :: rest) = m :: saidMembers rest := by simp [saidMembers, dollar]
      have plain : plainMembers (m :: rest) = plainMembers rest := by simp [plainMembers, dollar]
      rw [if_pos rfl, bind_eq_ok, said, plain, List.forall_mem_cons, List.foldl_cons]
      constructor
      · rintro ⟨_, added, h⟩
        obtain ⟨type, rfl⟩ := add_eq_ok.1 added
        obtain ⟨types, rfl, read⟩ := ih.1 h
        exact ⟨⟨type, types⟩, rfl, read⟩
      · rintro ⟨⟨type, types⟩, rfl, read⟩
        exact ⟨_, add_eq_ok.2 ⟨type, rfl⟩, ih.2 ⟨types, rfl, read⟩⟩
    | false =>
      have said : saidMembers (m :: rest) = saidMembers rest := by simp [saidMembers, dollar]
      have plain : plainMembers (m :: rest) = m :: plainMembers rest := by simp [plainMembers, dollar]
      have other : m.1 = "$type" → ∃ name, m.2 = .str name := by
        intro h
        rw [h] at dollar
        cases dollar
      rw [if_neg Bool.false_ne_true, said, plain, List.forall_mem_cons, List.forall₂_cons_left_iff]
      constructor
      · intro h
        cases fine : nameFault? m.1 with
        | some fault =>
          rw [fine] at h
          cases h
        | none =>
          rw [fine] at h
          obtain ⟨n, hn, h⟩ := bind_eq_ok.1 h
          obtain ⟨⟨_, more⟩, hmore, h⟩ := bind_eq_ok.1 h
          cases h
          obtain ⟨types, rfl, read⟩ := ih.1 hmore
          exact ⟨⟨other, types⟩, rfl, (m.1, n), more, ⟨fine, rfl, hn⟩, read, rfl⟩
      · rintro ⟨⟨-, types⟩, rfl, ⟨name, n⟩, more, ⟨fine, rfl, hn⟩, read, rfl⟩
        rw [fine]
        exact bind_eq_ok.2 ⟨n, hn, bind_eq_ok.2 ⟨(_, more), ih.2 ⟨types, rfl, read⟩, rfl⟩⟩

/-! ## When a value is read -/

theorem mem_plainMembers {members : List (String × Json)} {m : String × Json} :
    m ∈ plainMembers members ↔ m ∈ members ∧ Text.startsWith "$" m.1 = false := by
  simp [plainMembers]

theorem Json.descends_iff {group j : Json} {names : List String} :
    group.Descends names j ↔ ∃ name inner, Text.startsWith "$" name = false ∧
      group.member? name = some inner ∧ (names = [name] ∧ j = inner ∨
        ∃ more, names = name :: more ∧ inner.hasMember "$value" = false ∧ inner.Descends more j) := by
  constructor
  · intro h
    cases h with
    | member plain member => exact ⟨_, _, plain, member, .inl ⟨rfl, rfl⟩⟩
    | group plain member value below => exact ⟨_, _, plain, member, .inr ⟨_, rfl, value, below⟩⟩
  · rintro ⟨name, inner, plain, member, ⟨rfl, rfl⟩ | ⟨more, rfl, value, below⟩⟩
    · exact .member plain member
    · exact .group plain member value below

theorem places_iff {members : List (String × Json)} (nodup : (members.map Prod.fst).Nodup) :
    (∀ names j, (Json.obj members).Descends names j → Json.IsPlace names j) ↔
      ∀ m ∈ plainMembers members, Json.IsPlace [m.1] m.2 ∧ (m.2.hasMember "$value" = false →
        ∀ names j, m.2.Descends names j → Json.IsPlace names j) := by
  constructor
  · intro h m hm
    obtain ⟨mem, plain⟩ := mem_plainMembers.1 hm
    have member : (Json.obj members).member? m.1 = some m.2 := Table.find?_eq_some_of_mem nodup mem
    refine ⟨h _ _ (.member plain member), fun value names j below => ?_⟩
    have place := h _ _ (.group plain member value below)
    exact ⟨fun name hn => place.names name (List.mem_cons_of_mem _ hn), place.node, place.value⟩
  · intro h names j descends
    obtain ⟨name, inner, plain, member, rest⟩ := Json.descends_iff.1 descends
    have mem : (name, inner) ∈ plainMembers members :=
      mem_plainMembers.2 ⟨Table.mem_of_find?_eq_some member, plain⟩
    obtain ⟨here, deeper⟩ := h _ mem
    rcases rest with ⟨rfl, rfl⟩ | ⟨more, rfl, value, below⟩
    · exact here
    · have place := deeper value more j below
      refine ⟨List.forall_mem_cons.2 ⟨here.names name (by simp), place.names⟩, place.node, place.value⟩

theorem isNode_obj_iff {members : List (String × Json)} (nodup : (members.map Prod.fst).Nodup) :
    (Json.obj members).IsNode ↔ ∀ m ∈ members, m.1 = "$type" → ∃ name, m.2 = .str name := by
  constructor
  · rintro ⟨-, type⟩ ⟨key, j⟩ hm rfl
    exact type j (Table.find?_eq_some_of_mem nodup hm)
  · intro h
    exact ⟨⟨members, rfl⟩, fun t ht => h _ (Table.mem_of_find?_eq_some ht) rfl⟩

variable (file path) in
theorem exists_ofJson_iff {j : Json}
    (group : ∀ members, j = .obj members → ((∃ r, membersOfJson file path .empty members = .ok r) ↔
      j.IsNode ∧ ∀ names k, j.Descends names k → Json.IsPlace names k)) :
    (∃ n, Node.ofJson file path j = .ok n) ↔ j.IsNode ∧ j.member? "$value" ≠ some .null ∧
      (j.hasMember "$value" = false → ∀ names k, j.Descends names k → Json.IsPlace names k) := by
  cases j with
  | obj members =>
    rw [Node.ofJson]
    cases found : Table.find? "$value" members with
    | some value =>
      have member : (Json.obj members).member? "$value" = some value := found
      have has : (Json.obj members).hasMember "$value" = true := by rw [Json.hasMember, member]; rfl
      rw [member, has]
      constructor
      · rintro ⟨n, hn⟩
        obtain ⟨t, ht, rfl⟩ := map_eq_ok.1 hn
        obtain ⟨nonnull, node, -⟩ := (tokenOfMembers_eq_ok member).1 ht
        exact ⟨node, fun h => nonnull (Option.some.inj h), fun h => Bool.noConfusion h⟩
      · rintro ⟨node, nonnull, -⟩
        exact ⟨_, map_eq_ok.2 ⟨_, (tokenOfMembers_eq_ok member).2
          ⟨fun h => nonnull (congrArg some h), node, rfl⟩, rfl⟩⟩
    | none =>
      have member : (Json.obj members).member? "$value" = none := found
      have has : (Json.obj members).hasMember "$value" = false := by rw [Json.hasMember, member]; rfl
      rw [member, has]
      simp only [ne_eq, reduceCtorEq, not_false_eq_true, true_and, forall_const]
      rw [← group members rfl]
      constructor
      · rintro ⟨n, hn⟩
        obtain ⟨r, hr, -⟩ := bind_eq_ok.1 hn
        exact ⟨r, hr⟩
      · rintro ⟨r, hr⟩
        exact ⟨_, bind_eq_ok.2 ⟨r, hr, rfl⟩⟩
  | null | bool _ | num _ | str _ | arr _ =>
    constructor
    · rintro ⟨_, h⟩
      cases h
    · rintro ⟨node, -⟩
      obtain ⟨members, h⟩ := node.object
      cases h

variable (file) in
/-- **When a group is read**: if everything to which a walk from it comes is as it should be. -/
theorem exists_membersOfJson_iff {j : Json} (distinct : j.Distinct) :
    ∀ members, j = .obj members → ∀ path info, (∃ r, membersOfJson file path info members = .ok r) ↔
      j.IsNode ∧ ∀ names k, j.Descends names k → Json.IsPlace names k := by
  induction j using Json.parts_induction with
  | scalar j kind =>
    rintro members rfl
    cases kind
  | arr items _ =>
    intro members h
    cases h
  | obj members ih =>
    intro _ same path info
    cases same
    have child : ∀ m ∈ plainMembers members, (∃ c, ChildRead file path m c) ↔
        Json.IsPlace [m.1] m.2 ∧ (m.2.hasMember "$value" = false →
          ∀ names k, m.2.Descends names k → Json.IsPlace names k) := by
      intro m hm
      obtain ⟨mem, plain⟩ := mem_plainMembers.1 hm
      have node := exists_ofJson_iff file (childPath path m.1) (j := m.2) fun ms hms =>
        ih m mem (Json.membersDistinct_iff.1 distinct.2 m mem) ms hms _ _
      constructor
      · rintro ⟨⟨_, n⟩, fine, rfl, hn⟩
        obtain ⟨isNode, value, below⟩ := node.1 ⟨n, hn⟩
        have name := (nameFault?_eq_none_iff plain).1 fine
        exact ⟨⟨by simpa using name, isNode, value⟩, below⟩
      · rintro ⟨place, below⟩
        obtain ⟨n, hn⟩ := node.2 ⟨place.node, place.value, below⟩
        exact ⟨(m.1, n), (nameFault?_eq_none_iff plain).2 (place.names _ (by simp)), rfl, hn⟩
    rw [isNode_obj_iff distinct.1, places_iff distinct.1, ← forall₂_congr child, ← exists_forall₂_iff]
    constructor
    · rintro ⟨⟨info', children⟩, h⟩
      obtain ⟨types, -, read⟩ := membersOfJson_eq_ok.1 h
      exact ⟨types, children, read⟩
    · rintro ⟨types, children, read⟩
      exact ⟨(_, children), membersOfJson_eq_ok.2 ⟨types, rfl, read⟩⟩

/-! ## What a group says -/

theorem foldl_note {members : List (String × Json)} (nodup : (members.map Prod.fst).Nodup)
    {info : GroupInfo} (fresh : ∀ m ∈ members, m.1 ∉ info.metadata.map Prod.fst) :
    members.foldl .note info = {
      type := ((Table.find? "$type" members).map fun j => j.string?.map .ofName).getD info.type
      description := ((Table.find? "$description" members).map Json.string?).getD info.description
      extensions := (Table.find? "$extensions" members).or info.extensions
      metadata := info.metadata ++
        members.filter fun m => m.1 ∉ ["$type", "$description", "$extensions"] } := by
  induction members generalizing info with
  | nil => simp [Table.find?]
  | cons m rest ih =>
    obtain ⟨notMem, nodup⟩ := List.nodup_cons.1 nodup
    obtain ⟨new, fresh⟩ := List.forall_mem_cons.1 fresh
    have once : ∀ {key}, m.1 = key → Table.find? key rest = none := fun same =>
      Table.find?_eq_none_iff.2 (same ▸ notMem)
    rw [List.foldl_cons]
    by_cases type : m.1 = "$type"
    · rw [show info.note m = { info with type := m.2.string?.map .ofName } from if_pos type,
        ih nodup]
      · simp [Table.find?, type, once type]
      · exact fresh
    · by_cases description : m.1 = "$description"
      · rw [show info.note m = { info with description := m.2.string? } from
          (if_neg type).trans (if_pos description), ih nodup]
        · simp [Table.find?, description, once description]
        · exact fresh
      · by_cases extensions : m.1 = "$extensions"
        · rw [show info.note m = { info with extensions := some m.2 } from
            (if_neg type).trans ((if_neg description).trans (if_pos extensions)), ih nodup]
          · simp [Table.find?, extensions, once extensions]
          · exact fresh
        · have kept : info.note m = { info with metadata := info.metadata ++ [m] } := by
            unfold GroupInfo.note
            rw [if_neg type, if_neg description, if_neg extensions, Table.alterEntries_of_notMem new]
          rw [kept, ih nodup]
          · simp [Table.find?, type, description, extensions]
          · intro m' hm
            have other : m'.1 ≠ m.1 := fun same => notMem (same ▸ List.mem_map_of_mem hm)
            simpa [other] using fresh m' hm

theorem foldl_note_empty {members : List (String × Json)} (nodup : (members.map Prod.fst).Nodup) :
    (saidMembers members).foldl .note .empty = (Json.obj members).groupInfo := by
  have sub : (saidMembers members).Sublist members := List.filter_sublist
  have said : ∀ {key}, Text.startsWith "$" key = true →
      Table.find? key (saidMembers members) = Table.find? key members := by
    intro key dollar
    rw [saidMembers, Table.find?_filter (Text.startsWith "$"), if_pos dollar]
  rw [foldl_note ((sub.map _).nodup nodup) (by simp [GroupInfo.empty]), said rfl, said rfl, said rfl]
  have metadata : (members.filter fun m => Text.startsWith "$" m.1).filter
      (fun m => m.1 ∉ ["$type", "$description", "$extensions"]) = members.filter Json.isMetadata := by
    rw [List.filter_filter]
    exact List.filter_congr fun m _ => Bool.and_comm _ _
  unfold Json.groupInfo Json.statedType? saidMembers Json.member? Json.members?
  simp only [GroupInfo.empty, List.nil_append, Option.getD_some, metadata,
    Option.or_none]
  cases Table.find? "$type" members <;> cases Table.find? "$description" members <;> rfl

/-! ## The tokens that are read -/

theorem memberWalkEnds_eq_flatMap (members : List (String × Json)) :
    Json.memberWalkEnds members =
      (plainMembers members).flatMap fun m => m.2.walkEnds.map fun e => (m.1 :: e.1, e.2) := by
  induction members with
  | nil => rfl
  | cons m rest ih =>
    rw [Json.memberWalkEnds, ih, plainMembers, plainMembers]
    cases dollar : Text.startsWith "$" m.1 <;> simp [dollar]

theorem childLeaves_of_read {members : List (String × Json)} {children : List (String × Node)}
    (read : List.Forall₂ (ChildRead file path) members children)
    (each : ∀ m ∈ members, ∀ path n, Node.ofJson file path m.2 = .ok n →
      n.leaves = m.2.walkEnds.map fun e => (e.1, e.2.token file)) :
    childLeaves children = (members.flatMap fun m =>
      m.2.walkEnds.map fun e => (m.1 :: e.1, e.2)).map fun e => (e.1, e.2.token file) := by
  induction read with
  | nil => rfl
  | @cons m c _ _ first _ ih =>
    obtain ⟨here, later⟩ := List.forall_mem_cons.1 each
    obtain ⟨-, name, hn⟩ := first
    rw [childLeaves, ih later, here _ _ hn, name, List.flatMap_cons, List.map_append, List.map_map,
      List.map_map]
    rfl

/-- **The tokens of a node** are the objects with a value among which the walk ends. -/
theorem leaves_of_ofJson {j : Json} : ∀ {path n}, Node.ofJson file path j = .ok n →
    n.leaves = j.walkEnds.map fun e => (e.1, e.2.token file) := by
  induction j using Json.parts_induction with
  | scalar j kind =>
    intro path n h
    cases j with
    | arr _ | obj _ => cases kind
    | null | bool _ | num _ | str _ => cases h
  | arr items _ =>
    intro path n h
    cases h
  | obj members ih =>
    intro path n h
    rw [Node.ofJson] at h
    rw [Json.walkEnds]
    cases found : Table.find? "$value" members with
    | some value =>
      rw [found] at h
      obtain ⟨t, ht, rfl⟩ := map_eq_ok.1 h
      obtain ⟨-, -, rfl⟩ := (tokenOfMembers_eq_ok found).1 ht
      rfl
    | none =>
      rw [found] at h
      obtain ⟨⟨info, children⟩, hr, h⟩ := bind_eq_ok.1 h
      cases h
      obtain ⟨-, -, read⟩ := membersOfJson_eq_ok.1 hr
      rw [if_neg (by simp), memberWalkEnds_eq_flatMap]
      exact childLeaves_of_read read fun m hm _ _ => ih m (mem_plainMembers.1 hm).1

theorem Json.Descends.object {group j : Json} {names : List String} (h : group.Descends names j) :
    ∃ members, group = .obj members := by
  obtain ⟨name, inner, -, member, -⟩ := Json.descends_iff.1 h
  cases group with
  | obj members => exact ⟨members, rfl⟩
  | null | bool _ | num _ | str _ | arr _ => cases member

theorem Json.Distinct.descends {group j : Json} {names : List String} (distinct : group.Distinct)
    (h : group.Descends names j) : j.Distinct := by
  have member {j k : Json} {name : String} (distinct : j.Distinct) (h : j.member? name = some k) :
      k.Distinct := by
    cases j with
    | obj members =>
      exact Json.membersDistinct_iff.1 distinct.2 (name, k) (Table.mem_of_find?_eq_some h)
    | null | bool _ | num _ | str _ | arr _ => cases h
  induction h with
  | member _ found => exact member distinct found
  | group _ found _ _ ih => exact ih (member distinct found)

theorem Json.Descends.names_ne_nil {group j : Json} {names : List String} (h : group.Descends names j) :
    names ≠ [] := by
  cases h <;> exact List.cons_ne_nil _ _

/-- An object ends a walk: it has a value, and it is the one from which the walk starts, or the walk
comes to it. -/
def Json.EndsWalk (j : Json) (names : List String) (k : Json) : Prop :=
  k.hasMember "$value" = true ∧ (names = [] ∧ k = j ∨ j.hasMember "$value" = false ∧ j.Descends names k)

theorem mem_memberWalkEnds_iff {members : List (String × Json)}
    (nodup : (members.map Prod.fst).Nodup)
    (each : ∀ m ∈ members, ∀ names k, (names, k) ∈ m.2.walkEnds ↔ m.2.EndsWalk names k)
    {names : List String} {k : Json} : (names, k) ∈ Json.memberWalkEnds members ↔
      k.hasMember "$value" = true ∧ (Json.obj members).Descends names k := by
  have first : (names, k) ∈ Json.memberWalkEnds members ↔
      ∃ m ∈ plainMembers members, ∃ more, names = m.1 :: more ∧ (more, k) ∈ m.2.walkEnds := by
    rw [memberWalkEnds_eq_flatMap, List.mem_flatMap]
    refine exists_congr fun m => and_congr_right fun _ => ?_
    simp [eq_comm, and_comm]
  rw [first, Json.descends_iff]
  constructor
  · rintro ⟨m, hm, more, rfl, ends⟩
    obtain ⟨mem, plain⟩ := mem_plainMembers.1 hm
    have member : (Json.obj members).member? m.1 = some m.2 := Table.find?_eq_some_of_mem nodup mem
    obtain ⟨value, rest⟩ := (each m mem more k).1 ends
    refine ⟨value, m.1, m.2, plain, member, ?_⟩
    rcases rest with ⟨rfl, rfl⟩ | ⟨absent, below⟩
    · exact .inl ⟨rfl, rfl⟩
    · exact .inr ⟨more, rfl, absent, below⟩
  · rintro ⟨value, name, inner, plain, member, rest⟩
    have mem : (name, inner) ∈ members := Table.mem_of_find?_eq_some member
    refine ⟨(name, inner), mem_plainMembers.2 ⟨mem, plain⟩, ?_⟩
    rcases rest with ⟨rfl, rfl⟩ | ⟨more, rfl, absent, below⟩
    · exact ⟨[], rfl, (each _ mem _ _).2 ⟨value, .inl ⟨rfl, rfl⟩⟩⟩
    · exact ⟨more, rfl, (each _ mem _ _).2 ⟨value, .inr ⟨absent, below⟩⟩⟩

theorem mem_walkEnds_iff {j : Json} (distinct : j.Distinct) (names : List String) (k : Json) :
    (names, k) ∈ j.walkEnds ↔ j.EndsWalk names k := by
  have other {j : Json} (notObject : ∀ members, j ≠ .obj members) (names : List String) (k : Json) :
      (names, k) ∈ j.walkEnds ↔ j.EndsWalk names k := by
    cases j with
    | obj members => exact absurd rfl (notObject members)
    | null | bool _ | num _ | str _ | arr _ =>
      refine iff_of_false List.not_mem_nil ?_
      rintro ⟨value, ⟨-, rfl⟩ | ⟨-, descends⟩⟩
      · cases value
      · obtain ⟨members, h⟩ := descends.object
        cases h
  induction j using Json.parts_induction generalizing names k with
  | scalar j kind =>
    refine other (fun members h => ?_) names k
    rw [h] at kind
    exact kind
  | arr items _ => exact other (fun members h => by cases h) names k
  | obj members ih =>
    have each : ∀ m ∈ members, ∀ names k, (names, k) ∈ m.2.walkEnds ↔ m.2.EndsWalk names k :=
      fun m mem => ih m mem (Json.membersDistinct_iff.1 distinct.2 m mem)
    rw [Json.walkEnds]
    cases found : Table.find? "$value" members with
    | some value =>
      have has : (Json.obj members).hasMember "$value" = true := congrArg Option.isSome found
      rw [if_pos (by rfl), List.mem_singleton, Prod.mk.injEq, Json.EndsWalk, has]
      constructor
      · rintro ⟨rfl, rfl⟩
        exact ⟨has, .inl ⟨rfl, rfl⟩⟩
      · rintro ⟨-, here | ⟨absent, -⟩⟩
        · exact here
        · cases absent
    | none =>
      have has : (Json.obj members).hasMember "$value" = false := congrArg Option.isSome found
      rw [if_neg (by simp), mem_memberWalkEnds_iff distinct.1 each, Json.EndsWalk, has]
      refine and_congr_right fun value => ⟨fun below => .inr ⟨rfl, below⟩, ?_⟩
      rintro (⟨-, rfl⟩ | ⟨-, below⟩)
      · cases has.symm.trans value
      · exact below

theorem nodup_memberWalkEnds {members : List (String × Json)} (nodup : (members.map Prod.fst).Nodup)
    (each : ∀ m ∈ members, (m.2.walkEnds.map Prod.fst).Nodup) :
    ((Json.memberWalkEnds members).map Prod.fst).Nodup := by
  have plain : (plainMembers members).Pairwise fun m m' => m.1 ≠ m'.1 :=
    (List.pairwise_map.1 nodup).sublist List.filter_sublist
  rw [memberWalkEnds_eq_flatMap, List.map_flatMap, List.nodup_flatMap]
  constructor
  · intro m hm
    have prefixed : (m.2.walkEnds.map fun e => (m.1 :: e.1, e.2)).map Prod.fst =
        (m.2.walkEnds.map Prod.fst).map (m.1 :: ·) := by
      rw [List.map_map, List.map_map]
      rfl
    rw [prefixed]
    exact (each m (mem_plainMembers.1 hm).1).map List.cons_injective
  · refine plain.imp fun {m m'} differ names hm hm' => ?_
    simp only [List.map_map, List.mem_map, Function.comp_apply] at hm hm'
    obtain ⟨e, -, rfl⟩ := hm
    obtain ⟨e', -, same⟩ := hm'
    exact differ (List.cons.inj same).1.symm

theorem nodup_walkEnds {j : Json} (distinct : j.Distinct) : (j.walkEnds.map Prod.fst).Nodup := by
  induction j using Json.parts_induction with
  | scalar j kind =>
    cases j with
    | arr _ | obj _ => cases kind
    | null | bool _ | num _ | str _ => exact List.nodup_nil
  | arr items _ => exact List.nodup_nil
  | obj members ih =>
    rw [Json.walkEnds]
    split
    · simp
    · exact nodup_memberWalkEnds distinct.1 fun m mem =>
        ih m mem (Json.membersDistinct_iff.1 distinct.2 m mem)

/-! ## What is read at the end of a walk -/

/-- The values to which names lead from a value, one after the other. -/
def Json.passed (j : Json) : List String → List Json
  | [] => []
  | name :: rest => match j.member? name with
    | some inner => inner :: inner.passed rest
    | none => []

theorem groupInfo_of_ofJson {j : Json} {n : Node} (absent : j.hasMember "$value" = false)
    (distinct : j.Distinct) (read : Node.ofJson file path j = .ok n) : ∃ members below,
    j = .obj members ∧ n = .group j.groupInfo below ∧
      membersOfJson file path .empty members = .ok (j.groupInfo, below) := by
  obtain ⟨members, info, below, rfl, rfl, hms, -⟩ := group_of_ofJson absent distinct read
  obtain ⟨-, rfl, -⟩ := membersOfJson_eq_ok.1 hms
  rw [foldl_note_empty distinct.1] at hms ⊢
  exact ⟨members, below, rfl, rfl, hms⟩

/-- **What a walk comes to** is read as the node by the names of the walk. What it states or inherits is
the innermost type that is stated on the walk, or else what is handed to the first group. -/
theorem childAt?_of_descends {group k : Json} {names : List String} (h : group.Descends names k) :
    ∀ {path : String} {info info' : GroupInfo} {members : List (String × Json)}
    {children : List (String × Node)}, group = .obj members → Json.MembersDistinct members →
    membersOfJson file path info members = .ok (info', children) → ∀ inherited,
    ∃ handed n place, childAt? inherited children names = some (handed, n) ∧
      Node.ofJson file place k = .ok n ∧
      (k.statedType? <|> handed) = (innermostType? (group.passed names) <|> inherited) := by
  induction h with
  | @member group k name plain member =>
    rintro path info info' members children rfl distinct read inherited
    obtain ⟨-, n, hn, hk⟩ := find?_of_membersOfJson plain read member
    refine ⟨inherited, n, _, by rw [childAt?, hn]; rfl, hk, ?_⟩
    simp [Json.passed, member, innermostType?]
  | @group outer inner k name names plain member absent further ih =>
    rintro path info info' members children rfl distinct read inherited
    obtain ⟨-, n, hn, hj⟩ := find?_of_membersOfJson plain read member
    have here := Json.membersDistinct_iff.1 distinct (name, inner) (Table.mem_of_find?_eq_some member)
    obtain ⟨ms, below, rfl, rfl, hms⟩ := groupInfo_of_ofJson absent here hj
    obtain ⟨handed, m, place, found, hk, type⟩ :=
      ih rfl here.2 hms ((Json.obj ms).statedType? <|> inherited)
    refine ⟨handed, m, place, ?_, hk, ?_⟩
    · rw [childAt?, hn]
      obtain ⟨first, rest, rfl⟩ := List.exists_cons_of_ne_nil further.names_ne_nil
      exact found
    · rw [type, Json.passed, member, innermostType?_cons]
      cases innermostType? ((Json.obj ms).passed names) <;> rfl

end Object

/-! ## Documents -/

section Document

variable {file : Path} {document : Json} {g : Group}

theorem ofJson_eq_ok : Group.ofJson file document = .ok g ↔ ∃ members, document = .obj members ∧
    membersOfJson file "" .empty members = .ok (g.info, g.children) := by
  cases document with
  | obj members =>
    constructor
    · intro h
      obtain ⟨⟨info, children⟩, read, h⟩ := bind_eq_ok.1 h
      cases h
      exact ⟨members, rfl, read⟩
    · rintro ⟨_, same, read⟩
      cases same
      exact bind_eq_ok.2 ⟨_, read, rfl⟩
  | null | bool _ | num _ | str _ | arr _ =>
    exact iff_of_false (fun h => nomatch h) fun ⟨_, h, _⟩ => nomatch h

theorem exists_ofJson_eq_ok_iff (distinct : document.Distinct) :
    (∃ g, Group.ofJson file document = .ok g) ↔ document.IsDocument := by
  have read := exists_membersOfJson_iff file distinct
  constructor
  · rintro ⟨g, h⟩
    obtain ⟨members, same, h⟩ := ofJson_eq_ok.1 h
    obtain ⟨node, places⟩ := (read members same "" .empty).1 ⟨_, h⟩
    exact ⟨node, places⟩
  · rintro ⟨node, places⟩
    obtain ⟨members, same⟩ := node.object
    obtain ⟨⟨info, children⟩, h⟩ := (read members same "" .empty).2 ⟨node, places⟩
    exact ⟨⟨info, children⟩, ofJson_eq_ok.2 ⟨members, same, h⟩⟩

theorem leaves_eq (read : Group.ofJson file document = .ok g) :
    g.leaves = document.tokenObjects.map fun e => (e.1, e.2.token file) := by
  obtain ⟨members, rfl, h⟩ := ofJson_eq_ok.1 read
  obtain ⟨-, -, each⟩ := membersOfJson_eq_ok.1 h
  rw [Json.tokenObjects, Json.members?, Option.getD_some, memberWalkEnds_eq_flatMap]
  exact childLeaves_of_read each fun _ _ _ _ => leaves_of_ofJson

theorem info_eq (distinct : document.Distinct) (read : Group.ofJson file document = .ok g) :
    g.info = document.groupInfo := by
  obtain ⟨members, rfl, h⟩ := ofJson_eq_ok.1 read
  obtain ⟨-, info, -⟩ := membersOfJson_eq_ok.1 h
  rw [info, foldl_note_empty distinct.1]

theorem mem_tokenObjects_iff (distinct : document.Distinct) {names : List String} {k : Json} :
    (names, k) ∈ document.tokenObjects ↔ document.Descends names k ∧ k.hasMember "$value" = true := by
  rw [and_comm]
  cases document with
  | obj members =>
    exact mem_memberWalkEnds_iff distinct.1 fun m mem =>
      mem_walkEnds_iff (Json.membersDistinct_iff.1 distinct.2 m mem)
  | null | bool _ | num _ | str _ | arr _ =>
    refine iff_of_false List.not_mem_nil fun ⟨_, descends⟩ => ?_
    obtain ⟨members, h⟩ := descends.object
    cases h

theorem nodup_tokenObjects (distinct : document.Distinct) :
    (document.tokenObjects.map Prod.fst).Nodup := by
  cases document with
  | obj members =>
    exact nodup_memberWalkEnds distinct.1 fun m mem =>
      nodup_walkEnds (Json.membersDistinct_iff.1 distinct.2 m mem)
  | null | bool _ | num _ | str _ | arr _ => exact List.nodup_nil

/-- **Exactly the documents are read.** The tree has the tokens that are stated, in their order, each by
the names that lead to it and no two by the same names, and every group keeps what it says. -/
theorem ofJson_reads_documents (distinct : document.Distinct) (file : Path) :
    ((∃ g, Group.ofJson file document = .ok g) ↔ document.IsDocument) ∧
    ∀ g, Group.ofJson file document = .ok g →
      g.leaves = document.tokenObjects.map (fun e => (e.1, e.2.token file)) ∧
      (∀ names j, (names, j) ∈ document.tokenObjects ↔
        document.Descends names j ∧ j.hasMember "$value" = true) ∧
      (document.tokenObjects.map Prod.fst).Nodup ∧
      g.info = document.groupInfo ∧
      ∀ names j, document.Descends names j → j.hasMember "$value" = false →
        ∃ handed children, childAt? none g.children names = some (handed, .group j.groupInfo children) := by
  refine ⟨exists_ofJson_eq_ok_iff distinct, fun g read => ?_⟩
  refine ⟨leaves_eq read, fun _ _ => mem_tokenObjects_iff distinct, nodup_tokenObjects distinct,
    info_eq distinct read, fun names j descends absent => ?_⟩
  obtain ⟨members, rfl, h⟩ := ofJson_eq_ok.1 read
  obtain ⟨handed, n, place, found, hj, -⟩ := childAt?_of_descends descends rfl distinct.2 h none
  obtain ⟨-, below, -, rfl, -⟩ := groupInfo_of_ofJson absent (distinct.descends descends) hj
  exact ⟨handed, below, found⟩

end Document

/-- A file of weather. -/
def weatherFile : Path := ⟨"weather.json"⟩

/-- A group with metadata and one color. -/
def clouds : Json := .obj [("$level", .bool true), ("rain", .obj [("$value", .str "#abc"),
  ("$type", .str "color"), ("$description", .str "wet")])]

/-- A document that has a `$value` and is a group nevertheless. -/
def weather : Json := .obj [("$value", .null), ("$type", .str "color"),
  ("sun", .obj [("$value", .str "#fd0"), ("$description", .null)]), ("clouds", clouds)]

/-- Two tokens of a document, and the metadata of its groups. -/
theorem ofJson_reads_weather : weather.Distinct ∧ weather.IsDocument ∧
    ∃ g, Group.ofJson weatherFile weather = .ok g ∧
      g.leaves = [(["sun"], ⟨.str "#fd0", none, none, none, some weatherFile⟩),
        (["clouds", "rain"], ⟨.str "#abc", some .color, some "wet", none, some weatherFile⟩)] ∧
      g.info = ⟨some .color, none, none, [("$value", .null)]⟩ ∧
      ∃ handed children, childAt? none g.children ["clouds"] =
        some (handed, .group ⟨none, none, none, [("$level", .bool true)]⟩ children) := by
  have distinct : weather.Distinct := by
    simp [weather, clouds, Json.Distinct, Json.MembersDistinct]
  obtain ⟨accepted, kept⟩ := ofJson_reads_documents distinct weatherFile
  obtain ⟨g, read⟩ : ∃ g, Group.ofJson weatherFile weather = .ok g := ⟨_, rfl⟩
  obtain ⟨leaves, -, -, info, groups⟩ := kept g read
  refine ⟨distinct, accepted.1 ⟨g, read⟩, g, read, leaves.trans rfl, info.trans rfl, ?_⟩
  obtain ⟨handed, children, found⟩ := groups ["clouds"] clouds (.member rfl rfl) rfl
  exact ⟨handed, children, found.trans rfl⟩

end DesignTokens
