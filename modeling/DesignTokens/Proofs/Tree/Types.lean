import DesignTokens.Proofs.Document.Expansion
import DesignTokens.Proofs.Flat.Alone
import DesignTokens.Proofs.Tree.Parsed

/-!
# Types of tokens

A token has the type that its document states for it: its own, or that of the innermost group around it.
The reader keeps the type of every group, and merging hands it on to all groups and tokens inside,
except from the group of the document itself.

* `Json.statedType?`: the type that an object states;
* `Json.Way`: the objects from a group of a document down to a token in it; `innermostType?`: the type
  that the innermost of several objects states;
* `type_of_membersOfJson`, `find?_of_membersOfJson`: what the reader keeps of a group and of its
  members; `token_of_ofJson`, `group_of_ofJson`: what an object is read as; `childAt?_of_way`: what
  stands at the end of a way, with the type that it inherits;
* **`type_flatten_of_way`**: the type of every token of a document, and where it is the one stated.
-/

namespace DesignTokens

/-! ## What a document states -/

/-- The type that an object states. -/
def Json.statedType? (j : Json) : Option TokenType :=
  ((j.member? "$type").bind Json.string?).map TokenType.ofName

/-- The names lead from a group down to a token in it, through these objects: the group first, the
groups inside it, and the token last. -/
inductive Json.Way : Json → List String → List Json → Prop
  | token {group token : Json} {name : String} (plain : Text.startsWith "$" name = false)
      (member : group.member? name = some token) (value : token.hasMember "$value" = true) :
      Way group [name] [group, token]
  | group {outer inner : Json} {name : String} {names : List String} {way : List Json}
      (plain : Text.startsWith "$" name = false) (member : outer.member? name = some inner)
      (value : inner.hasMember "$value" = false) (below : Way inner names way) :
      Way outer (name :: names) (outer :: way)

/-- The type that the innermost of several objects states, which stand from the outside to the
inside. -/
def innermostType? (way : List Json) : Option TokenType := way.reverse.findSome? Json.statedType?

theorem innermostType?_cons (j : Json) (way : List Json) :
    innermostType? (j :: way) = (innermostType? way <|> j.statedType?) := by
  unfold innermostType?
  rw [List.reverse_cons, List.findSome?_append, List.findSome?_singleton, Option.orElse_eq_orElse,
    Option.orElse_eq_or]

theorem Json.Way.names_ne_nil {j : Json} {names : List String} {way : List Json}
    (h : j.Way names way) : names ≠ [] := by
  cases h <;> exact List.cons_ne_nil _ _

theorem Json.Way.eq_cons {j : Json} {names : List String} {way : List Json} (h : j.Way names way) :
    way = j :: way.tail := by
  cases h <;> rfl

/-! ## What the reader keeps -/

section Reader

variable {file : Path} {path : String}

theorem typeOfJson_eq_ok {j : Json} {type : TokenType} :
    typeOfJson file path j = .ok type ↔ j.string?.map TokenType.ofName = some type := by
  cases j <;> simp [typeOfJson, Json.string?]

theorem value_type_of_tokenOfMembers {value : Json} {members : List (String × Json)} {t : Token}
    (h : Token.ofMembers file path value members = .ok t) :
    t.value = value ∧ t.type = (Json.obj members).statedType? := by
  show t.value = value ∧
    t.type = ((Table.find? "$type" members).bind Json.string?).map TokenType.ofName
  cases value with
  | null => cases h
  | bool _ | num _ | str _ | arr _ | obj _ =>
    unfold Token.ofMembers at h
    cases stated : Table.find? "$type" members with
    | none =>
      rw [stated] at h
      cases h
      exact ⟨rfl, rfl⟩
    | some j =>
      rw [stated] at h
      obtain ⟨type, htype, h⟩ := bind_eq_ok.1 h
      cases h
      obtain ⟨type, read, rfl⟩ := map_eq_ok.1 htype
      exact ⟨rfl, (typeOfJson_eq_ok.1 read).symm⟩

theorem type_of_add {info info' : GroupInfo} {key : String} {value : Json}
    (h : info.add file path key value = .ok info') :
    info'.type = if key = "$type" then value.string?.map TokenType.ofName else info.type := by
  unfold GroupInfo.add at h
  split at h
  · rename_i stated
    obtain ⟨type, htype, h⟩ := bind_eq_ok.1 h
    cases h
    rw [if_pos stated, typeOfJson_eq_ok.1 htype]
  · rename_i other
    rw [if_neg other]
    split at h
    · cases h; rfl
    · split at h <;> cases h <;> rfl

theorem type_of_membersOfJson : ∀ {info info' : GroupInfo} {members : List (String × Json)}
    {children : List (String × Node)}, (members.map Prod.fst).Nodup →
    membersOfJson file path info members = .ok (info', children) →
    info'.type = match Table.find? "$type" members with
      | some j => j.string?.map TokenType.ofName
      | none => info.type
  | _, _, [], _, _, h => by cases h; rfl
  | info, info', (key, value) :: rest, children, nodup, h => by
    rw [List.map_cons, List.nodup_cons] at nodup
    rcases membersOfJson_cons_eq_ok h with ⟨-, said, added, hmore⟩ | ⟨plain, -, n, more, -, hmore, rfl⟩
    · rw [type_of_membersOfJson nodup.2 hmore, type_of_add added]
      by_cases stated : key = "$type"
      · have once : Table.find? "$type" rest = none :=
          Table.find?_eq_none_iff.2 (stated ▸ nodup.1)
        simp [Table.find?, stated, once]
      · simp [Table.find?, stated]
    · have other : key ≠ "$type" := by
        rintro rfl
        cases plain
      rw [type_of_membersOfJson nodup.2 hmore]
      simp [Table.find?, other]

theorem find?_of_membersOfJson {name : String} {j : Json}
    (plain : Text.startsWith "$" name = false) : ∀ {info info' : GroupInfo}
    {members : List (String × Json)} {children : List (String × Node)},
    membersOfJson file path info members = .ok (info', children) →
    Table.find? name members = some j →
    nameFault? name = none ∧
      ∃ n, Table.find? name children = some n ∧ Node.ofJson file (childPath path name) j = .ok n
  | _, _, [], _, _, member => by cases member
  | info, info', (key, value) :: rest, children, h, member => by
    rcases membersOfJson_cons_eq_ok h with ⟨dollar, said, -, hmore⟩ | ⟨-, fine, n, more, hn, hmore, rfl⟩
    · have other : key ≠ name := by
        rintro rfl
        cases plain.symm.trans dollar
      exact find?_of_membersOfJson plain hmore (by simpa [Table.find?, other] using member)
    · by_cases same : key = name
      · subst same
        obtain rfl : value = j := by simpa [Table.find?] using member
        exact ⟨fine, n, by simp [Table.find?], hn⟩
      · rw [Table.find?, if_neg same] at member
        obtain ⟨fine', n', hn', read⟩ := find?_of_membersOfJson plain hmore member
        exact ⟨fine', n', by simpa [Table.find?, same] using hn', read⟩

theorem token_of_ofJson {j : Json} {n : Node} (value : j.hasMember "$value" = true)
    (h : Node.ofJson file path j = .ok n) :
    ∃ t, n = .token t ∧ j.member? "$value" = some t.value ∧ t.type = j.statedType? := by
  cases j with
  | obj members =>
    obtain ⟨v, hv⟩ := Option.isSome_iff_exists.1 value
    rw [Node.ofJson, show Table.find? "$value" members = some v from hv] at h
    obtain ⟨t, ht, rfl⟩ := map_eq_ok.1 h
    obtain ⟨rfl, type⟩ := value_type_of_tokenOfMembers ht
    exact ⟨t, rfl, hv, type⟩
  | null | bool _ | num _ | str _ | arr _ => cases value

theorem group_of_ofJson {j : Json} {n : Node} (value : j.hasMember "$value" = false)
    (distinct : j.Distinct) (h : Node.ofJson file path j = .ok n) :
    ∃ members info children, j = .obj members ∧ n = .group info children ∧
      membersOfJson file path .empty members = .ok (info, children) ∧ info.type = j.statedType? := by
  cases j with
  | obj members =>
    have none : Table.find? "$value" members = none := Option.not_isSome_iff_eq_none.1 (by
      simpa [Json.hasMember, Json.member?] using value)
    rw [Node.ofJson, none] at h
    obtain ⟨⟨info, children⟩, read, h⟩ := bind_eq_ok.1 h
    cases h
    refine ⟨members, info, children, rfl, rfl, read, ?_⟩
    rw [type_of_membersOfJson distinct.1 read]
    show _ = ((Table.find? "$type" members).bind Json.string?).map TokenType.ofName
    cases Table.find? "$type" members <;> rfl
  | null | bool _ | num _ | str _ | arr _ => cases h

end Reader

/-! ## Down a way -/

/-- What stands at the end of a way is the token that is stated there, and inherits what the groups
between state, or what is handed to the first group. -/
theorem childAt?_of_way {file : Path} {group : Json} {names : List String} {way : List Json}
    (h : group.Way names way) : ∀ {path : String} {info info' : GroupInfo}
    {members : List (String × Json)} {children : List (String × Node)},
    group = .obj members → Json.MembersDistinct members →
    membersOfJson file path info members = .ok (info', children) → ∀ inherited,
    DotFree names ∧ ∃ handed t, childAt? inherited children names = some (handed, .token t) ∧
      way.getLast?.bind (Json.member? "$value") = some t.value ∧
      (t.type <|> handed) = (innermostType? way.tail <|> inherited) := by
  induction h with
  | token plain member value =>
    rintro path info info' members children rfl distinct read inherited
    obtain ⟨fine, n, hn, hj⟩ := find?_of_membersOfJson plain read member
    obtain ⟨t, rfl, stated, type⟩ := token_of_ofJson value hj
    refine ⟨by simpa [DotFree] using (name_of_nameFault?_eq_none fine).2, inherited, t, ?_, stated, ?_⟩
    · rw [childAt?, hn]
      rfl
    · rw [type]
      simp [innermostType?]
  | @group _ j name names way plain member value below ih =>
    rintro path info info' members children rfl distinct read inherited
    obtain ⟨fine, n, hn, hj⟩ := find?_of_membersOfJson plain read member
    have here := Json.membersDistinct_iff.1 distinct (name, j) (Table.mem_of_find?_eq_some member)
    obtain ⟨ms, inner, children', rfl, rfl, hms, stated⟩ := group_of_ofJson value here hj
    obtain ⟨dotFree, handed, t, ht, hv, type⟩ := ih rfl here.2 hms (inner.type <|> inherited)
    refine ⟨by simpa [DotFree] using ⟨(name_of_nameFault?_eq_none fine).2, dotFree⟩, handed, t, ?_, ?_, ?_⟩
    · rw [childAt?, hn]
      obtain ⟨first, rest, rfl⟩ := List.exists_cons_of_ne_nil below.names_ne_nil
      exact ht
    · rw [below.eq_cons] at hv ⊢
      rwa [List.getLast?_cons_cons]
    · rw [type, stated, List.tail_cons, below.eq_cons, innermostType?_cons, List.tail_cons]
      cases innermostType? way.tail <;> rfl

/-! ## Parts of documents -/

namespace Json

theorem itemsDistinct_iff {items : List Json} : ItemsDistinct items ↔ ∀ j ∈ items, j.Distinct := by
  induction items with
  | nil => simp [ItemsDistinct]
  | cons j rest ih => simp [ItemsDistinct, ih]

theorem Distinct.step {j part : Json} {step : List Char} (distinct : j.Distinct)
    (h : step? step j = some part) : part.Distinct := by
  cases j with
  | obj members =>
    exact membersDistinct_iff.1 distinct.2 _ (Table.mem_of_find?_eq_some h)
  | arr items =>
    obtain ⟨n, -, hn⟩ := Option.bind_eq_some_iff.1 h
    exact itemsDistinct_iff.1 distinct _ (List.mem_of_getElem? hn)
  | null | bool _ | num _ | str _ => cases h

theorem Distinct.follow {steps : List (List Char)} {j part : Json} (distinct : j.Distinct)
    (h : follow? steps j = some part) : part.Distinct := by
  induction steps generalizing j with
  | nil =>
    cases h
    exact distinct
  | cons step rest ih =>
    obtain ⟨inner, first, h⟩ := Option.bind_eq_some_iff.1 h
    exact ih (distinct.step first) h

theorem Distinct.part {document part : Json} {pointer : Option String} (distinct : document.Distinct)
    (h : PartAt document pointer part) : part.Distinct := by
  cases pointer with
  | none => exact h ▸ distinct
  | some pointer =>
    replace h : document.pointer? pointer = some part := h
    unfold pointer? at h
    split at h
    · cases h
      exact distinct
    · exact distinct.follow h
    · cases h

end Json

/-! ## The tokens of one tree -/

theorem token?_of_way {file : Path} {document : Json} {g : Group} {names : List String}
    {way : List Json} (distinct : document.Distinct) (read : Group.ofJson file document = .ok g)
    (h : document.Way names way) (c : Context) :
    ∃ t, (Tree.mk c g file).token? (joinPath names) = some t ∧
      way.getLast?.bind (Json.member? "$value") = some t.value ∧
      t.type = innermostType? way.tail := by
  cases document with
  | obj members =>
    obtain ⟨⟨info, children⟩, hc, read⟩ := bind_eq_ok.1 read
    cases read
    obtain ⟨dotFree, handed, t, found, value, type⟩ := childAt?_of_way h rfl distinct.2 hc none
    have at_way : (Tree.mk c ⟨info, children⟩ file).at? (joinPath names) = some (handed, .token t) := by
      rw [Tree.at?, splitOn_joinPath dotFree h.names_ne_nil]
      exact found
    refine ⟨_, by rw [Tree.token?, at_way], value, ?_⟩
    rw [show (t.type <|> handed) = _ from type]
    cases innermostType? way.tail <;> rfl
  | null | bool _ | num _ | str _ | arr _ => cases read

theorem mem_contextsOf_singleton (t : Tree) : t.context ∈ contextsOf [t] := by
  simp [contextsOf]

theorem get?_flatten_singleton {tree : Tree} (named : tree.WellNamed) {path : String} {t : FlatToken}
    (h : tree.token? path = some t) :
    ((flatten [tree]).get? tree.context).bind (·.tokens.get? path) = some t := by
  have alone : [tree].filter (·.context = tree.context) = [tree] := by simp
  rw [get?_flatten_eq_some_iff.2 ⟨mem_contextsOf_singleton tree, rfl⟩, alone, Option.bind_some,
    get?_ofTrees_singleton named, h]

/-! ## The types that are stated -/

/-- **The type of a token.** A document with distinct keys, such as the value of any text, is read as a
whole or in the part to which a pointer leads. Every token in it is kept with the type that it states
itself, or else with that of the innermost group around it that states one, as far as these groups are
inside the one that is read. So the type is the one that is stated in all of what is read, unless the
outermost group states a type and nothing on the way from there to the token does. -/
theorem type_flatten_of_way {document part : Json} {pointer : Option String} {file : Path} {g : Group}
    (distinct : document.Distinct) (here : PartAt document pointer part)
    (read : Group.ofJson file part = .ok g) {names : List String} {way : List Json}
    (h : part.Way names way) (c : Context) :
    ∃ t, ((flatten [⟨c, g, file⟩]).get? c).bind (·.tokens.get? (joinPath names)) = some t ∧
      way.getLast?.bind (Json.member? "$value") = some t.value ∧
      t.type = innermostType? way.tail ∧
      (t.type = innermostType? way ↔ part.statedType? = none ∨ innermostType? way.tail ≠ none) := by
  obtain ⟨t, ht, value, type⟩ := token?_of_way (distinct.part here) read h c
  have named : (Tree.mk c g file).WellNamed :=
    Tree.Parsed.wellNamed ⟨file, part, distinct.part here, read⟩
  refine ⟨t, get?_flatten_singleton named ht, value, type, ?_⟩
  rw [type, h.eq_cons, innermostType?_cons, List.tail_cons]
  cases innermostType? way.tail <;> simp [eq_comm]

/-- A file of skies. -/
def skyFile : Path := ⟨"sky.json"⟩

/-- A color without a type of its own. -/
def paleSky : Json := .obj [("$value", .str "#fff")]

/-- A group that states the type of the color in it. -/
def daySky : Json := .obj [("$type", .str "color"), ("bg", paleSky)]

/-- The group in a group. -/
def skies : Json := .obj [("day", daySky)]

theorem way_skies : skies.Way ["day", "bg"] [skies, daySky, paleSky] :=
  .group rfl rfl rfl (.token rfl rfl rfl)

/-- Read from a pointer, the color inside the group inside has the type of that group. -/
theorem type_flatten_skies : ∃ document g,
    (document.Distinct ∧ PartAt document (some "/sky") skies ∧
      Group.ofJson skyFile skies = .ok g ∧ skies.Way ["day", "bg"] [skies, daySky, paleSky]) ∧
    ∃ t, ((flatten [⟨.base, g, skyFile⟩]).get? .base).bind (·.tokens.get? "day.bg") = some t ∧
      t.type = some .color := by
  let document : Json := .obj [("sky", skies)]
  have distinct : document.Distinct := by
    simp [document, skies, daySky, paleSky, Json.Distinct, Json.MembersDistinct]
  have here : PartAt document (some "/sky") skies := rfl
  obtain ⟨g, read⟩ : ∃ g, Group.ofJson skyFile skies = .ok g := ⟨_, rfl⟩
  obtain ⟨t, ht, -, type, -⟩ := type_flatten_of_way distinct here read way_skies .base
  exact ⟨document, g, ⟨distinct, here, read, way_skies⟩, t, ht, type.trans (by decide)⟩

/-- Read as a document, the group inside does not hand its type on to the color in it. -/
theorem untyped_daySky : ∃ g t, Group.ofJson skyFile daySky = .ok g ∧
    daySky.Way ["bg"] [daySky, paleSky] ∧
    ((flatten [⟨.base, g, skyFile⟩]).get? .base).bind (·.tokens.get? "bg") = some t ∧
    t.type = none ∧ innermostType? [daySky, paleSky] = some .color :=
  ⟨_, _, rfl, .token rfl rfl rfl, rfl, rfl, by decide⟩

end DesignTokens
