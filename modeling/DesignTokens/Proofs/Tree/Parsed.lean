import DesignTokens.Proofs.Flat.Place
import DesignTokens.Proofs.Steps
import DesignTokens.Tree.OfJson

/-!
# Trees of documents

The names in a tree that was read from a document may stand in paths and are used once in their
groups, because the keys of every object are distinct and bad names are refused.

* `Json.Distinct`: the keys of every object in a value are distinct; **`distinct_of_parse?`**: so it is
  in the value of a text;
* `Tree.Parsed`: a tree that was read from a value; `Tree.parsed_of_parse`: trees of texts are;
* `membersOfJson_cons_eq_ok`: how a member of a group is read; **`Tree.Parsed.wellNamed`**.
-/

namespace DesignTokens

namespace Json

mutual

/-- The keys of every object in the value are distinct. -/
def Distinct : Json → Prop
  | .arr items => ItemsDistinct items
  | .obj members => (members.map Prod.fst).Nodup ∧ MembersDistinct members
  | _ => True

/-- The keys of every object in the items are distinct. -/
def ItemsDistinct : List Json → Prop
  | [] => True
  | j :: rest => Distinct j ∧ ItemsDistinct rest

/-- The keys of every object in the values of members are distinct. -/
def MembersDistinct : List (String × Json) → Prop
  | [] => True
  | (_, j) :: rest => Distinct j ∧ MembersDistinct rest

end

theorem membersDistinct_iff {members : List (String × Json)} :
    MembersDistinct members ↔ ∀ m ∈ members, m.2.Distinct := by
  induction members with
  | nil => simp [MembersDistinct]
  | cons m rest ih => simp [MembersDistinct, ih]

/-! ## Values of texts -/

mutual

theorem distinct_of_value? : ∀ {depth : Nat} {t : Raw} {j : Json}, t.value? depth = some j →
    j.Distinct
  | _, .null, j, h => by cases h; trivial
  | _, .bool b, j, h => by cases h; trivial
  | _, .num n, j, h => by
    obtain ⟨_, -, rfl⟩ := Option.map_eq_some_iff.1 h
    trivial
  | _, .str s, j, h => by
    obtain ⟨_, -, rfl⟩ := Option.map_eq_some_iff.1 h
    trivial
  | 0, .arr items, j, h => by cases h
  | d + 1, .arr items, j, h => by
    obtain ⟨js, hjs, rfl⟩ := Option.map_eq_some_iff.1 h
    exact distinct_of_itemValues? hjs
  | 0, .obj ms, j, h => by cases h
  | d + 1, .obj ms, j, h => by
    obtain ⟨es, hes, rfl⟩ := Option.map_eq_some_iff.1 h
    refine ⟨Table.nodup_keys_ofList es, membersDistinct_iff.2 fun m hm => ?_⟩
    obtain ⟨e, he, same⟩ := Table.mem_ofList hm
    exact same ▸ distinct_of_memberValues? hes e he

theorem distinct_of_itemValues? : ∀ {depth : Nat} {ts : List Raw} {js : List Json},
    Raw.itemValues? depth ts = some js → ItemsDistinct js
  | _, [], _, h => by cases h; trivial
  | _, t :: rest, _, h => by
    obtain ⟨j, hj, h⟩ := Option.bind_eq_some_iff.1 h
    obtain ⟨js, hjs, h⟩ := Option.bind_eq_some_iff.1 h
    cases h
    exact ⟨distinct_of_value? hj, distinct_of_itemValues? hjs⟩

theorem distinct_of_memberValues? : ∀ {depth : Nat} {ms : List (Option String × Raw)}
    {es : List (String × Json)}, Raw.memberValues? depth ms = some es → ∀ e ∈ es, e.2.Distinct
  | _, [], _, h => by cases h; simp
  | _, (key, t) :: rest, _, h => by
    obtain ⟨k, -, h⟩ := Option.bind_eq_some_iff.1 h
    obtain ⟨j, hj, h⟩ := Option.bind_eq_some_iff.1 h
    obtain ⟨js, hjs, h⟩ := Option.bind_eq_some_iff.1 h
    cases h
    intro e he
    rcases List.mem_cons.1 he with rfl | he
    · exact distinct_of_value? hj
    · exact distinct_of_memberValues? hjs e he

end

/-- **The keys of every object in the value of a text are distinct.** -/
theorem distinct_of_parse? {text : String} {j : Json} (h : parse? text = some j) : j.Distinct := by
  obtain ⟨t, -, ht⟩ := Option.bind_eq_some_iff.1 h
  exact distinct_of_value? ht

end Json

/-! ## Trees of values -/

/-- The tree was read from a value with distinct keys. -/
def Tree.Parsed (t : Tree) : Prop :=
  ∃ file j, Json.Distinct j ∧ Group.ofJson file j = .ok t.tokens

theorem Tree.parsed_of_parse {t : Tree} {file : Path} {text : String}
    (h : Group.parse file text = .ok t.tokens) : t.Parsed := by
  unfold Group.parse at h
  cases hj : Json.parse? text with
  | none => rw [hj] at h; cases h
  | some j =>
    rw [hj] at h
    exact ⟨file, j, Json.distinct_of_parse? hj, h⟩

theorem name_of_nameFault?_eq_none {name : String} (h : nameFault? name = none) :
    name ≠ "" ∧ '.' ∉ name.toList := by
  unfold nameFault? at h
  split at h
  · cases h
  · rename_i nonempty
    split at h
    · cases h
    · split at h
      · cases h
      · split at h
        · cases h
        · exact ⟨by rintro rfl; exact nonempty rfl, by assumption⟩

theorem membersOfJson_cons_eq_ok {file : Path} {path key : String} {info info' : GroupInfo}
    {value : Json} {rest : List (String × Json)} {children : List (String × Node)}
    (h : membersOfJson file path info ((key, value) :: rest) = .ok (info', children)) :
    (Text.startsWith "$" key = true ∧ ∃ said, info.add file path key value = .ok said ∧
        membersOfJson file path said rest = .ok (info', children)) ∨
      (Text.startsWith "$" key = false ∧ nameFault? key = none ∧ ∃ n more,
        Node.ofJson file (childPath path key) value = .ok n ∧
        membersOfJson file path info rest = .ok (info', more) ∧ children = (key, n) :: more) := by
  unfold membersOfJson at h
  split at h
  · rename_i dollar
    obtain ⟨said, hsaid, h⟩ := bind_eq_ok.1 h
    exact .inl ⟨dollar, said, hsaid, h⟩
  · rename_i plain
    cases hf : nameFault? key with
    | some fault =>
      rw [hf] at h
      cases h
    | none =>
      rw [hf] at h
      obtain ⟨n, hn, h⟩ := bind_eq_ok.1 h
      obtain ⟨⟨said, more⟩, hmore, h⟩ := bind_eq_ok.1 h
      cases h
      exact .inr ⟨Bool.eq_false_iff.2 plain, rfl, n, more, hn, hmore, rfl⟩

mutual

theorem Node.wellNamed_of_ofJson {file : Path} : ∀ {path : String} {j : Json} {n : Node},
    j.Distinct → Node.ofJson file path j = .ok n → n.WellNamed
  | path, .obj members, n, distinct, h => by
    unfold Node.ofJson at h
    cases hv : Table.find? "$value" members with
    | some value =>
      rw [hv] at h
      obtain ⟨t, -, rfl⟩ := map_eq_ok.1 h
      trivial
    | none =>
      rw [hv] at h
      obtain ⟨⟨info, children⟩, hc, h⟩ := bind_eq_ok.1 h
      cases h
      exact (wellNamed_of_membersOfJson distinct.1 distinct.2 hc).1
  | _, .null, _, _, h | _, .bool _, _, _, h | _, .num _, _, _, h | _, .str _, _, _, h
  | _, .arr _, _, _, h => by cases h

theorem wellNamed_of_membersOfJson {file : Path} : ∀ {path : String} {info info' : GroupInfo}
    {members : List (String × Json)} {children : List (String × Node)},
    (members.map Prod.fst).Nodup → Json.MembersDistinct members →
    membersOfJson file path info members = .ok (info', children) →
    WellNamed children ∧ List.Sublist (children.map Prod.fst) (members.map Prod.fst)
  | _, _, _, [], _, _, _, h => by cases h; exact ⟨trivial, .slnil⟩
  | path, info, info', (key, value) :: rest, children, nodup, distinct, h => by
    rw [List.map_cons, List.nodup_cons] at nodup
    rcases membersOfJson_cons_eq_ok h with ⟨-, said, -, hmore⟩ | ⟨-, fine, n, more, hn, hmore, rfl⟩
    · obtain ⟨named, sub⟩ := wellNamed_of_membersOfJson nodup.2 distinct.2 hmore
      exact ⟨named, sub.cons _⟩
    · obtain ⟨named, sub⟩ := wellNamed_of_membersOfJson nodup.2 distinct.2 hmore
      obtain ⟨nonempty, dot⟩ := name_of_nameFault?_eq_none fine
      refine ⟨⟨nonempty, dot, fun mem => nodup.1 (sub.mem mem), ?_, named⟩, sub.cons_cons _⟩
      exact Node.wellNamed_of_ofJson distinct.1 hn

end

/-- **The names in a tree of a document.** -/
theorem Tree.Parsed.wellNamed {t : Tree} (h : t.Parsed) : t.WellNamed := by
  obtain ⟨file, j, distinct, h⟩ := h
  unfold Group.ofJson at h
  cases j with
  | obj members =>
    obtain ⟨⟨info, children⟩, hc, h⟩ := bind_eq_ok.1 h
    have tokens : (⟨info, children⟩ : Group) = t.tokens := Except.ok.inj h
    unfold Tree.WellNamed
    rw [← tokens]
    exact (wellNamed_of_membersOfJson distinct.1 distinct.2 hc).1
  | null | bool _ | num _ | str _ | arr _ => cases h

end DesignTokens
