import DesignTokens.Proofs.Resolution.Graph

/-!
# References inside values

A reference inside a value is a string between braces, at whatever depth it stands. Replacing all of
them leaves only what the replacements bring along.

* `parse?_eq_some_iff`, `ofJson?_eq_some_iff`: a reference is its text;
* `references_eq`: the references of a value are those of its uses;
* `Json.parts_induction`: induction on a value over its parts;
* `Json.Holds`: a string stands somewhere in a value; `Json.AllStrings`, **`allStrings_iff`**: all
  strings in a value are of some kind; **`mem_references_iff`**: the references of a value are the
  strings in it that are references;
* `substitute_of_references_eq_nil`: a value without references stays as it is;
* **`references_substitute`**: values without references in place of all references leave none.
-/

namespace DesignTokens

/-! ## References as texts -/

theorem toList_text (r : Reference) : r.text.toList = '{' :: r.path.toList ++ ['}'] := by
  unfold Reference.text
  simp [String.toList_append]

theorem inner?_eq_some_iff {cs path : List Char} :
    Reference.inner? cs = some path ↔ cs = '{' :: path ++ ['}'] := by
  unfold Reference.inner?
  constructor
  · intro h
    split at h
    · rename_i rest
      split at h
      · rename_i inner hr
        obtain rfl := Option.some.inj h
        rw [List.reverse_eq_iff.1 hr]
        simp
      · cases h
    · cases h
  · rintro rfl
    simp

theorem parse?_eq_some_iff {s : String} {r : Reference} :
    Reference.parse? s = some r ↔ s = r.text ∧ Reference.isPath r.path.toList = true := by
  unfold Reference.parse?
  constructor
  · intro h
    cases hi : Reference.inner? s.toList with
    | none => rw [hi] at h; cases h
    | some path =>
      rw [hi] at h
      simp only at h
      split at h
      · rename_i valid
        cases h
        refine ⟨String.toList_injective ?_, by rwa [String.toList_ofList]⟩
        rw [inner?_eq_some_iff.1 hi, toList_text, String.toList_ofList]
      · cases h
  · rintro ⟨rfl, valid⟩
    rw [toList_text, inner?_eq_some_iff.2 rfl]
    simp only [valid, if_true, String.ofList_toList]

theorem ofJson?_eq_some_iff {j : Json} {r : Reference} :
    Reference.ofJson? j = some r ↔ j = .str r.text ∧ Reference.isPath r.path.toList = true := by
  cases j with
  | str s =>
    rw [Json.str.injEq]
    exact parse?_eq_some_iff
  | null | bool _ | num _ | arr _ | obj _ => exact ⟨fun h => (nomatch h), fun h => (nomatch h.1)⟩

namespace Json

/-! ## References of parts -/

/-- A value that is neither a list nor an object. -/
def IsScalar : Json → Prop
  | .arr _ => False
  | .obj _ => False
  | _ => True

@[elab_as_elim]
theorem parts_induction {P : Json → Prop} (scalar : ∀ j : Json, j.IsScalar → P j)
    (arr : ∀ items : List Json, (∀ j ∈ items, P j) → P (.arr items))
    (obj : ∀ members : List (String × Json), (∀ m ∈ members, P m.2) → P (.obj members)) :
    ∀ j : Json, P j
  | .arr items => arr items fun j hj => by
    have smaller := List.sizeOf_lt_of_mem hj
    exact parts_induction scalar arr obj j
  | .obj members => obj members fun (key, j) hm => by
    have smaller : sizeOf j < sizeOf members := by
      have := List.sizeOf_lt_of_mem hm
      rw [Prod.mk.sizeOf_spec] at this
      omega
    exact parts_induction scalar arr obj j
  | .null => scalar .null trivial
  | .bool b => scalar (.bool b) trivial
  | .num n => scalar (.num n) trivial
  | .str s => scalar (.str s) trivial
termination_by j => sizeOf j

theorem mem_itemUses {property : Option String} {items : List Json} {o : Use} :
    o ∈ itemUses property items ↔ ∃ j ∈ items, o ∈ j.uses property := by
  induction items with
  | nil => simp [itemUses]
  | cons j rest ih => simp [itemUses, ih]

theorem mem_memberUses {members : List (String × Json)} {o : Use} :
    o ∈ memberUses members ↔ ∃ m ∈ members, o ∈ m.2.uses (some m.1) := by
  induction members with
  | nil => simp [memberUses]
  | cons m rest ih => simp [memberUses, ih]

theorem uses_of_reference {j : Json} {r : Reference} (h : Reference.ofJson? j = some r)
    (property : Option String) : j.uses property = [⟨r, property⟩] := by
  cases j with
  | str s =>
    unfold uses
    rw [show Reference.parse? s = some r from h]
    rfl
  | null | bool _ | num _ | arr _ | obj _ => cases h

mutual

theorem references_eq : ∀ (j : Json) (property : Option String),
    j.references = (j.uses property).map Use.reference
  | .str s, _ => by
    unfold references uses
    cases Reference.parse? s <;> rfl
  | .arr items, property => itemReferences_eq items property
  | .obj members, _ => memberReferences_eq members
  | .null, _ | .bool _, _ | .num _, _ => rfl

theorem itemReferences_eq : ∀ (items : List Json) (property : Option String),
    itemReferences items = (itemUses property items).map Use.reference
  | [], _ => rfl
  | j :: rest, property => by
    rw [itemReferences, itemUses, List.map_append, references_eq j property,
      itemReferences_eq rest property]

theorem memberReferences_eq : ∀ members : List (String × Json),
    memberReferences members = (memberUses members).map Use.reference
  | [] => rfl
  | (key, j) :: rest => by
    rw [memberReferences, memberUses, List.map_append, references_eq j (some key),
      memberReferences_eq rest]

end

theorem references_of_reference {j : Json} {r : Reference} (h : Reference.ofJson? j = some r) :
    j.references = [r] := by
  rw [references_eq j none, uses_of_reference h]
  rfl

theorem property_of_mem_uses {j : Json} {key : String} {o : Use} :
    o ∈ j.uses (some key) → o.property ≠ none := by
  induction j using parts_induction generalizing key with
  | scalar j kind =>
    intro h
    cases j with
    | str s =>
      obtain ⟨r, -, rfl⟩ := List.mem_map.1 h
      exact Option.some_ne_none key
    | arr _ | obj _ => cases kind
    | null | bool _ | num _ => cases h
  | arr items ih =>
    intro h
    obtain ⟨j, hj, h⟩ := mem_itemUses.1 h
    exact ih j hj h
  | obj members ih =>
    intro h
    obtain ⟨m, hm, h⟩ := mem_memberUses.1 h
    exact ih m hm h

/-! ## Strings at any depth -/

/-- The string stands somewhere in the value, as the value itself, an item or the value of a member. -/
inductive Holds (s : String) : Json → Prop
  | here : Holds s (.str s)
  | item {j : Json} {items : List Json} (h : j ∈ items) (inside : Holds s j) : Holds s (.arr items)
  | member {m : String × Json} {members : List (String × Json)} (h : m ∈ members)
    (inside : Holds s m.2) : Holds s (.obj members)

section AllStrings

variable (P : String → Prop)

mutual

/-- All strings in the value, however deep, are such strings. -/
def AllStrings : Json → Prop
  | .str s => P s
  | .arr items => ItemsAllStrings items
  | .obj members => MembersAllStrings members
  | _ => True

/-- All strings in the items are such strings. -/
def ItemsAllStrings : List Json → Prop
  | [] => True
  | j :: rest => AllStrings j ∧ ItemsAllStrings rest

/-- All strings in the values of the members are such strings. -/
def MembersAllStrings : List (String × Json) → Prop
  | [] => True
  | (_, j) :: rest => AllStrings j ∧ MembersAllStrings rest

end

variable {P}

theorem itemsAllStrings_iff {items : List Json} :
    ItemsAllStrings P items ↔ ∀ j ∈ items, j.AllStrings P := by
  induction items with
  | nil => simp [ItemsAllStrings]
  | cons j rest ih => simp [ItemsAllStrings, ih]

theorem membersAllStrings_iff {members : List (String × Json)} :
    MembersAllStrings P members ↔ ∀ m ∈ members, m.2.AllStrings P := by
  induction members with
  | nil => simp [MembersAllStrings]
  | cons m rest ih => simp [MembersAllStrings, ih]

/-- **All strings at any depth** are those that stand somewhere in the value. -/
theorem allStrings_iff {j : Json} : j.AllStrings P ↔ ∀ s, j.Holds s → P s := by
  constructor
  · intro all s hs
    induction hs with
    | here => exact all
    | item hj _ ih => exact ih (itemsAllStrings_iff.1 all _ hj)
    | member hm _ ih => exact ih (membersAllStrings_iff.1 all _ hm)
  · induction j using parts_induction with
    | scalar j kind =>
      intro h
      cases j with
      | str s => exact h s .here
      | arr _ | obj _ => cases kind
      | null | bool _ | num _ => trivial
    | arr items ih =>
      exact fun h => itemsAllStrings_iff.2 fun j hj => ih j hj fun s hs => h s (.item hj hs)
    | obj members ih =>
      exact fun h => membersAllStrings_iff.2 fun m hm => ih m hm fun s hs => h s (.member hm hs)

theorem AllStrings.of_mem {items : List Json} (h : (arr items).AllStrings P) {j : Json} (hj : j ∈ items) :
    j.AllStrings P := itemsAllStrings_iff.1 h j hj

theorem AllStrings.member? {j part : Json} (h : j.AllStrings P) {key : String}
    (hp : j.member? key = some part) : part.AllStrings P := by
  cases j with
  | obj members => exact membersAllStrings_iff.1 h _ (Table.mem_of_find?_eq_some hp)
  | null | bool _ | num _ | str _ | arr _ => cases hp

theorem AllStrings.string? {j : Json} (h : j.AllStrings P) {s : String} (hs : j.string? = some s) : P s := by
  cases j with
  | str t =>
    cases hs
    exact h
  | null | bool _ | num _ | arr _ | obj _ => cases hs

variable (P) [DecidablePred P]

mutual

/-- Whether all strings in the value are of a kind. -/
def decideAllStrings : (j : Json) → Decidable (AllStrings P j)
  | .str s => inferInstanceAs (Decidable (P s))
  | .arr items => decideItems items
  | .obj members => decideMembers members
  | .null | .bool _ | .num _ => .isTrue trivial

/-- Whether all strings in the items are. -/
def decideItems : (items : List Json) → Decidable (ItemsAllStrings P items)
  | [] => .isTrue trivial
  | j :: rest => @instDecidableAnd _ _ (decideAllStrings j) (decideItems rest)

/-- Whether all strings in the values of the members are. -/
def decideMembers : (members : List (String × Json)) → Decidable (MembersAllStrings P members)
  | [] => .isTrue trivial
  | (_, j) :: rest => @instDecidableAnd _ _ (decideAllStrings j) (decideMembers rest)

end

instance : DecidablePred (AllStrings P) := decideAllStrings P

end AllStrings

theorem mem_itemReferences {items : List Json} {r : Reference} :
    r ∈ itemReferences items ↔ ∃ j ∈ items, r ∈ j.references := by
  induction items with
  | nil => simp [itemReferences]
  | cons j rest ih => simp [itemReferences, ih]

theorem mem_memberReferences {members : List (String × Json)} {r : Reference} :
    r ∈ memberReferences members ↔ ∃ m ∈ members, r ∈ m.2.references := by
  induction members with
  | nil => simp [memberReferences]
  | cons m rest ih => simp [memberReferences, ih]

theorem Holds.mem_references {s : String} {r : Reference} (hr : Reference.parse? s = some r) {j : Json}
    (h : j.Holds s) : r ∈ j.references := by
  induction h with
  | here => exact Option.mem_toList.2 hr
  | item h _ ih => exact mem_itemReferences.2 ⟨_, h, ih⟩
  | member h _ ih => exact mem_memberReferences.2 ⟨_, h, ih⟩

theorem holds_of_mem_references {r : Reference} {j : Json} :
    r ∈ j.references → ∃ s, j.Holds s ∧ Reference.parse? s = some r := by
  induction j using parts_induction with
  | scalar j kind =>
    intro h
    cases j with
    | str s => exact ⟨s, .here, Option.mem_toList.1 h⟩
    | arr _ | obj _ => cases kind
    | null | bool _ | num _ => cases h
  | arr items ih =>
    intro h
    obtain ⟨j, hj, h⟩ := mem_itemReferences.1 h
    obtain ⟨s, hs, parsed⟩ := ih j hj h
    exact ⟨s, .item hj hs, parsed⟩
  | obj members ih =>
    intro h
    obtain ⟨m, hm, h⟩ := mem_memberReferences.1 h
    obtain ⟨s, hs, parsed⟩ := ih m hm h
    exact ⟨s, .member hm hs, parsed⟩

/-- **The references of a value are the strings in it that are references.** -/
theorem mem_references_iff {j : Json} {r : Reference} :
    r ∈ j.references ↔ ∃ s, j.Holds s ∧ Reference.parse? s = some r :=
  ⟨holds_of_mem_references, fun ⟨_, hs, parsed⟩ => hs.mem_references parsed⟩

/-! ## Other values in place of references -/

variable (σ : Reference → Json)

theorem substituteItems_eq (items : List Json) :
    substituteItems σ items = items.map (substitute σ) := by
  induction items with
  | nil => rfl
  | cons j rest ih => rw [substituteItems, ih, List.map_cons]

theorem substituteMembers_eq (members : List (String × Json)) :
    substituteMembers σ members = members.map fun m => (m.1, m.2.substitute σ) := by
  induction members with
  | nil => rfl
  | cons m rest ih => rw [substituteMembers, ih, List.map_cons]

theorem substitute_arr (items : List Json) :
    (arr items).substitute σ = arr (items.map (substitute σ)) := by
  rw [substitute, substituteItems_eq]

theorem substitute_reference {j : Json} {r : Reference} (h : Reference.ofJson? j = some r) :
    j.substitute σ = σ r := by
  cases j with
  | str s =>
    unfold substitute
    rw [show Reference.parse? s = some r from h]
  | null | bool _ | num _ | arr _ | obj _ => cases h

theorem substitute_str {s : String} (h : Reference.parse? s = none) :
    (str s).substitute σ = str s := by
  unfold substitute
  rw [h]

mutual

theorem substitute_text : ∀ j : Json, j.substitute (fun r => .str r.text) = j
  | .str s => by
    cases hs : Reference.parse? s with
    | some r =>
      rw [substitute_reference _ (j := .str s) hs, (parse?_eq_some_iff.1 hs).1]
    | none => exact substitute_str _ hs
  | .arr items => by rw [substitute, substituteItems_text items]
  | .obj members => by rw [substitute, substituteMembers_text members]
  | .null | .bool _ | .num _ => rfl

theorem substituteItems_text : ∀ items : List Json,
    substituteItems (fun r => .str r.text) items = items
  | [] => rfl
  | j :: rest => by rw [substituteItems, substitute_text j, substituteItems_text rest]

theorem substituteMembers_text : ∀ members : List (String × Json),
    substituteMembers (fun r => .str r.text) members = members
  | [] => rfl
  | (_, j) :: rest => by rw [substituteMembers, substitute_text j, substituteMembers_text rest]

end

theorem substitute_of_references_eq_nil {j : Json} (h : j.references = []) : j.substitute σ = j := by
  rw [references_eq j none, List.map_eq_nil_iff] at h
  refine (substitute_congr none j fun o ho => ?_).trans (substitute_text j)
  rw [h] at ho
  cases ho

variable {σ}

/-- A string that is left when references are replaced stood there before and is no reference, or it
came with the value of one. -/
theorem Holds.of_substitute {s : String} {j : Json} : (j.substitute σ).Holds s →
    j.Holds s ∧ Reference.parse? s = none ∨ ∃ r ∈ j.references, (σ r).Holds s := by
  induction j using parts_induction with
  | scalar j kind =>
    intro h
    cases j with
    | str t =>
      cases ht : Reference.parse? t with
      | some r =>
        rw [substitute_reference σ (j := .str t) ht] at h
        exact .inr ⟨r, Option.mem_toList.2 ht, h⟩
      | none =>
        rw [substitute_str σ ht] at h
        cases h
        exact .inl ⟨.here, ht⟩
    | arr _ | obj _ => cases kind
    | null | bool _ | num _ => cases h
  | arr items ih =>
    intro h
    rw [substitute_arr] at h
    cases h with
    | item hj inside =>
      obtain ⟨i, hi, rfl⟩ := List.mem_map.1 hj
      rcases ih i hi inside with ⟨stands, plain⟩ | ⟨r, hr, came⟩
      · exact .inl ⟨.item hi stands, plain⟩
      · exact .inr ⟨r, mem_itemReferences.2 ⟨i, hi, hr⟩, came⟩
  | obj members ih =>
    intro h
    rw [substitute, substituteMembers_eq] at h
    cases h with
    | member hj inside =>
      obtain ⟨m, hm, rfl⟩ := List.mem_map.1 hj
      rcases ih m hm inside with ⟨stands, plain⟩ | ⟨r, hr, came⟩
      · exact .inl ⟨.member hm stands, plain⟩
      · exact .inr ⟨r, mem_memberReferences.2 ⟨m, hm, hr⟩, came⟩

/-- **No reference is left**, if the values in place of references have none. -/
theorem references_substitute {j : Json} (h : ∀ r ∈ j.references, (σ r).references = []) :
    (j.substitute σ).references = [] := by
  refine List.eq_nil_iff_forall_not_mem.2 fun r hr => ?_
  obtain ⟨s, hs, parsed⟩ := mem_references_iff.1 hr
  rcases hs.of_substitute with ⟨-, plain⟩ | ⟨t, ht, came⟩
  · cases plain.symm.trans parsed
  · have := came.mem_references parsed
    rw [h t ht] at this
    cases this

end Json

end DesignTokens
