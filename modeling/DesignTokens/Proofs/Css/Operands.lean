import DesignTokens.Proofs.Css.Texts
import DesignTokens.Proofs.Resolution.References

/-!
# Values as written and as resolved

A value next to the same value with its references replaced: its parts correspond to each other.

* `ofJson?_of_plain`, `references_of_plain`: a value without braces is no reference and has none;
* `Json.operand`: both values; **`member?_operand`**, **`items_operand`**: their parts;
* `mem_uses_of_member?`, `mem_uses_of_mem_items`: the references of parts;
* `Json.Exact`: every string with a brace is a reference;
  **`Json.AllStrings.substitute`**: the strings in the resolved value.
-/

namespace DesignTokens

theorem ofJson?_of_plain {j : Json} (plain : j.Plain) : Reference.ofJson? j = none := by
  rw [Option.eq_none_iff_forall_not_mem]
  intro r hr
  obtain ⟨rfl, -⟩ := ofJson?_eq_some_iff.1 hr
  exact plain (by simp [toList_text])

theorem references_of_plain {j : Json} (plain : j.Plain) : j.references = [] := by
  refine List.eq_nil_iff_forall_not_mem.2 fun r hr => ?_
  obtain ⟨s, hs, parsed⟩ := Json.mem_references_iff.1 hr
  obtain ⟨rfl, -⟩ := parse?_eq_some_iff.1 parsed
  exact Json.allStrings_iff.1 plain _ hs (by simp [toList_text])

/-! ## Parts -/

namespace Json

variable (σ : Reference → Json)

theorem substitute_of_isScalar {j : Json} (whole : Reference.ofJson? j = none) (h : j.IsScalar) :
    j.substitute σ = j := by
  cases j with
  | str s =>
    unfold substitute
    rw [show Reference.parse? s = none from whole]
  | null | bool _ | num _ => rfl
  | arr _ | obj _ => cases h

theorem eq_of_substitute_isScalar {j : Json} (whole : Reference.ofJson? j = none)
    (h : (j.substitute σ).IsScalar) : j.substitute σ = j := by
  cases j with
  | arr _ | obj _ => cases h
  | null | bool _ | num _ | str _ => exact substitute_of_isScalar σ whole trivial

theorem find?_map_members (key : String) (members : List (String × Json)) :
    Table.find? key (members.map fun m => (m.1, m.2.substitute σ)) =
      (Table.find? key members).map (substitute σ) := by
  induction members with
  | nil => rfl
  | cons m rest ih =>
    rw [List.map_cons, Table.find?, Table.find?, ih]
    split <;> rfl

theorem member?_substitute {j : Json} (whole : Reference.ofJson? j = none) (key : String) :
    (j.substitute σ).member? key = (j.member? key).map (substitute σ) := by
  cases j with
  | obj members =>
    rw [substitute, substituteMembers_eq]
    exact find?_map_members σ key members
  | str s => rw [substitute_of_isScalar σ whole trivial]; rfl
  | null | bool _ | num _ | arr _ => rfl

/-- The value as written and as resolved. -/
def operand (j : Json) : Operand := ⟨j, j.substitute σ⟩

theorem whole_of_member? {j part : Json} {key : String} (h : j.member? key = some part) :
    Reference.ofJson? j = none := by
  cases j with
  | obj members => rfl
  | null | bool _ | num _ | arr _ | str _ => cases h

/-- **The properties of both values.** -/
theorem member?_operand (j : Json) (key : String) :
    (j.operand σ).member? key = (j.member? key).map (operand σ) := by
  unfold Operand.member?
  show (j.member? key).map _ = _
  cases hm : j.member? key with
  | none => rfl
  | some part =>
    show some (Operand.mk part (((j.substitute σ).member? key).getD part)) = some (part.operand σ)
    rw [member?_substitute σ (whole_of_member? hm), hm]
    rfl

/-- **The items of both values.** -/
theorem items_operand (items : List Json) :
    ((arr items).operand σ).items = items.map (operand σ) := by
  unfold Operand.items
  have item : ∀ i, ((arr items).operand σ).item? i = items[i]?.map (operand σ) := by
    intro i
    show items[i]?.map _ = _
    cases hi : items[i]? with
    | none => rfl
    | some part =>
      show some (Operand.mk part (((arr items).substitute σ).item? i |>.getD part)) =
        some (part.operand σ)
      rw [substitute_arr]
      show some (Operand.mk part ((items.map (substitute σ))[i]?.getD part)) = _
      rw [List.getElem?_map, hi]
      rfl
  show (List.range items.length).filterMap ((arr items).operand σ).item? = _
  rw [funext item]
  clear item
  induction items with
  | nil => rfl
  | cons j rest ih =>
    rw [List.length_cons, List.range_succ_eq_map, List.filterMap_cons, List.filterMap_map,
      List.map_cons, ← ih]
    rfl

mutual

theorem substitute_of_plain : ∀ {j : Json}, j.Plain → j.substitute σ = j
  | .str s, plain => substitute_of_isScalar σ (j := .str s) (ofJson?_of_plain (j := .str s) plain) trivial
  | .arr items, plain => by rw [substitute, substituteItems_of_plain plain]
  | .obj members, plain => by rw [substitute, substituteMembers_of_plain plain]
  | .null, _ | .bool _, _ | .num _, _ => rfl

theorem substituteItems_of_plain : ∀ {items : List Json}, ItemsAllStrings BraceFree items →
    substituteItems σ items = items
  | [], _ => rfl
  | _ :: _, plain => by
    rw [substituteItems, substitute_of_plain plain.1, substituteItems_of_plain plain.2]

theorem substituteMembers_of_plain : ∀ {members : List (String × Json)}, MembersAllStrings BraceFree members →
    substituteMembers σ members = members
  | [], _ => rfl
  | _ :: _, plain => by
    rw [substituteMembers, substitute_of_plain plain.1, substituteMembers_of_plain plain.2]

end

theorem operand_of_plain {v : Json} (plain : v.Plain) : v.operand σ = ⟨v, v⟩ := by
  unfold operand
  rw [substitute_of_plain σ plain]

/-! ## References inside parts -/

theorem mem_uses_of_member? {j part : Json} {key : String} (h : j.member? key = some part)
    (property : Option String) {o : Use} (ho : o ∈ part.uses (some key)) : o ∈ j.uses property := by
  cases j with
  | obj members => exact mem_memberUses.2 ⟨(key, part), Table.mem_of_find?_eq_some h, ho⟩
  | null | bool _ | num _ | arr _ | str _ => cases h

theorem mem_uses_of_mem_items {items : List Json} {item : Json} (h : item ∈ items)
    {property : Option String} {o : Use} (ho : o ∈ item.uses property) :
    o ∈ (arr items).uses property := mem_itemUses.2 ⟨item, h, ho⟩

/-! ## Values in which braces are around references -/

/-- The string is a reference if it has a brace. -/
def BracesRefer (s : String) : Prop := '{' ∈ s.toList ∨ '}' ∈ s.toList → (Reference.parse? s).isSome

instance : DecidablePred BracesRefer := fun _ => inferInstanceAs (Decidable (_ → _))

/-- Every string in the value, however deep, is a reference if it has a brace. -/
def Exact (j : Json) : Prop := j.AllStrings BracesRefer

instance : DecidablePred Exact := inferInstanceAs (DecidablePred (AllStrings BracesRefer))

theorem Exact.braceFree {s : String} (exact : (str s).Exact) (h : Reference.parse? s = none) :
    BraceFree s := by
  intro brace
  have := exact (.inl brace)
  rw [h] at this
  cases this

variable {σ}

/-- **All strings in the resolved value are of one kind**, if those in the values in place of references are,
and those that stay. -/
theorem AllStrings.substitute {P Q : String → Prop} (stays : ∀ s, P s → Reference.parse? s = none → Q s)
    {j : Json} (property : Option String) (own : j.AllStrings P)
    (h : ∀ o ∈ j.uses property, (σ o.reference).AllStrings Q) : (j.substitute σ).AllStrings Q := by
  refine allStrings_iff.2 fun s hs => ?_
  rcases hs.of_substitute with ⟨stands, none⟩ | ⟨r, hr, came⟩
  · exact stays s (allStrings_iff.1 own s stands) none
  · rw [references_eq j property] at hr
    obtain ⟨o, ho, rfl⟩ := List.mem_map.1 hr
    exact allStrings_iff.1 (h o ho) s came

end Json

end DesignTokens
