import DesignTokens.Proofs.Css.Parts

/-!
# Font families

A family that is a reference is kept as one. In a list it is taken for a name and gets quotes, and what
it comes to stands between them.

* `quotedItem`: what the text of a family in a list comes to; `length_quotedItems`: too long a list;
* **`renders_family`**: families come to themselves, unless one of a list is a reference.
-/

namespace DesignTokens

section Families

variable {transforms : Transforms} {decls : List (String × List Fragment)} {σ : Reference → Json}
  {type : TokenType} {property : Option String} {j : Json}

/-- What the text of a family in a list comes to. -/
def quotedItem (σ : Reference → Json) (item : Json) : String :=
  if item.isReference then "\"" ++ familyItem (item.substitute σ) ++ "\""
  else familyItem (item.substitute σ)

variable (σ) in
theorem length_quotedItem (item : Json) :
    (familyItem (item.substitute σ)).length ≤ (quotedItem σ item).length ∧
      (item.isReference = true →
        (familyItem (item.substitute σ)).length < (quotedItem σ item).length) := by
  unfold quotedItem
  split
  · simp only [String.length_append]
    have quote : "\"".length = 1 := rfl
    omega
  · rename_i plain
    exact ⟨Nat.le_refl _, fun whole => absurd whole plain⟩

theorem length_join_le (sep : String) {f g : Json → String}
    (le : ∀ item, (f item).length ≤ (g item).length) (items : List Json) :
    (Text.join sep (items.map f)).length ≤ (Text.join sep (items.map g)).length ∧
      ((∃ item ∈ items, (f item).length < (g item).length) →
        (Text.join sep (items.map f)).length < (Text.join sep (items.map g)).length) := by
  unfold Text.join
  induction items with
  | nil => simp
  | cons item rest ih =>
    cases rest with
    | nil => simpa using le item
    | cons next rest =>
      obtain ⟨ihle, ihlt⟩ := ih
      have here := le item
      rw [List.map_cons] at ihle ihlt
      simp only [List.map_cons, String.intercalate_cons_cons, String.length_append] at ihle ihlt ⊢
      refine ⟨by omega, ?_⟩
      rintro ⟨other, hi, lt⟩
      rcases List.mem_cons.1 hi with rfl | hi
      · omega
      · have := ihlt ⟨other, hi, lt⟩
        omega

variable (σ) in
theorem length_quotedItems {items : List Json} {item : Json} (hi : item ∈ items)
    (whole : item.isReference = true) :
    (Text.join ", " (items.map fun i => familyItem (i.substitute σ))).length <
      (Text.join ", " (items.map (quotedItem σ))).length :=
  (length_join_le ", " (fun i => (length_quotedItem σ i).1) items).2
    ⟨item, hi, (length_quotedItem σ item).2 whole⟩

theorem evaluates_quotedItem (draws : Draws transforms decls σ type property j)
    (plain : (j.substitute σ).Plain) (asks : askedType? type property = some .fontFamily)
    (scalar : (j.substitute σ).IsScalar) (quotable : j.Quotable) :
    Evaluates decls (familyItem j) (quotedItem σ j) := by
  unfold quotedItem Json.isReference
  cases whole : Reference.ofJson? j with
  | some r =>
    have conv : convert? transforms "" .fontFamily ⟨j.substitute σ, j.substitute σ⟩ =
        .ok (some (.single (familyItem (j.substitute σ)))) := by
      rw [convert?_of_textOf? rfl (ofJson?_of_plain plain), familyText_of_isScalar plain scalar]
    have inner := draws.evaluates_of_asked asks (by simp) (fun _ => conv) whole
    have quote : Evaluates decls "\"" "\"" := .refl (by decide)
    obtain ⟨rfl, -⟩ := ofJson?_eq_some_iff.1 whole
    have named := quotable.2 (by rw [show Reference.parse? r.text = some r from whole]; rfl)
    have quoted : familyItem (.str r.text) = "\"" ++ r.text ++ "\"" := by
      rw [familyItem, quoteFamily_reference named]
    rw [quoted]
    exact (quote.append inner).append quote
  | none =>
    have same := Json.eq_of_substitute_isScalar σ whole scalar
    rw [same] at plain scalar ⊢
    exact .refl (braceFree_familyItem plain scalar)

theorem braceFree_familyText {v : Json} (plain : v.Plain)
    (shape : v.IsScalar ∨ ∃ items, v = .arr items ∧ ∀ item ∈ items, item.IsScalar) :
    BraceFree (familyText v) := by
  rcases shape with scalar | ⟨items, rfl, scalars⟩
  · rw [familyText_of_isScalar plain scalar]
    exact braceFree_familyItem plain scalar
  · rw [familyText_arr]
    refine .join (by decide) fun t ht => ?_
    obtain ⟨item, hi, rfl⟩ := List.mem_map.1 ht
    exact braceFree_familyItem (Json.AllStrings.of_mem plain hi) (scalars item hi)

theorem renders_familyList {items : List Json}
    (draws : Draws transforms decls σ type property (.arr items))
    (plain : ((Json.arr items).substitute σ).Plain)
    (asks : askedType? type property = some .fontFamily)
    (scalars : ∀ item ∈ items, (item.substitute σ).IsScalar)
    (free : BraceFree (familyText ((Json.arr items).substitute σ)))
    {names : Prop} (quotable : names → (Json.arr items).Quotable) :
    Renders decls names (SpelledFamily (.arr items)) (familyText (.arr items))
      (familyText ((Json.arr items).substitute σ)) := by
  rw [Json.substitute_arr] at plain free ⊢
  refine ⟨fun spelled => ?_, fun named unspelled k same => ?_⟩
  · have stays : items.map (Json.substitute σ) = items :=
      (List.map_congr_left fun item hi => Json.eq_of_substitute_isScalar σ
        (spelled items rfl item hi) (scalars item hi)).trans (List.map_id items)
    rw [stays] at free ⊢
    exact .refl free
  · obtain ⟨item, hi, hr⟩ : ∃ item ∈ items, item.isReference = true := by
      by_contra none
      refine unspelled fun names hn item hi => ?_
      cases hn
      rw [← Option.not_isSome_iff_eq_none]
      exact fun whole => none ⟨item, hi, whole⟩
    rw [familyText_arr] at same
    have longer : Evaluates decls (Text.join ", " (items.map familyItem))
        (Text.join ", " (items.map (quotedItem σ))) := by
      refine .join (by decide) ?_
      rw [List.forall₂_map_left_iff, List.forall₂_map_right_iff, List.forall₂_same]
      intro item hi
      exact evaluates_quotedItem (draws.item hi)
        (Json.AllStrings.of_mem plain (List.mem_map_of_mem hi)) asks (scalars item hi)
        (Json.ItemsQuotable.of_mem (quotable named) hi)
    have target := longer.unique ⟨longer.clear, free, k, same⟩
    rw [familyText_arr, List.map_map] at target
    have := length_quotedItems σ hi hr
    rw [target] at this
    exact Nat.lt_irrefl _ this

/-- **A family or a list of families.** A reference in a list gets quotes around its value. -/
theorem renders_family (draws : Draws transforms decls σ type property j)
    (plain : (j.substitute σ).Plain) (asks : askedType? type property = some .fontFamily)
    (shape : (j.substitute σ).IsScalar ∨
      ∃ items, j.substitute σ = .arr items ∧ ∀ item ∈ items, item.IsScalar)
    {names : Prop} (quotable : names → j.Quotable) :
    Renders decls names (SpelledFamily j) (familyText j) (familyText (j.substitute σ)) := by
  have free := braceFree_familyText plain shape
  cases whole : Reference.ofJson? j with
  | some r =>
    have target : Evaluates decls r.text (familyText (j.substitute σ)) :=
      draws.evaluates_of_asked asks (by simp)
        (fun _ => convert?_of_textOf? rfl (ofJson?_of_plain plain)) whole
    obtain ⟨rfl, -⟩ := ofJson?_eq_some_iff.1 whole
    have start : Text.startsWith "\x7b" r.text = true :=
      Text.startsWith_iff.2 ⟨r.path ++ "\x7d", by rw [Reference.text, String.append_assoc]⟩
    have text : familyText (.str r.text) = r.text := by
      simp only [familyText, start, if_true]
    rw [text]
    exact (target.renders fun names hn => by cases hn).renders
  | none =>
    cases j with
    | arr items =>
      refine renders_familyList draws plain asks ?_ free quotable
      rw [Json.substitute_arr] at shape
      rcases shape with scalar | ⟨_, same, scalars⟩
      · cases scalar
      · cases same
        exact fun item hi => scalars _ (List.mem_map_of_mem hi)
    | obj members =>
      rcases shape with scalar | ⟨_, same, -⟩
      · cases scalar
      · cases same
    | null | bool _ | num _ | str _ =>
      rw [Json.substitute_of_isScalar σ whole trivial] at free ⊢
      exact ((Evaluates.refl free).renders fun names hn => by cases hn).renders

end Families

end DesignTokens
