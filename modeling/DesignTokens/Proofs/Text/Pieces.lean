import DesignTokens.Text.Split

/-!
# Texts between separators

* `splitChars_eq_splitOn`: cutting is the library's `List.splitOn`;
* `splitOn_join`, `join_splitOn`: cutting undoes joining, for pieces without the separator, and
  joining undoes cutting;
* `join_induction`: what holds of the pieces and the separator holds of the text; `mem_join`: the
  characters of a piece are in it;
* `strip?_eq_some_iff`, `startsWith_iff`: beginnings of texts;
* `forall_char_lt`: the characters with small numbers.
-/

namespace DesignTokens.Text

theorem splitChars_eq_splitOn (sep : Char) (cs : List Char) :
    splitChars sep cs = cs.splitOn sep := by
  induction cs with
  | nil => rfl
  | cons c rest ih =>
    rw [splitChars, List.splitOn_cons_eq_if_modifyHead, ih]
    by_cases h : c = sep
    · simp [h]
    · simp only [h, if_false, beq_iff_eq]
      cases hs : rest.splitOn sep with
      | nil => exact absurd hs (List.splitOn_ne_nil sep rest)
      | cons piece pieces => rfl

theorem splitOn_ne_nil (sep : Char) (text : String) : splitOn sep text ≠ [] := by
  simp [splitOn, splitChars_eq_splitOn]

theorem notMem_of_mem_splitChars {sep : Char} {cs piece : List Char}
    (h : piece ∈ splitChars sep cs) : sep ∉ piece := by
  induction cs generalizing piece with
  | nil => simp [splitChars] at h; simp [h]
  | cons c rest ih =>
    by_cases hc : c = sep
    · rw [splitChars, if_pos hc] at h
      rcases List.mem_cons.1 h with rfl | h
      · simp
      · exact ih h
    · rw [splitChars, if_neg hc] at h
      cases hs : splitChars sep rest with
      | nil => rw [hs] at h; simp at h; simp [h, Ne.symm hc]
      | cons first pieces =>
        rw [hs] at h ih
        rcases List.mem_cons.1 h with rfl | h
        · simp [Ne.symm hc, ih List.mem_cons_self]
        · exact ih (List.mem_cons_of_mem _ h)

theorem notMem_of_mem_splitOn {sep : Char} {text piece : String} (h : piece ∈ splitOn sep text) :
    sep ∉ piece.toList := by
  obtain ⟨cs, hcs, rfl⟩ := List.mem_map.1 h
  simpa using notMem_of_mem_splitChars hcs

theorem splitOn_join {sep : Char} {pieces : List String} (h : ∀ p ∈ pieces, sep ∉ p.toList)
    (ne : pieces ≠ []) : splitOn sep (join (String.singleton sep) pieces) = pieces := by
  have hs : ∀ l ∈ pieces.map String.toList, sep ∉ l := by simpa using h
  rw [splitOn, splitChars_eq_splitOn, join, String.toList_intercalate, String.toList_singleton,
    List.splitOn_intercalate sep hs (by simpa using ne)]
  simp [Function.comp_def]

theorem join_splitOn (sep : Char) (text : String) :
    join (String.singleton sep) (splitOn sep text) = text := by
  apply String.toList_injective
  rw [splitOn, splitChars_eq_splitOn, join, String.toList_intercalate, String.toList_singleton,
    List.map_map]
  simp [Function.comp_def]

theorem join_injective {sep : Char} {ps qs : List String} (hp : ∀ p ∈ ps, sep ∉ p.toList)
    (hq : ∀ q ∈ qs, sep ∉ q.toList) (ps_ne : ps ≠ []) (qs_ne : qs ≠ [])
    (h : join (String.singleton sep) ps = join (String.singleton sep) qs) : ps = qs := by
  rw [← splitOn_join hp ps_ne, h, splitOn_join hq qs_ne]

theorem splitOn_append (sep : Char) (a b : String) :
    splitOn sep (a ++ String.singleton sep ++ b) = splitOn sep a ++ splitOn sep b := by
  simp [splitOn, splitChars_eq_splitOn, List.splitOn_append_cons_self]

theorem join_induction {P : String → Prop} (nil : P "")
    (append : ∀ {a b}, P a → P b → P (a ++ b)) {sep : String} (hs : P sep) {texts : List String}
    (h : ∀ t ∈ texts, P t) : P (join sep texts) := by
  unfold join
  induction texts with
  | nil =>
    rw [String.intercalate_nil]
    exact nil
  | cons t rest ih =>
    cases rest with
    | nil =>
      rw [String.intercalate_singleton]
      exact h t (by simp)
    | cons u rest =>
      rw [String.intercalate_cons_cons]
      exact append (append (h t (by simp)) hs) (ih fun v hv => h v (by simp [hv]))

theorem mem_join {sep : String} {texts : List String} {t : String} (ht : t ∈ texts) {c : Char}
    (hc : c ∈ t.toList) : c ∈ (join sep texts).toList := by
  unfold join
  induction texts with
  | nil => cases ht
  | cons u rest ih =>
    cases rest with
    | nil =>
      rw [String.intercalate_singleton]
      obtain rfl := List.mem_singleton.1 ht
      exact hc
    | cons v rest =>
      rw [String.intercalate_cons_cons, String.toList_append, String.toList_append]
      rcases List.mem_cons.1 ht with rfl | ht
      · exact List.mem_append_left _ (List.mem_append_left _ hc)
      · exact List.mem_append_right _ (ih ht)

/-! ## Beginnings -/

theorem stripChars?_eq_some_iff {start cs rest : List Char} :
    stripChars? start cs = some rest ↔ cs = start ++ rest := by
  induction start generalizing cs with
  | nil => simp [stripChars?]
  | cons s start ih =>
    cases cs with
    | nil => simp [stripChars?]
    | cons c cs =>
      by_cases h : s = c
      · simp [stripChars?, h, ih]
      · simp [stripChars?, h, Ne.symm h]

theorem strip?_eq_some_iff {start text rest : String} :
    strip? start text = some rest ↔ text = start ++ rest := by
  unfold strip?
  rw [Option.map_eq_some_iff]
  constructor
  · rintro ⟨cs, h, rfl⟩
    apply String.toList_injective
    rw [stripChars?_eq_some_iff.1 h, String.toList_append, String.toList_ofList]
  · rintro rfl
    exact ⟨rest.toList, stripChars?_eq_some_iff.2 String.toList_append, String.ofList_toList⟩

theorem startsWith_iff {start text : String} :
    startsWith start text = true ↔ ∃ rest, text = start ++ rest := by
  unfold startsWith
  rw [Option.isSome_iff_exists]
  simp only [strip?_eq_some_iff]

/-! ## Characters -/

theorem forall_char_lt {c : Char} (P : Char → Prop) {b : Nat} (h : ∀ n < b, P (Char.ofNat n))
    (hc : c.toNat < b) : P c := by
  have := h c.toNat hc
  rwa [Char.ofNat_toNat] at this

end DesignTokens.Text
