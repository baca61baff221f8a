import DesignTokens.Proofs.Css.Readings
import DesignTokens.Proofs.Name.Letters

/-!
# References that stand in texts

A text is declared with a use in place of every path in braces that stands in it, whatever is around: where
a reference is recognized in a string only if it is all of it, one is replaced in a text wherever it is.

* `Reference.StandsIn`: a path in braces is a part of a text; **`reference_mem_pieces_iff`**: the references
  of a text are those that stand in it;
* **`renderReferences_eq_self_iff`**: a text without any is declared as it is, and no other text;
* `Reference.BeginsIn`: a reference stands in a text, or the text ends inside of it;
  `eq_of_beginsIn`: nothing but itself begins in a reference; `standsIn_append`: a reference that stands in
  two texts together;
* **`exists_brings_of_composed`**: a reference in a composed text begins in a text that the value brings
  along.
-/

namespace DesignTokens

/-- The characters that a piece is read from. -/
def Name.Piece.source : Name.Piece → List Char
  | .plain c => [c]
  | .reference r => r.text.toList

/-! ## Pieces of a text -/

theorem source_pieces : ∀ cs : List Char, (Name.pieces cs).flatMap Name.Piece.source = cs ∧
    ∀ r, .reference r ∈ Name.pieces cs → Reference.isPath r.path.toList = true
  | [] => by simp [Name.pieces]
  | c :: cs => by
    have rest := source_pieces cs
    have plain : (Name.Piece.plain c :: Name.pieces cs).flatMap Name.Piece.source = c :: cs ∧
        ∀ r, .reference r ∈ Name.Piece.plain c :: Name.pieces cs →
          Reference.isPath r.path.toList = true := by
      refine ⟨by rw [List.flatMap_cons, rest.1]; rfl, fun r hr => rest.2 r ?_⟩
      simpa using hr
    by_cases opening : c = '{'
    · subst opening
      rw [pieces_brace]
      cases hb : Name.braced? cs with
      | none => exact plain
      | some p =>
        obtain ⟨inner, after⟩ := p
        have shorter := Name.length_braced? hb
        have further := source_pieces after
        simp only
        split
        · rename_i valid
          refine ⟨?_, fun r hr => ?_⟩
          · rw [List.flatMap_cons, further.1, eq_of_braced?_eq_some hb]
            simp [Name.Piece.source, toList_text]
          · rcases List.mem_cons.1 hr with same | hr
            · cases same
              rwa [String.toList_ofList]
            · exact further.2 r hr
        · exact plain
    · rw [pieces_cons_of_ne opening]
      exact plain
termination_by cs => cs.length

theorem braced?_append_brace {cs : List Char} (h : '}' ∉ cs) (rest : List Char) :
    Name.braced? (cs ++ '{' :: rest) = none ∧ Name.braced? cs = none := by
  induction cs with
  | nil => exact ⟨rfl, rfl⟩
  | cons c cs ih =>
    rw [List.mem_cons, not_or] at h
    rw [List.cons_append, Name.braced?, Name.braced?, if_neg (Ne.symm h.1), if_neg (Ne.symm h.1),
      (ih h.2).1, (ih h.2).2]
    simp

theorem pieces_append_brace : ∀ cs rest : List Char,
    Name.pieces (cs ++ '{' :: rest) = Name.pieces cs ++ Name.pieces ('{' :: rest)
  | [], rest => by rw [List.nil_append, Name.pieces.eq_1, List.nil_append]
  | c :: cs, rest => by
    have later := pieces_append_brace cs rest
    by_cases opening : c = '{'
    · subst opening
      rw [List.cons_append, pieces_brace (cs ++ _), pieces_brace cs, later]
      by_cases closed : '}' ∈ cs
      · rw [braced?_append_of_mem closed]
        cases hb : Name.braced? cs with
        | none => rfl
        | some p =>
          obtain ⟨inner, after⟩ := p
          have shorter := Name.length_braced? hb
          have further := pieces_append_brace after rest
          simp only [Option.map_some]
          split
          · rw [further]
            rfl
          · rfl
      · rw [(braced?_append_brace closed rest).1, (braced?_append_brace closed rest).2]
        rfl
    · rw [List.cons_append, pieces_cons_of_ne opening, pieces_cons_of_ne opening, later]
      rfl
termination_by cs => cs.length

/-! ## References of a text -/

/-- The reference is a part of the text. -/
def Reference.StandsIn (r : Reference) (text : String) : Prop :=
  Reference.isPath r.path.toList = true ∧ r.text.toList <:+: text.toList

/-- **The references of a text** are those that stand in it. -/
theorem reference_mem_pieces_iff {r : Reference} {text : String} :
    .reference r ∈ Name.pieces text.toList ↔ r.StandsIn text := by
  constructor
  · intro h
    obtain ⟨source, valid⟩ := source_pieces text.toList
    refine ⟨valid r h, ?_⟩
    obtain ⟨before, after, split⟩ := List.append_of_mem h
    rw [split, List.flatMap_append, List.flatMap_cons] at source
    exact ⟨_, _, by rw [List.append_assoc]; exact source⟩
  · rintro ⟨valid, before, after, split⟩
    have found := pieces_reference valid after
    rw [← split, toList_text, List.append_assoc, List.cons_append, List.cons_append,
      pieces_append_brace, List.append_assoc, List.singleton_append]
    rw [List.cons_append] at found
    simp [found]

/-! ## Texts that are declared as they are -/

theorem notMem_of_isPath {path : List Char} {c : Char} (hc : Reference.isPathChar c = false)
    (h : Reference.isPath path = true) : c ∉ path := fun mem => by
  have all := List.all_eq_true.1 (Bool.and_eq_true_iff.1 h).1 c mem
  rw [hc] at all
  cases all

/-- Whether a piece is a reference. -/
def Name.Piece.isReference : Name.Piece → Bool
  | .plain _ => false
  | .reference _ => true

theorem count_text (ps : List Name.Piece)
    (valid : ∀ r, .reference r ∈ ps → Reference.isPath r.path.toList = true) :
    (ps.flatMap (·.text.toList)).count '{' + ps.countP Name.Piece.isReference =
      (ps.flatMap Name.Piece.source).count '{' := by
  induction ps with
  | nil => rfl
  | cons p ps ih =>
    have rest := ih fun r hr => valid r (List.mem_cons_of_mem _ hr)
    cases p with
    | plain c =>
      rw [List.flatMap_cons, List.flatMap_cons, List.count_append, List.count_append,
        List.countP_cons_of_neg (by simp [Name.Piece.isReference]), ← rest]
      simp only [Name.Piece.text, Name.Piece.source, String.toList_ofList]
      omega
    | reference r =>
      have path : '{' ∉ r.path.toList := notMem_of_isPath (by decide) (valid r List.mem_cons_self)
      have use : (Name.use (Name.customProperty r.path)).toList.count '{' = 0 := by
        refine List.count_eq_zero.2 fun mem => ?_
        simp only [Name.use, String.toList_append, List.mem_append] at mem
        rcases mem with (mem | mem) | mem
        · exact absurd mem (by decide)
        · exact Name.notMem_customProperty (by decide) (by decide) path mem
        · exact absurd mem (by decide)
      have source : r.text.toList.count '{' = 1 := by
        rw [toList_text, List.count_append, List.count_cons_self, List.count_eq_zero.2 path]
        decide
      rw [List.flatMap_cons, List.flatMap_cons, List.count_append, List.count_append,
        List.countP_cons_of_pos rfl, ← rest]
      simp only [Name.Piece.text, Name.Piece.source, use, source]
      omega

theorem toList_renderReferences (text : String) :
    (Name.renderReferences text).toList =
      (Name.pieces text.toList).flatMap (·.text.toList) := by
  simp [Name.renderReferences, List.flatMap_map]

/-- **A text is declared as it is** exactly if no reference stands in it. -/
theorem renderReferences_eq_self_iff {text : String} :
    Name.renderReferences text = text ↔ ∀ r : Reference, ¬ r.StandsIn text := by
  obtain ⟨source, valid⟩ := source_pieces text.toList
  have count := count_text _ valid
  rw [source, ← toList_renderReferences] at count
  constructor
  · intro same r stands
    rw [same, Nat.add_eq_left, List.countP_eq_zero] at count
    exact count _ (reference_mem_pieces_iff.2 stands) rfl
  · intro none
    have plain : ∀ p ∈ Name.pieces text.toList, p.text.toList = p.source := by
      intro p hp
      cases p with
      | plain c => exact String.toList_ofList
      | reference r => exact absurd (reference_mem_pieces_iff.1 hp) (none r)
    apply String.toList_injective
    rw [toList_renderReferences, List.flatMap_congr plain, source]

/-! ## References across texts -/

/-- The reference stands in the text, or the text ends inside of it. -/
def Reference.BeginsIn (r : Reference) (text : String) : Prop :=
  Reference.isPath r.path.toList = true ∧ (r.text.toList <:+: text.toList ∨
    ∃ before start, text.toList = before ++ '{' :: start ∧ start <+: r.path.toList)

theorem Reference.StandsIn.beginsIn {r : Reference} {text : String} (h : r.StandsIn text) :
    r.BeginsIn text := ⟨h.1, .inl h.2⟩

theorem not_beginsIn_of_braceFree {r : Reference} {text : String} (h : BraceFree text) :
    ¬ r.BeginsIn text := by
  rintro ⟨-, inside | ⟨before, start, split, -⟩⟩
  · exact h (inside.subset (by simp [toList_text]))
  · exact h (by simp [split])

theorem eq_of_beginsIn {r r' : Reference} {a b : String} (ha : BraceFree a) (hb : BraceFree b)
    (valid : Reference.isPath r'.path.toList = true) (h : r.BeginsIn (a ++ r'.text ++ b)) : r = r' := by
  obtain ⟨path, stands | ⟨before, start, split, part⟩⟩ := h
  · have mem := reference_mem_pieces_iff.2 (⟨path, stands⟩ : r.StandsIn _)
    have found := pieces_reference valid b.toList
    rw [String.toList_append, String.toList_append, List.append_assoc, pieces_append_of_notMem ha,
      toList_text, List.append_assoc, List.singleton_append, found] at mem
    have after : Name.pieces b.toList = b.toList.map .plain := by
      have := pieces_append_of_notMem hb []
      rwa [List.append_nil, Name.pieces.eq_1, List.append_nil] at this
    rw [after] at mem
    simpa using mem
  · -- the brace is that of the reference, so its end would belong to the path
    have opening : '{' ∉ r'.path.toList ++ '}' :: b.toList := by
      have after : '{' ∉ b.toList := hb
      simp [notMem_of_isPath (by decide : Reference.isPathChar '{' = false) valid, after]
    have same : a.toList ++ '{' :: (r'.path.toList ++ '}' :: b.toList) = before ++ '{' :: start := by
      rw [← split]
      simp [toList_text]
    have closing : '}' ∈ start := by
      rcases List.append_eq_append_iff.1 same with ⟨mid, rfl, rest⟩ | ⟨mid, left, rest⟩
      · cases mid with
        | nil => simp [← (List.cons.inj rest).2]
        | cons c mid => exact absurd (by simp [(List.cons.inj rest).2]) opening
      · cases mid with
        | nil => simp [(List.cons.inj rest).2]
        | cons c mid =>
          obtain ⟨rfl, -⟩ := List.cons.inj rest
          exact absurd (by simp [left]) ha
    exact absurd (part.subset closing) (notMem_of_isPath (by decide) path)

theorem eq_of_beginsIn_text {r r' : Reference} (valid : Reference.isPath r'.path.toList = true)
    (h : r.BeginsIn r'.text) : r = r' :=
  eq_of_beginsIn (a := "") (b := "") (by decide) (by decide) valid (by simpa using h)

theorem standsIn_append {r : Reference} {a b : String} (h : r.StandsIn (a ++ b)) :
    r.BeginsIn a ∨ r.StandsIn b := by
  obtain ⟨valid, inside⟩ := h
  rw [String.toList_append, List.infix_append_iff] at inside
  rcases inside with left | right | ⟨front, back, split, ends, starts⟩
  · exact .inl ⟨valid, .inl left⟩
  · exact .inr ⟨valid, right⟩
  · cases front with
    | nil =>
      rw [List.nil_append] at split
      exact .inr ⟨valid, split ▸ starts.isInfix⟩
    | cons c start =>
      rw [toList_text, List.cons_append, List.cons_append, List.cons.injEq] at split
      obtain ⟨rfl, split⟩ := split
      obtain ⟨before, hbefore⟩ := ends
      refine .inl ⟨valid, ?_⟩
      have front : start <+: r.path.toList ++ ['}'] := ⟨back, split.symm⟩
      rcases List.prefix_concat_iff.1 front with all | part
      · refine .inl ⟨before, [], ?_⟩
        rw [toList_text, List.cons_append, ← all, List.append_nil, hbefore]
      · exact .inr ⟨before, start, hbefore.symm, part⟩

/-- **A reference in a composed text** begins in a text that the value brings along. -/
theorem exists_brings_of_composed {o : Operand} {text : String} (composed : Composed o text)
    {r : Reference} {more : String} (h : r.StandsIn (text ++ more)) :
    (∃ s, o.Brings s ∧ r.BeginsIn s) ∨ r.StandsIn more := by
  have free {t more : String} (ht : BraceFree t) (h : r.StandsIn (t ++ more)) : r.StandsIn more :=
    (standsIn_append h).resolve_left (not_beginsIn_of_braceFree ht)
  induction composed generalizing more with
  | inert inert => exact .inr (free inert.braceFree h)
  | slash => exact .inr (free (by decide) h)
  | brought brings => exact (standsIn_append h).imp_left fun begins => ⟨_, brings, begins⟩
  | append _ _ iha ihb =>
    rw [String.append_assoc] at h
    exact (iha h).elim .inl ihb
  | call opens _ closes ih =>
    rw [String.append_assoc, String.append_assoc] at h
    exact (ih (free opens.braceFree h)).imp_right (free closes.braceFree)

end DesignTokens
