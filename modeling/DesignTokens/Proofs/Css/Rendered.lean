import DesignTokens.Proofs.Css.Interpolated
import DesignTokens.Proofs.Name.Cache

/-!
# Exactly the references of a text are replaced

A text is searched from the left for runs of characters between braces, none of which is a brace or a
blank, and what is found is replaced if it is a reference. The search and the syntax of references agree
on where a reference begins and ends, whatever braces are around it.

* `Name.Sought`, `Name.found?`, `Name.replaceFound`: what is searched for, what is found at the front of a
  text, and a text with everything that is found replaced; **`renderReferences_eq_replaceFound`**;
* `renderReferences_reference_between`: a reference, whatever is around it; `renderReferences_run_between`:
  a run between braces that is no reference; `disjoint_references`: references do not overlap;
* `Name.Replaced`: what becomes of a text, said without a search; `replaced_iff`;
* **`renderReferences_exact`**: all of it, with the names of a cache or without.
-/

namespace DesignTokens

namespace Name

/-! ## The search -/

/-- A run of characters between braces, none of them a brace or a blank. -/
def Sought (part : List Char) : Prop :=
  ∃ run, run ≠ [] ∧ run.all Reference.isPathChar = true ∧ part = '{' :: run ++ ['}']

/-- What is found at the front of a text, and what follows it. -/
def found? : List Char → Option (List Char × List Char)
  | '{' :: cs =>
    let run := cs.takeWhile Reference.isPathChar
    match cs.dropWhile Reference.isPathChar with
    | '}' :: after => if run = [] then none else some ('{' :: run ++ ['}'], after)
    | _ => none
  | _ => none

/-- **What is found** at the front of a text is what is searched for. -/
theorem found?_eq_some_iff {cs part after : List Char} :
    found? cs = some (part, after) ↔ Sought part ∧ cs = part ++ after := by
  constructor
  · intro h
    unfold found? at h
    split at h
    · rename_i cs
      dsimp only at h
      split at h
      · rename_i behind
        split_ifs at h with empty
        cases h
        have whole := List.takeWhile_append_dropWhile (p := Reference.isPathChar) (l := cs)
        rw [behind] at whole
        exact ⟨⟨_, empty, List.all_takeWhile, rfl⟩, by simp [whole]⟩
      · cases h
    · cases h
  · rintro ⟨⟨run, some', all, rfl⟩, rfl⟩
    have taken : (run ++ '}' :: after).takeWhile Reference.isPathChar = run := by
      rw [List.takeWhile_append_of_pos (List.all_eq_true.1 all), List.takeWhile_cons_of_neg (by decide),
        List.append_nil]
    have behind : (run ++ '}' :: after).dropWhile Reference.isPathChar = '}' :: after := by
      rw [List.dropWhile_append_of_pos (List.all_eq_true.1 all), List.dropWhile_cons_of_neg (by decide)]
    rw [List.cons_append, List.cons_append, List.append_assoc, List.singleton_append, found?]
    simp only [taken, behind, if_neg some', List.cons_append]

theorem length_found? {cs part after : List Char} (h : found? cs = some (part, after)) :
    after.length < cs.length := by
  obtain ⟨⟨run, -, -, rfl⟩, rfl⟩ := found?_eq_some_iff.1 h
  simp only [List.cons_append, List.length_cons, List.length_append]
  omega

/-- The characters with everything that is found from the left replaced; the search goes on behind it. -/
def replaceFound (f : List Char → List Char) : List Char → List Char
  | [] => []
  | c :: cs =>
    match h : found? (c :: cs) with
    | some (part, after) =>
      have : after.length ≤ cs.length := Nat.le_of_lt_succ (length_found? h)
      f part ++ replaceFound f after
    | none => c :: replaceFound f cs
termination_by cs => cs.length

/-- The use of the custom property of a reference; anything else stays as it is. -/
def renderFound (part : List Char) : List Char :=
  match Reference.parse? (String.ofList part) with
  | some r => (use (customProperty r.path)).toList
  | none => part

section Search

variable {f : List Char → List Char} {c : Char} {cs part after : List Char}

theorem replaceFound_of_found? (h : found? cs = some (part, after)) :
    replaceFound f cs = f part ++ replaceFound f after := by
  cases cs with
  | nil => cases h
  | cons c cs =>
    rw [replaceFound]
    split
    · rename_i h'
      cases h.symm.trans h'
      rfl
    · rename_i h'
      cases h.symm.trans h'

theorem replaceFound_cons (h : found? (c :: cs) = none) :
    replaceFound f (c :: cs) = c :: replaceFound f cs := by
  rw [replaceFound]
  split
  · rename_i h'
    cases h.symm.trans h'
  · rfl

end Search

theorem found?_brace_eq_none {cs : List Char} (h : braced? cs = none) : found? ('{' :: cs) = none := by
  cases found : found? ('{' :: cs) with
  | none => rfl
  | some p =>
    obtain ⟨part, after⟩ := p
    obtain ⟨⟨run, -, all, rfl⟩, same⟩ := found?_eq_some_iff.1 found
    simp only [List.cons_append, List.append_assoc, List.nil_append, List.cons.injEq, true_and] at same
    rw [same, braced?_append all] at h
    cases h

theorem all_of_braced?_eq_some {cs inner after : List Char} (h : braced? cs = some (inner, after)) :
    inner.all Reference.isPathChar = true := by
  induction cs generalizing inner with
  | nil => cases h
  | cons c cs ih =>
    unfold braced? at h
    split_ifs at h with closing char
    · cases h
      rfl
    · obtain ⟨⟨inner, after⟩, hb, same⟩ := Option.map_eq_some_iff.1 h
      cases same
      rw [List.all_cons, char, ih hb]
      rfl

theorem found?_brace {cs inner after : List Char} (h : braced? cs = some (inner, after)) :
    found? ('{' :: cs) = if inner = [] then none else some ('{' :: inner ++ ['}'], after) := by
  have all := all_of_braced?_eq_some h
  obtain rfl := eq_of_braced?_eq_some h
  split_ifs with empty
  · subst empty
    rfl
  · exact found?_eq_some_iff.2 ⟨⟨inner, empty, all, rfl⟩, by simp⟩

/-! ## What is found, read as a reference -/

theorem parse?_braces (inner : List Char) :
    Reference.parse? (String.ofList ('{' :: inner ++ ['}'])) =
      if Reference.isPath inner then some ⟨String.ofList inner⟩ else none := by
  unfold Reference.parse?
  rw [String.toList_ofList, inner?_eq_some_iff.2 rfl]

theorem pieces_run {inner : List Char} (h : '{' ∉ inner) (after : List Char) :
    pieces (inner ++ '}' :: after) = inner.map .plain ++ .plain '}' :: pieces after := by
  rw [pieces_append_of_notMem h, pieces_cons_of_ne (by decide)]

theorem flatMap_plain (cs : List Char) : (cs.map Piece.plain).flatMap (·.text.toList) = cs := by
  simp [List.flatMap_map, Piece.text]

/-- **One search and one reading of what is found.** -/
theorem flatMap_pieces_eq_replaceFound : ∀ cs : List Char,
    (pieces cs).flatMap (·.text.toList) = replaceFound renderFound cs
  | [] => by rw [pieces, replaceFound]; rfl
  | c :: cs => by
    have later := flatMap_pieces_eq_replaceFound cs
    have plain (none : found? (c :: cs) = none) :
        (Piece.plain c :: pieces cs).flatMap (·.text.toList) = replaceFound renderFound (c :: cs) := by
      rw [replaceFound_cons none, List.flatMap_cons, later, Piece.text, String.toList_ofList]
      rfl
    by_cases opening : c = '{'
    · subst opening
      rw [pieces_brace]
      cases hb : braced? cs with
      | none => exact plain (found?_brace_eq_none hb)
      | some p =>
        obtain ⟨inner, after⟩ := p
        have shorter := length_braced? hb
        have further := flatMap_pieces_eq_replaceFound after
        have found := found?_brace hb
        dsimp only
        by_cases empty : inner = []
        · rw [if_pos empty] at found
          rw [empty, if_neg (by decide)]
          exact plain found
        · rw [if_neg empty] at found
          rw [replaceFound_of_found? found, renderFound, parse?_braces]
          by_cases valid : Reference.isPath inner = true
          · rw [if_pos valid, if_pos valid, List.flatMap_cons, further]
            rfl
          · -- what is rejected has no brace inside, so the search misses nothing by going on behind it
            have brace : '{' ∉ inner := fun mem =>
              absurd (List.all_eq_true.1 (all_of_braced?_eq_some hb) _ mem) (by decide)
            rw [if_neg valid, if_neg valid, eq_of_braced?_eq_some hb, pieces_run brace, List.flatMap_cons,
              List.flatMap_append, flatMap_plain, List.flatMap_cons, further]
            simp [Piece.text]
    · rw [pieces_cons_of_ne opening]
      refine plain ?_
      unfold found?
      split
      · rename_i same
        exact absurd (List.cons.inj same).1 opening
      · rfl
termination_by cs => cs.length

end Name

/-- **A text with its references replaced**: everything that is found in it, read as a reference. -/
theorem renderReferences_eq_replaceFound (text : String) :
    Name.renderReferences text =
      String.ofList (Name.replaceFound Name.renderFound text.toList) := by
  apply String.toList_injective
  rw [toList_renderReferences, Name.flatMap_pieces_eq_replaceFound, String.toList_ofList]

/-! ## Parts of a text -/

theorem toList_between (r : Reference) (before after : String) :
    (before ++ r.text ++ after).toList =
      before.toList ++ '{' :: (r.path.toList ++ '}' :: after.toList) := by
  simp [toList_text]

theorem eq_of_append_cons {c : Char} {before after before' after' : List Char} (h : c ∉ before)
    (h' : c ∉ before') (same : before ++ c :: after = before' ++ c :: after') :
    before = before' ∧ after = after' := by
  rcases List.append_eq_append_iff.1 same with ⟨mid, rfl, rest⟩ | ⟨mid, rfl, rest⟩
  · cases mid with
    | nil => simpa using rest
    | cons d mid =>
      obtain ⟨rfl, -⟩ := List.cons.inj rest
      exact absurd (by simp) h'
  · cases mid with
    | nil => simpa [eq_comm] using rest
    | cons d mid =>
      obtain ⟨rfl, -⟩ := List.cons.inj rest
      exact absurd (by simp) h

/-- **A reference**, whatever is around it. -/
theorem renderReferences_reference_between {part : String} {r : Reference}
    (h : Reference.parse? part = some r) (before after : String) :
    Name.renderReferences (before ++ part ++ after) =
      Name.renderReferences before ++ Name.use (Name.customProperty r.path) ++
        Name.renderReferences after := by
  obtain ⟨rfl, valid⟩ := parse?_eq_some_iff.1 h
  have found := pieces_reference valid after.toList
  rw [List.cons_append, String.ofList_toList] at found
  apply String.toList_injective
  rw [toList_renderReferences, toList_between, pieces_append_brace, found, List.flatMap_append,
    List.flatMap_cons, Name.Piece.text, String.toList_append, String.toList_append,
    toList_renderReferences, toList_renderReferences, List.append_assoc]

/-- **A run between braces** that is no reference stays as it is, whatever is around it. -/
theorem renderReferences_run_between {inner : String} (opening : '{' ∉ inner.toList)
    (closing : '}' ∉ inner.toList) (h : Reference.parse? ("\x7b" ++ inner ++ "\x7d") = none)
    (before after : String) :
    Name.renderReferences (before ++ ("\x7b" ++ inner ++ "\x7d") ++ after) =
      Name.renderReferences before ++ ("\x7b" ++ inner ++ "\x7d") ++ Name.renderReferences after := by
  let r : Reference := ⟨inner⟩
  have invalid : ¬ Reference.isPath inner.toList = true := fun valid => by
    rw [show "\x7b" ++ inner ++ "\x7d" = r.text from rfl, parse?_eq_some_iff.2 ⟨rfl, valid⟩] at h
    cases h
  have stays : Name.pieces ('{' :: (inner.toList ++ '}' :: after.toList)) =
      r.text.toList.map .plain ++ Name.pieces after.toList := by
    have plain : Name.Piece.plain '{' :: Name.pieces (inner.toList ++ '}' :: after.toList) =
        r.text.toList.map .plain ++ Name.pieces after.toList := by
      rw [Name.pieces_run opening, toList_text]
      simp [r]
    rw [pieces_brace, ← plain]
    cases hb : Name.braced? (inner.toList ++ '}' :: after.toList) with
    | none => rfl
    | some p =>
      obtain ⟨path, behind⟩ := p
      have path' : '}' ∉ path := fun mem =>
        absurd (List.all_eq_true.1 (Name.all_of_braced?_eq_some hb) _ mem) (by decide)
      obtain ⟨rfl, -⟩ := eq_of_append_cons closing path' (eq_of_braced?_eq_some hb)
      exact if_neg invalid
  apply String.toList_injective
  rw [toList_renderReferences, show "\x7b" ++ inner ++ "\x7d" = r.text from rfl, toList_between,
    pieces_append_brace, stays, List.flatMap_append, List.flatMap_append, Name.flatMap_plain,
    String.toList_append, String.toList_append, toList_renderReferences, toList_renderReferences,
    List.append_assoc]

theorem same_or_behind {before path after before' path' after' : List Char}
    (valid : Reference.isPath path = true) (valid' : Reference.isPath path' = true)
    (same : before ++ '{' :: (path ++ '}' :: after) = before' ++ '{' :: (path' ++ '}' :: after'))
    (first : before.length ≤ before'.length) :
    (before = before' ∧ path = path' ∧ after = after') ∨
      ∃ mid, before' = before ++ '{' :: (path ++ '}' :: mid) := by
  have front : before <+: before' :=
    List.prefix_of_prefix_length_le ⟨_, same⟩ ⟨_, rfl⟩ first
  obtain ⟨mid, rfl⟩ := front
  rw [List.append_assoc, List.append_cancel_left_eq] at same
  cases mid with
  | nil =>
    have closing {path : List Char} (valid : Reference.isPath path = true) : '}' ∉ path :=
      notMem_of_isPath (by decide) valid
    obtain ⟨rfl, rfl⟩ := eq_of_append_cons (closing valid) (closing valid') (List.cons.inj same).2
    exact .inl ⟨by simp, rfl, rfl⟩
  | cons c mid =>
    obtain ⟨rfl, tail⟩ := List.cons.inj same
    rcases List.append_eq_append_iff.1 tail with ⟨behind, rfl, meet⟩ | ⟨inside, rfl, meet⟩
    · cases behind with
      | nil => cases (List.cons.inj meet).1
      | cons d behind =>
        obtain ⟨rfl, -⟩ := List.cons.inj meet
        exact .inr ⟨behind, by simp⟩
    · cases inside with
      | nil => cases (List.cons.inj meet).1
      | cons d inside =>
        obtain ⟨rfl, -⟩ := List.cons.inj meet
        exact absurd (by simp) (notMem_of_isPath (c := '{') (by decide) valid)

/-- **References do not overlap.** -/
theorem disjoint_references {before part after before' part' after' : String} {r r' : Reference}
    (h : Reference.parse? part = some r) (h' : Reference.parse? part' = some r')
    (same : before ++ part ++ after = before' ++ part' ++ after') :
    (before = before' ∧ part = part' ∧ after = after') ∨ (∃ mid, before' = before ++ part ++ mid) ∨
      ∃ mid, before = before' ++ part' ++ mid := by
  obtain ⟨rfl, valid⟩ := parse?_eq_some_iff.1 h
  obtain ⟨rfl, valid'⟩ := parse?_eq_some_iff.1 h'
  have chars := congrArg String.toList same
  rw [toList_between, toList_between] at chars
  have behind {r : Reference} {a b : String} {mid : List Char}
      (h : b.toList = a.toList ++ '{' :: (r.path.toList ++ '}' :: mid)) : ∃ m, b = a ++ r.text ++ m :=
    ⟨String.ofList mid, String.toList_injective (by rw [h, toList_between, String.toList_ofList])⟩
  rcases Nat.le_total before.toList.length before'.toList.length with first | first
  · rcases same_or_behind valid valid' chars first with ⟨front, path, back⟩ | ⟨mid, h⟩
    · refine .inl ⟨String.toList_injective front, ?_, String.toList_injective back⟩
      rw [Reference.text, Reference.text, String.toList_injective path]
    · exact .inr (.inl (behind h))
  · rcases same_or_behind valid' valid chars.symm first with ⟨front, path, back⟩ | ⟨mid, h⟩
    · refine .inl ⟨(String.toList_injective front).symm, ?_, (String.toList_injective back).symm⟩
      rw [Reference.text, Reference.text, String.toList_injective path]
    · exact .inr (.inr (behind h))

/-! ## Whole texts -/

/-- What becomes of a text: nothing changes if no part of it is a reference; else some reference in it is
replaced, and so is what stands before it and behind it. -/
inductive Name.Replaced : String → String → Prop
  | plain {text : String}
      (none : ∀ before part after, text = before ++ part ++ after → Reference.parse? part = none) :
      Name.Replaced text text
  | reference {before part after front back : String} {r : Reference}
      (parsed : Reference.parse? part = some r) (left : Name.Replaced before front)
      (right : Name.Replaced after back) :
      Name.Replaced (before ++ part ++ after) (front ++ Name.use (Name.customProperty r.path) ++ back)

theorem Reference.StandsIn.exists_parts {r : Reference} {text : String} (h : r.StandsIn text) :
    ∃ before part after, text = before ++ part ++ after ∧ Reference.parse? part = some r := by
  obtain ⟨valid, before, after, same⟩ := h
  refine ⟨String.ofList before, r.text, String.ofList after, String.toList_injective ?_,
    parse?_eq_some_iff.2 ⟨rfl, valid⟩⟩
  simp [← same]

theorem renderReferences_of_plain {text : String}
    (none : ∀ before part after, text = before ++ part ++ after → Reference.parse? part = none) :
    Name.renderReferences text = text := by
  refine renderReferences_eq_self_iff.2 fun r stands => ?_
  obtain ⟨before, part, after, same, parsed⟩ := stands.exists_parts
  rw [none before part after same] at parsed
  cases parsed

theorem replaced_renderReferences (text : String) :
    Name.Replaced text (Name.renderReferences text) := by
  induction hn : text.toList.length using Nat.strongRecOn generalizing text with
  | ind n ih =>
    by_cases some' : ∃ before part after r, text = before ++ part ++ after ∧
        Reference.parse? part = some r
    · obtain ⟨before, part, after, r, rfl, parsed⟩ := some'
      obtain ⟨rfl, -⟩ := parse?_eq_some_iff.1 parsed
      rw [toList_between, List.length_append, List.length_cons, List.length_append,
        List.length_cons] at hn
      rw [renderReferences_reference_between parsed]
      exact .reference parsed (ih _ (by omega) before rfl) (ih _ (by omega) after rfl)
    · have none : ∀ before part after, text = before ++ part ++ after → Reference.parse? part = none :=
        fun before part after same => Option.eq_none_iff_forall_ne_some.2 fun r parsed =>
          some' ⟨before, part, after, r, same, parsed⟩
      rw [renderReferences_of_plain none]
      exact .plain none

/-- **What becomes of a text** does not depend on the reference that is replaced first. -/
theorem replaced_iff {text out : String} :
    Name.Replaced text out ↔ out = Name.renderReferences text := by
  constructor
  · intro h
    induction h with
    | plain none => exact (renderReferences_of_plain none).symm
    | reference parsed _ _ left right =>
      rw [renderReferences_reference_between parsed, left, right]
  · rintro rfl
    exact replaced_renderReferences text

/-- **Exactly the references of a text are replaced.** With the names of a cache or without, the text is
searched once, and what is found is replaced if it reads as a reference. The outcome is that every part
which reads as a reference is replaced by the use of the custom property of its path, with nothing else
changed, whatever braces are around it: no two such parts overlap. A run between braces that does not
read as a reference stays as it is. -/
theorem renderReferences_exact (text : String) :
    (∀ c : NameCache, c.Right → (c.renderReferences text).1 = Name.renderReferences text) ∧
    Name.renderReferences text =
      String.ofList (Name.replaceFound Name.renderFound text.toList) ∧
    (∀ out, Name.Replaced text out ↔ out = Name.renderReferences text) ∧
    (∀ before part after r, text = before ++ part ++ after → Reference.parse? part = some r →
      Name.renderReferences text =
        Name.renderReferences before ++ Name.use (Name.customProperty r.path) ++
          Name.renderReferences after) ∧
    (∀ before part after before' part' after', text = before ++ part ++ after →
      text = before' ++ part' ++ after' → (Reference.parse? part).isSome →
      (Reference.parse? part').isSome →
      (before = before' ∧ part = part' ∧ after = after') ∨ (∃ mid, before' = before ++ part ++ mid) ∨
        ∃ mid, before = before' ++ part' ++ mid) ∧
    ∀ before inner after, text = before ++ ("\x7b" ++ inner ++ "\x7d") ++ after →
      '{' ∉ inner.toList → '}' ∉ inner.toList →
      Reference.parse? ("\x7b" ++ inner ++ "\x7d") = none →
      Name.renderReferences text =
        Name.renderReferences before ++ ("\x7b" ++ inner ++ "\x7d") ++ Name.renderReferences after := by
  refine ⟨fun c right => (NameCache.renderReferences_eq right text).1,
    renderReferences_eq_replaceFound text, fun out => replaced_iff, ?_, ?_, ?_⟩
  · rintro before part after r rfl parsed
    exact renderReferences_reference_between parsed before after
  · intro before part after before' part' after' left right parsed parsed'
    obtain ⟨r, hr⟩ := Option.isSome_iff_exists.1 parsed
    obtain ⟨r', hr'⟩ := Option.isSome_iff_exists.1 parsed'
    exact disjoint_references hr hr' (left.symm.trans right)
  · rintro before inner after rfl opening closing rejected
    exact renderReferences_run_between opening closing rejected before after

/-- A reference behind a brace that stays, with a run that holds a blank behind it; and two references
side by side. -/
theorem renderReferences_exact_nested :
    (NameCache.empty.Right ∧ '{' ∉ "c d".toList ∧ '}' ∉ "c d".toList ∧
      Reference.parse? ("\x7b" ++ "c d" ++ "\x7d") = none ∧
      Reference.parse? "\x7ba.b\x7d" = some ⟨"a.b"⟩ ∧ Reference.parse? "\x7be\x7d" = some ⟨"e"⟩) ∧
    (NameCache.empty.renderReferences "\x7b\x7ba.b\x7d\x7bc d\x7d").1 = "\x7bvar(--a-b)\x7bc d\x7d" ∧
    (("" = "\x7ba.b\x7d" ∧ "\x7ba.b\x7d" = "\x7be\x7d" ∧ "\x7be\x7d" = "") ∨
      (∃ mid, "\x7ba.b\x7d" = "" ++ "\x7ba.b\x7d" ++ mid) ∨
      ∃ mid, "" = "\x7ba.b\x7d" ++ "\x7be\x7d" ++ mid) := by
  have run : Reference.parse? ("\x7b" ++ "c d" ++ "\x7d") = none := by decide
  have ab : Reference.parse? "\x7ba.b\x7d" = some ⟨"a.b"⟩ := by decide
  have e : Reference.parse? "\x7be\x7d" = some ⟨"e"⟩ := by decide
  refine ⟨⟨NameCache.right_empty, by decide, by decide, run, ab, e⟩, ?_, ?_⟩
  · obtain ⟨cached, -, -, -, -, verbatim⟩ := renderReferences_exact "\x7b\x7ba.b\x7d\x7bc d\x7d"
    obtain ⟨-, -, -, replaced, -, -⟩ := renderReferences_exact "\x7b\x7ba.b\x7d"
    have nothing : Name.renderReferences "" = "" := renderReferences_of_braceFree (by decide)
    have brace : Name.renderReferences "\x7b" = "\x7b" := by
      simp [Name.renderReferences, Name.pieces, Name.braced?, Name.Piece.text]
    rw [cached _ NameCache.right_empty,
      verbatim "\x7b\x7ba.b\x7d" "c d" "" (by decide) (by decide) (by decide) run,
      replaced "\x7b" "\x7ba.b\x7d" "" ⟨"a.b"⟩ (by decide) ab, brace, nothing]
    decide +kernel
  · obtain ⟨-, -, -, -, apart, -⟩ := renderReferences_exact "\x7ba.b\x7d\x7be\x7d"
    exact apart "" "\x7ba.b\x7d" "\x7be\x7d" "\x7ba.b\x7d" "\x7be\x7d" "" (by decide) (by decide)
      (by rw [ab]; rfl) (by rw [e]; rfl)

end DesignTokens
