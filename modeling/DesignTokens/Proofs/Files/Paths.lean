import DesignTokens.Path
import DesignTokens.Proofs.Text.Pieces

/-!
# Components of paths

The components of a path are `..` and names behind an optional front. Putting them on a stack one by
one, the normal form and the location of a path differ in one thing: a `..` that found nothing to cancel
is cancelled by the next such one in the normal form, and stays in the location.

* `Path.location`: each `..` cancelled against the name in front of it, and kept where there is none;
* `Component.Tidy`, `components_cases`: what the components of a path are;
* `Path.stack`, `Stacked.step`: one component put on a stack; `Stacked.run`: all of them;
* `exists_of_relative`, `exists_of_absolute`: the two kinds of normal forms;
* `components_normalize`, `normalize_eq_iff`: the text of a normal form has its components.
-/

namespace DesignTokens

namespace Path

/-! ## The location of a path -/

/-- One component put behind others, the last component first: `..` cancels the name in front of it,
and stays where there is none. -/
def cancel (done : List Component) : Component → List Component
  | .current => done
  | .up => match done with
    | .name _ :: rest => rest
    | _ => .up :: done
  | c => c :: done

/-- The components that are left when `.` is dropped and each `..` is cancelled against the nearest
preceding name; those that have nothing to cancel stay in front. -/
def location (p : Path) : List Component := (p.components.foldl cancel []).reverse

/-! ## Components -/

/-- A name between slashes, or `..`. -/
def Component.Tidy : Component → Prop
  | .up => True
  | .name s => s ≠ "" ∧ s ≠ "." ∧ s ≠ ".." ∧ '/' ∉ s.toList
  | _ => False

/-- The component of a segment. -/
def ofSegment (s : List Char) : Component := if s = ['.', '.'] then .up else .name (String.ofList s)

/-- The components of the segments of a text. -/
def segments (cs : List Char) : List Component :=
  ((Text.splitChars '/' cs).filter fun s => !isVoid s).map ofSegment

theorem tidy_ofSegment {s : List Char} (slash : '/' ∉ s) (void : isVoid s = false) :
    (ofSegment s).Tidy := by
  have distinct {t : String} (h : s ≠ t.toList) : String.ofList s ≠ t := by
    rintro rfl
    exact h String.toList_ofList.symm
  simp only [isVoid, Bool.or_eq_false_iff, decide_eq_false_iff_not] at void
  unfold ofSegment
  split
  · trivial
  · rename_i up
    exact ⟨distinct void.1, distinct void.2, distinct up, by simpa using slash⟩

theorem tidy_of_mem_segments {cs : List Char} {c : Component} (h : c ∈ segments cs) : c.Tidy := by
  obtain ⟨s, hs, rfl⟩ := List.mem_map.1 h
  obtain ⟨hs, void⟩ := List.mem_filter.1 hs
  exact tidy_ofSegment (Text.notMem_of_mem_splitChars hs) (by simpa using void)

theorem components_of_absolute {p : Path} {cs : List Char} (h : p.text.toList = '/' :: cs) :
    p.components = .root :: segments cs := by
  simp only [components, lead, h]
  rfl

theorem components_of_lead {p : Path} (h : lead p.text.toList = []) :
    p.components = segments p.text.toList := by
  simp only [components, h]
  rfl

/-- **What the components of a path are.** -/
theorem components_cases (p : Path) :
    ∃ cs : List Component, (∀ c ∈ cs, c.Tidy) ∧
      (p.isAbsolute = true ∧ p.components = .root :: cs ∨
        p.isAbsolute = false ∧ (p.components = cs ∨ p.components = .current :: cs)) := by
  have absolute : p.isAbsolute = decide (p.text.toList.head? = some '/') := rfl
  rcases hp : p.text.toList with - | ⟨c, rest⟩
  · refine ⟨segments [], fun _ => tidy_of_mem_segments, .inr ⟨by simp [absolute, hp], .inl ?_⟩⟩
    rw [components_of_lead (by simp [hp, lead]), hp]
  · by_cases slash : c = '/'
    · subst slash
      exact ⟨segments rest, fun _ => tidy_of_mem_segments,
        .inl ⟨by simp [absolute, hp], components_of_absolute hp⟩⟩
    · have relative : p.isAbsolute = false := by simp [absolute, hp, slash]
      have front : lead (c :: rest) = [] ∨ lead (c :: rest) = ['.'] := by
        unfold lead
        split <;> simp_all
      rcases front with front | front
      · exact ⟨segments p.text.toList, fun _ => tidy_of_mem_segments,
          .inr ⟨relative, .inl (components_of_lead (hp ▸ front))⟩⟩
      · refine ⟨segments rest, fun _ => tidy_of_mem_segments, .inr ⟨relative, .inr ?_⟩⟩
        simp only [components, hp, front]
        rfl

/-! ## The text of components -/

theorem Component.Tidy.text_spec {c : Component} (h : c.Tidy) :
    c.text ≠ "" ∧ c.text ≠ "." ∧ '/' ∉ c.text.toList ∧ ofSegment c.text.toList = c := by
  cases c with
  | root | current => exact h.elim
  | up => decide
  | name s =>
    obtain ⟨empty, dot, up, slash⟩ := h
    refine ⟨empty, dot, slash, ?_⟩
    have : s.toList ≠ ['.', '.'] := fun same => up (String.toList_injective same)
    simp [ofSegment, Component.text, this]

theorem segments_join {cs : List Component} (tidy : ∀ c ∈ cs, c.Tidy) :
    segments (Text.join "/" (cs.map Component.text)).toList = cs := by
  by_cases ne : cs = []
  · subst ne
    rfl
  · have slash : ∀ t ∈ cs.map Component.text, '/' ∉ t.toList := by
      simpa using fun c hc => (tidy c hc).text_spec.2.2.1
    have split : Text.splitOn '/' (Text.join "/" (cs.map Component.text)) = cs.map Component.text :=
      Text.splitOn_join slash (by simpa using ne)
    have pieces : Text.splitChars '/' (Text.join "/" (cs.map Component.text)).toList =
        cs.map fun c => c.text.toList := by
      simpa [Text.splitOn, Function.comp_def] using congrArg (List.map String.toList) split
    have solid : ∀ s ∈ cs.map fun c => c.text.toList, (!isVoid s) = true := by
      intro s hs
      obtain ⟨c, hc, rfl⟩ := List.mem_map.1 hs
      obtain ⟨empty, dot, -, -⟩ := (tidy c hc).text_spec
      have dot' : c.text.toList ≠ ['.'] := fun same => dot (String.toList_injective same)
      simp [isVoid, empty, dot']
    rw [segments, pieces, List.filter_eq_self.2 solid, List.map_map]
    exact (List.map_congr_left fun c hc => (tidy c hc).text_spec.2.2.2).trans (List.map_id cs)

theorem lead_append {start : List Char} (ne : start ≠ []) (dot : start ≠ ['.']) (slash : '/' ∉ start)
    (rest : List Char) : lead (start ++ rest) = [] := by
  rcases start with - | ⟨x, - | ⟨y, start⟩⟩
  · exact absurd rfl ne
  · have x_dot : x ≠ '.' := fun h => dot (by rw [h])
    have x_slash : x ≠ '/' := fun h => slash (by simp [h])
    simp [lead, x_dot, x_slash]
  · have x_slash : x ≠ '/' := fun h => slash (by simp [h])
    have y_slash : y ≠ '/' := fun h => slash (by simp [h])
    simp [lead, x_slash, y_slash]

theorem lead_join {cs : List Component} (tidy : ∀ c ∈ cs, c.Tidy) :
    lead (Text.join "/" (cs.map Component.text)).toList = [] := by
  rcases cs with - | ⟨c, cs⟩
  · rfl
  · obtain ⟨empty, dot, slash, -⟩ := (tidy c List.mem_cons_self).text_spec
    have starts : ∃ rest, (Text.join "/" ((c :: cs).map Component.text)).toList =
        c.text.toList ++ rest := by
      rcases cs with - | ⟨d, cs⟩
      · exact ⟨[], by simp [Text.join]⟩
      · exact ⟨_, by rw [List.map_cons, List.map_cons, Text.join, String.intercalate_cons_cons,
          String.append_assoc, String.toList_append]⟩
    obtain ⟨rest, h⟩ := starts
    rw [h]
    exact lead_append (fun h => empty (String.toList_injective h))
      (fun h => dot (String.toList_injective h)) slash rest

theorem components_ofComponents {cs : List Component} (tidy : ∀ c ∈ cs, c.Tidy) :
    (ofComponents cs).components = cs := by
  have text : ofComponents cs = ⟨Text.join "/" (cs.map Component.text)⟩ := by
    unfold ofComponents
    split
    · exact (tidy .root List.mem_cons_self).elim
    · rfl
  have front : lead (ofComponents cs).text.toList = [] := by
    rw [text]
    exact lead_join tidy
  rw [components_of_lead front, text, segments_join tidy]

theorem components_ofComponents_root {cs : List Component} (tidy : ∀ c ∈ cs, c.Tidy) :
    (ofComponents (.root :: cs)).components = .root :: cs := by
  have text : (ofComponents (.root :: cs)).text.toList =
      '/' :: (Text.join "/" (cs.map Component.text)).toList := by
    simp [ofComponents, String.toList_append]
  rw [components_of_absolute text, segments_join tidy]

/-! ## Stacks of components -/

/-- A stack, the last component first: names, the `..` that nothing cancelled, and the bottom. -/
def stack (names : List String) (ups : Nat) (bottom : List Component) : List Component :=
  names.map .name ++ (List.replicate ups .up ++ bottom)

/-- The stacks of a location and of a normal form: they have the same names, and of the `..` that
nothing cancelled the second keeps at most one. -/
structure Stacked (bottom located normal : List Component) (names : List String) (ups : Nat) :
    Prop where
  tidy : ∀ n ∈ names, (Component.name n).Tidy
  located : located = stack names ups bottom
  normal : normal = stack names (ups % 2) bottom

theorem Stacked.step {bottom located normal : List Component} {names : List String} {ups : Nat}
    (h : Stacked bottom located normal names ups) (hb : bottom = [] ∨ bottom = [.root])
    {c : Component} (tidy : c.Tidy) :
    ∃ names' ups', Stacked bottom (cancel located c) (push normal c) names' ups' := by
  obtain ⟨tidyNames, rfl, rfl⟩ := h
  cases c with
  | root | current => exact tidy.elim
  | name s => exact ⟨s :: names, ups, List.forall_mem_cons.2 ⟨tidy, tidyNames⟩, rfl, rfl⟩
  | up =>
    cases names with
    | cons n names => exact ⟨names, ups, (List.forall_mem_cons.1 tidyNames).2, rfl, rfl⟩
    | nil =>
      refine ⟨[], ups + 1, tidyNames, ?_, ?_⟩
      · -- no name is on the stack, so the `..` stays
        rcases hb with rfl | rfl <;> cases ups <;> rfl
      · rcases Nat.mod_two_eq_zero_or_one ups with even | odd
        · rw [even, show (ups + 1) % 2 = 1 by omega]
          rcases hb with rfl | rfl <;> rfl
        · -- the `..` on the stack is taken for a name
          rw [odd, show (ups + 1) % 2 = 0 by omega]
          rcases hb with rfl | rfl <;> rfl

theorem Stacked.run {bottom : List Component} (hb : bottom = [] ∨ bottom = [.root])
    {cs : List Component} (tidy : ∀ c ∈ cs, c.Tidy) {located normal : List Component}
    {names : List String} {ups : Nat} (h : Stacked bottom located normal names ups) :
    ∃ names' ups', Stacked bottom (cs.foldl cancel located) (cs.foldl push normal) names' ups' := by
  induction cs generalizing located normal names ups with
  | nil => exact ⟨names, ups, h⟩
  | cons c cs ih =>
    obtain ⟨hc, hcs⟩ := List.forall_mem_cons.1 tidy
    obtain ⟨names', ups', h'⟩ := h.step hb hc
    exact ih hcs h'

theorem Stacked.start (bottom : List Component) : Stacked bottom bottom bottom [] 0 :=
  ⟨by simp, rfl, rfl⟩

/-! ## Normal forms -/

/-- The components that lead some directories up and then along names. -/
def climb (ups : Nat) (names : List String) : List Component :=
  List.replicate ups .up ++ names.map .name

theorem reverse_stack (names : List String) (ups : Nat) (bottom : List Component) :
    (stack names ups bottom).reverse = bottom.reverse ++ climb ups names.reverse := by
  simp [stack, climb]

/-- **The location and the normal form of a relative path.** -/
theorem exists_of_relative {p : Path} (relative : p.isAbsolute = false) :
    ∃ names ups, (∀ n ∈ names, (Component.name n).Tidy) ∧ p.location = climb ups names ∧
      p.normalComponents = climb (ups % 2) names := by
  obtain ⟨cs, tidy, ⟨absolute, -⟩ | ⟨-, h⟩⟩ := components_cases p
  · rw [relative] at absolute
    cases absolute
  · obtain ⟨names, ups, tidyNames, located, normal⟩ := (Stacked.start []).run (.inl rfl) tidy
    refine ⟨names.reverse, ups, by simpa using tidyNames, ?_, ?_⟩
    · -- a leading dot changes nothing
      have same : p.components.foldl cancel [] = cs.foldl cancel [] := by
        rcases h with h | h
        · rw [h]
        · rw [h]
          rfl
      rw [location, same, located, reverse_stack, List.reverse_nil, List.nil_append]
    · have same : p.components.foldl push [] = cs.foldl push [] := by
        rcases h with h | h
        · rw [h]
        · rw [h]
          rfl
      rw [normalComponents, same, normal, reverse_stack, List.reverse_nil, List.nil_append]

theorem exists_of_absolute {p : Path} (absolute : p.isAbsolute = true) :
    ∃ names ups, (∀ n ∈ names, (Component.name n).Tidy) ∧
      p.normalComponents = .root :: climb (ups % 2) names := by
  obtain ⟨cs, tidy, ⟨-, h⟩ | ⟨relative, -⟩⟩ := components_cases p
  · obtain ⟨names, ups, tidyNames, -, normal⟩ := (Stacked.start [.root]).run (.inr rfl) tidy
    refine ⟨names.reverse, ups, by simpa using tidyNames, ?_⟩
    rw [normalComponents, h, List.foldl_cons]
    exact (congrArg List.reverse normal).trans (reverse_stack names (ups % 2) [.root])
  · rw [relative] at absolute
    cases absolute

theorem tidy_of_mem_climb {names : List String} (tidy : ∀ n ∈ names, (Component.name n).Tidy)
    (ups : Nat) : ∀ c ∈ climb ups names, c.Tidy := by
  intro c hc
  rcases List.mem_append.1 hc with hc | hc
  · rw [List.eq_of_mem_replicate hc]
    trivial
  · obtain ⟨n, hn, rfl⟩ := List.mem_map.1 hc
    exact tidy n hn

/-- **The text of a normal form has its components.** -/
theorem components_normalize (p : Path) : p.normalize.components = p.normalComponents := by
  unfold normalize
  cases absolute : p.isAbsolute with
  | false =>
    obtain ⟨names, ups, tidy, -, normal⟩ := exists_of_relative absolute
    rw [normal]
    exact components_ofComponents (tidy_of_mem_climb tidy _)
  | true =>
    obtain ⟨names, ups, tidy, normal⟩ := exists_of_absolute absolute
    rw [normal]
    exact components_ofComponents_root (tidy_of_mem_climb tidy _)

theorem normalize_eq_iff {p q : Path} :
    p.normalize = q.normalize ↔ p.normalComponents = q.normalComponents := by
  constructor
  · intro h
    rw [← components_normalize, h, components_normalize]
  · intro h
    rw [normalize, h, normalize]

end Path

end DesignTokens
