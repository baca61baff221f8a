import DesignTokens.Files.Basic
import DesignTokens.Proofs.Files.Paths
import DesignTokens.Proofs.Tables

/-!
# Files in memory by their locations

Files are kept under the normal forms of their paths, and a relative path reads the last file whose
location is its own up to pairs of `..` in front. Where the last such file is at the very location of the
path, whatever the texts of the files, the path reads the last file there; and only there.

* `Path.dropPairs`, `normalComponents_of_relative`: the normal form of a relative path;
* `Path.At`, `Path.Near`: a relative path at a location, exactly and up to pairs of `..`;
* `MemoryFiles.lastText`: the text of the last file that is wanted;
* `read_eq_lastText`: what files added one after another show;
* **`read_ofList`**: what a relative path reads, and when that is the last file at its location.
-/

namespace DesignTokens

namespace Path

/-! ## Pairs of leading `..` -/

/-- Components without the pairs of `..` in front of them. -/
def dropPairs : List Component → List Component
  | .up :: .up :: rest => dropPairs rest
  | cs => cs

theorem dropPairs_climb (names : List String) : ∀ ups : Nat,
    dropPairs (climb ups names) = climb (ups % 2) names
  | 0 | 1 => by cases names <;> rfl
  | ups + 2 => by
    rw [show (ups + 2) % 2 = ups % 2 by omega, ← dropPairs_climb names ups]
    rfl

/-- **The normal form of a relative path.** -/
theorem normalComponents_of_relative {p : Path} (relative : p.isAbsolute = false) :
    p.normalComponents = dropPairs p.location := by
  obtain ⟨names, ups, -, located, normal⟩ := exists_of_relative relative
  rw [normal, located, dropPairs_climb]

theorem root_notMem_of_relative {p : Path} (relative : p.isAbsolute = false) :
    .root ∉ p.normalComponents := by
  obtain ⟨names, ups, tidy, -, normal⟩ := exists_of_relative relative
  rw [normal]
  exact fun mem => tidy_of_mem_climb tidy _ _ mem

/-- A relative path at the location of another one. -/
def At (q p : Path) : Prop := p.isAbsolute = false ∧ p.location = q.location

/-- A relative path at the location of another one, up to pairs of `..` in front. -/
def Near (q p : Path) : Prop :=
  p.isAbsolute = false ∧ dropPairs p.location = dropPairs q.location

instance (q : Path) : DecidablePred q.At := fun p =>
  inferInstanceAs (Decidable (p.isAbsolute = false ∧ p.location = q.location))

instance (q : Path) : DecidablePred q.Near := fun p =>
  inferInstanceAs (Decidable (p.isAbsolute = false ∧ dropPairs p.location = dropPairs q.location))

theorem At.near {q p : Path} (h : q.At p) : q.Near p := ⟨h.1, by rw [h.2]⟩

theorem normalize_eq_iff_near {q p : Path} (relative : q.isAbsolute = false) :
    p.normalize = q.normalize ↔ q.Near p := by
  rw [normalize_eq_iff]
  cases absolute : p.isAbsolute with
  | false =>
    rw [normalComponents_of_relative absolute, normalComponents_of_relative relative]
    exact ⟨fun same => ⟨absolute, same⟩, fun near => near.2⟩
  | true =>
    obtain ⟨names, ups, -, normal⟩ := exists_of_absolute absolute
    refine ⟨fun same => ?_, fun near => ?_⟩
    · -- only an absolute path has the root in front
      refine absurd ?_ (root_notMem_of_relative relative)
      rw [← same, normal]
      exact List.mem_cons_self
    · exact absurd (near.1.symm.trans absolute) Bool.false_ne_true

end Path

namespace MemoryFiles

/-! ## The last file -/

/-- The text of the last file whose path is wanted. -/
def lastText (files : List (Path × String)) (wanted : Path → Prop) [DecidablePred wanted]
    (q : Path) : Except ReadError String :=
  match (files.filter fun f => wanted f.1).getLast? with
  | some f => .ok f.2
  | none => .error (.notKept q)

theorem get?_add (m : MemoryFiles) (path key : Path) (text : String) :
    (m.add path text).files.get? key =
      if path.normalize = key then some text else m.files.get? key := by
  unfold add
  split
  · rename_i h
    rw [h, Table.get?_insert_self]
  · rename_i h
    exact Table.get?_insert_of_ne (Ne.symm h) _ _

theorem get?_ofList (files : List (Path × String)) (key : Path) :
    (ofList files).files.get? key =
      (files.filter fun f => f.1.normalize = key).getLast?.map Prod.snd := by
  induction files using List.reverseRecOn with
  | nil => rfl
  | append_singleton files f ih =>
    have step : ofList (files ++ [f]) = (ofList files).add f.1 f.2 := List.foldl_append
    rw [step, get?_add, ih, List.filter_append]
    split <;> simp_all

theorem read_eq_lastText {q : Path} (relative : q.isAbsolute = false)
    (files : List (Path × String)) : (ofList files).read q = lastText files q.Near q := by
  have same : (files.filter fun f => f.1.normalize = q.normalize) =
      files.filter fun f => q.Near f.1 :=
    List.filter_congr fun f _ => decide_eq_decide.2 (Path.normalize_eq_iff_near relative)
  unfold read lastText
  rw [get?_ofList, same]
  cases (files.filter fun f => q.Near f.1).getLast? <;> rfl

/-! ## Files at the location -/

theorem lastText_at_of_last {q : Path} {files : List (Path × String)}
    (last : ∀ f, (files.filter fun f => q.Near f.1).getLast? = some f → q.At f.1) :
    lastText files q.Near q = lastText files q.At q := by
  have both : (files.filter fun f => q.At f.1) =
      (files.filter fun f => q.Near f.1).filter fun f => q.At f.1 := by
    rw [List.filter_filter]
    exact List.filter_congr fun f _ => by simpa using Path.At.near
  unfold lastText
  rw [both]
  rcases List.eq_nil_or_concat (files.filter fun f => q.Near f.1) with none | ⟨before, f, h⟩
  · rw [none]
    rfl
  · have here : q.At f.1 := last f (by rw [h]; simp)
    rw [h, List.concat_eq_append, List.filter_append]
    simp [here]

theorem lastText_map (paths : List Path) (text : Path → String) (wanted : Path → Prop)
    [DecidablePred wanted] (q : Path) :
    lastText (paths.map fun r => (r, text r)) wanted q =
      match (paths.filter (wanted ·)).getLast? with
      | some r => .ok (text r)
      | none => .error (.notKept q) := by
  unfold lastText
  have same : ((paths.map fun r => (r, text r)).filter fun f => wanted f.1) =
      (paths.filter (wanted ·)).map fun r => (r, text r) := List.filter_map
  rw [same, List.getLast?_map]
  cases (paths.filter (wanted ·)).getLast? <;> rfl

theorem filter_zip {paths : List Path} {texts : List String} (len : texts.length = paths.length)
    (wanted : Path → Prop) [DecidablePred wanted] :
    ((paths.zip texts).filter fun f => wanted f.1).map Prod.fst = paths.filter (wanted ·) := by
  have fst : (paths.zip texts).map Prod.fst = paths := List.map_fst_zip (by omega)
  conv_rhs => rw [← fst, List.filter_map]
  rfl

/-- **What a relative path reads:** the last file of a relative path at its location, up to pairs of
`..` in front. It reads the last file at its very location, whatever the texts of the files, exactly if the
last file near that location is there. -/
theorem read_ofList {q : Path} (relative : q.isAbsolute = false) :
    (∀ files, (ofList files).read q = lastText files q.Near q) ∧
    ∀ paths : List Path,
      (∀ texts : List String, texts.length = paths.length →
        (ofList (paths.zip texts)).read q = lastText (paths.zip texts) q.At q) ↔
      ∀ p, (paths.filter (q.Near ·)).getLast? = some p → p.location = q.location := by
  refine ⟨read_eq_lastText relative, fun paths => ⟨fun h p last => ?_, fun h texts len => ?_⟩⟩
  · -- texts that tell whether a file is at the location
    by_contra elsewhere
    let text (r : Path) : String := if q.At r then "at" else "near"
    have read := h (paths.map text) (by simp)
    rw [read_eq_lastText relative, ← List.map_prod_left_eq_zip, lastText_map, lastText_map, last]
      at read
    have near : text p = "near" := if_neg fun here => elsewhere here.2
    rcases hat : (paths.filter (q.At ·)).getLast? with - | r
    · rw [hat] at read
      cases read
    · rw [hat] at read
      have mem := List.mem_filter.1 (List.mem_of_getLast? hat)
      have here : text r = "at" := if_pos (by simpa using mem.2)
      rw [Except.ok.injEq, near, here] at read
      exact absurd read (by decide)
  · rw [read_eq_lastText relative]
    refine lastText_at_of_last fun f last => ?_
    have mem := List.mem_of_getLast? last
    have near : q.Near f.1 := by simpa using (List.mem_filter.1 mem).2
    refine ⟨near.1, h f.1 ?_⟩
    rw [← filter_zip len, List.getLast?_map, last]
    rfl

theorem read_ofList_upwards :
    (⟨"../../x"⟩ : Path).isAbsolute = false ∧
      (ofList ([⟨"x"⟩, ⟨"../../x"⟩, ⟨"/x"⟩].zip ["1", "2", "3"])).read ⟨"../../x"⟩ = .ok "2" := by
  have relative : (⟨"../../x"⟩ : Path).isAbsolute = false := by decide
  refine ⟨relative, ?_⟩
  rw [((read_ofList relative).2 [⟨"x"⟩, ⟨"../../x"⟩, ⟨"/x"⟩]).2 (by decide) _ rfl]
  decide

/-- A file is read from a location where there is none. -/
theorem read_ofList_confused :
    (ofList [(⟨"x"⟩, "1")]).read ⟨"../../x"⟩ = .ok "1" ∧
      lastText [(⟨"x"⟩, "1")] (Path.At ⟨"../../x"⟩) ⟨"../../x"⟩ = .error (.notKept ⟨"../../x"⟩) := by
  decide

end MemoryFiles

end DesignTokens
