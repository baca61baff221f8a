import DesignTokens.Files.Basic
import DesignTokens.Proofs.Files.Paths

/-!
# Normal forms of paths

The components of a normal form are an optional root, at most one `..` and names. Put on a stack one by
one they stay as they are, so a normal form is its own one, and files in memory are the same under both.

* `Path.IsNormal`, `isNormal_components`: what the components of a normal form are;
* `foldl_push_climb`, `IsNormal.foldl_push`: such components put on a stack;
* **`normalize_normalize`**: the normal form of a normal form;
* `MemoryFiles.read_cases`: what is read is found under the normal form, an error names the path itself;
* **`normalize_spec`**: normal forms and what is read under them.
-/

namespace DesignTokens

namespace Path

/-- Components as they are in a normal form: a root or none, at most one `..`, and names. -/
def IsNormal (cs : List Component) : Prop :=
  ∃ front ups names, (front = [] ∨ front = [.root]) ∧ ups < 2 ∧
    (∀ n ∈ names, (Component.name n).Tidy) ∧ cs = front ++ climb ups names

theorem isNormal_normalComponents (p : Path) : IsNormal p.normalComponents := by
  have few (ups : Nat) : ups % 2 < 2 := Nat.mod_lt _ Nat.two_pos
  cases absolute : p.isAbsolute with
  | false =>
    obtain ⟨names, ups, tidy, -, normal⟩ := exists_of_relative absolute
    exact ⟨[], ups % 2, names, .inl rfl, few ups, tidy, normal⟩
  | true =>
    obtain ⟨names, ups, tidy, normal⟩ := exists_of_absolute absolute
    exact ⟨[.root], ups % 2, names, .inr rfl, few ups, tidy, normal⟩

theorem isNormal_components (p : Path) : IsNormal p.normalize.components :=
  components_normalize p ▸ isNormal_normalComponents p

/-! ## Putting a normal form on a stack -/

theorem foldl_push_names (names : List String) (done : List Component) :
    (names.map Component.name).foldl push done = (names.map Component.name).reverse ++ done := by
  induction names generalizing done with
  | nil => rfl
  | cons n names ih =>
    have pushed : push done (.name n) = .name n :: done := rfl
    rw [List.map_cons, List.foldl_cons, pushed, ih]
    simp

theorem foldl_push_climb {bottom : List Component} (hb : bottom = [] ∨ bottom = [.root]) {ups : Nat}
    (few : ups < 2) (names : List String) :
    (climb ups names).foldl push bottom = (climb ups names).reverse ++ bottom := by
  have stays : (List.replicate ups Component.up).foldl push bottom =
      List.replicate ups .up ++ bottom := by
    rcases (by omega : ups = 0 ∨ ups = 1) with rfl | rfl
    · rfl
    · rcases hb with rfl | rfl <;> rfl
  rw [climb, List.foldl_append, stays, foldl_push_names]
  simp

theorem IsNormal.foldl_push {cs : List Component} (h : IsNormal cs) : cs.foldl push [] = cs.reverse := by
  obtain ⟨front, ups, names, hf, few, -, rfl⟩ := h
  have root : front.foldl push [] = front := by
    rcases hf with rfl | rfl <;> rfl
  have same : front.reverse = front := by
    rcases hf with rfl | rfl <;> rfl
  rw [List.foldl_append, root, foldl_push_climb hf few, List.reverse_append, same]

/-- **The components of a normal form** are left as they are. -/
theorem normalComponents_normalize (p : Path) : p.normalize.normalComponents = p.normalComponents := by
  rw [normalComponents, (isNormal_components p).foldl_push, List.reverse_reverse, components_normalize]

/-- **The normal form of a normal form.** -/
theorem normalize_normalize (p : Path) : p.normalize.normalize = p.normalize :=
  normalize_eq_iff.2 (normalComponents_normalize p)

/-! ## What a normal form has not -/

theorem IsNormal.current_notMem {cs : List Component} (h : IsNormal cs) : .current ∉ cs := by
  obtain ⟨front, ups, names, hf, -, tidy, rfl⟩ := h
  intro mem
  rcases List.mem_append.1 mem with mem | mem
  · rcases hf with rfl | rfl <;> simp at mem
  · exact tidy_of_mem_climb tidy ups _ mem

theorem IsNormal.pairwise {cs : List Component} (h : IsNormal cs) :
    cs.Pairwise fun a b => (∃ s, a = .name s) → b ≠ .up := by
  obtain ⟨front, ups, names, hf, -, -, rfl⟩ := h
  have nameless : ∀ a ∈ front ++ List.replicate ups .up, ¬ ∃ s, a = Component.name s := by
    rintro a mem ⟨s, rfl⟩
    rcases List.mem_append.1 mem with mem | mem
    · rcases hf with rfl | rfl <;> simp at mem
    · cases List.eq_of_mem_replicate mem
  have names' : ∀ b ∈ names.map Component.name, b ≠ .up := by
    rintro b mem rfl
    obtain ⟨n, -, same⟩ := List.mem_map.1 mem
    cases same
  rw [climb, ← List.append_assoc, List.pairwise_append]
  refine ⟨?_, ?_, fun a _ b mem _ => names' b mem⟩
  · exact List.pairwise_of_forall_mem_list fun a mem b _ named => absurd named (nameless a mem)
  · exact List.pairwise_of_forall_mem_list fun a _ b mem _ => names' b mem

end Path

namespace MemoryFiles

/-! ## Reading -/

theorem read_cases (m : MemoryFiles) (p : Path) :
    (∃ text, m.files.get? p.normalize = some text ∧ m.read p = .ok text) ∨
      (m.files.get? p.normalize = none ∧ m.read p = .error (.notKept p)) := by
  unfold read
  cases found : m.files.get? p.normalize with
  | some text => exact .inl ⟨text, rfl, rfl⟩
  | none => exact .inr ⟨rfl, rfl⟩

end MemoryFiles

/-- **Normal forms.** A normal form is its own one; it has no `.`, and no `..` behind a name. A path and
its normal form read the same file, or both find none: each error names the path that was asked for. -/
theorem normalize_spec (p : Path) :
    p.normalize.normalize = p.normalize ∧ .current ∉ p.normalize.components ∧
    (p.normalize.components.Pairwise fun a b => (∃ s, a = .name s) → b ≠ .up) ∧
    ∀ m : MemoryFiles, (∃ text, m.read p = .ok text ∧ m.read p.normalize = .ok text) ∨
      (m.read p = .error (.notKept p) ∧ m.read p.normalize = .error (.notKept p.normalize)) := by
  have normal := Path.isNormal_components p
  refine ⟨Path.normalize_normalize p, normal.current_notMem, normal.pairwise, fun m => ?_⟩
  have again := m.read_cases p.normalize
  rw [Path.normalize_normalize] at again
  rcases m.read_cases p with ⟨text, found, read⟩ | ⟨missing, read⟩
  · rcases again with ⟨text', found', read'⟩ | ⟨missing', -⟩
    · cases found.symm.trans found'
      exact .inl ⟨text, read, read'⟩
    · cases found.symm.trans missing'
  · rcases again with ⟨text', found', -⟩ | ⟨-, read'⟩
    · cases missing.symm.trans found'
    · exact .inr ⟨read, read'⟩

/-- A path that leads nowhere is named as it was written, and its normal form as that is: the two errors
are not the same. -/
theorem missing_as_written :
    MemoryFiles.empty.read (⟨"./a"⟩ : Path).normalize ≠ MemoryFiles.empty.read ⟨"./a"⟩ ∧
    (MemoryFiles.empty.read ⟨"./a"⟩).mapError ReadError.message = .error "file not found: ./a" ∧
    (MemoryFiles.empty.read (⟨"./a"⟩ : Path).normalize).mapError ReadError.message =
      .error "file not found: a" := by
  have missing (p : Path) : MemoryFiles.empty.read p = .error (.notKept p) := rfl
  have normal : (⟨"./a"⟩ : Path).normalize = ⟨"a"⟩ := by decide
  rw [normal, missing, missing]
  exact ⟨by simp, congrArg Except.error (by decide), congrArg Except.error (by decide)⟩

end DesignTokens
