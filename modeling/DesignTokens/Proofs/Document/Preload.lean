import DesignTokens.Load
import DesignTokens.Proofs.Document.Listed
import DesignTokens.Proofs.Json.Reads

/-!
# Reading all files beforehand

The files that a document refers to can be read at once before it is expanded. All files that an
expansion can ask for are among them, up to the spelling of their paths, and one that cannot be read is
missed only where it is asked for.

* `keep`, `get?_foldl_keep`, `toOption_read_preload`: what is kept of a disk;
* `gather`, `loadConcurrently`: readings that end in any order; `gather_eq_preload`: the order does not
  matter;
* `LoadResult.SameUpToCause`: equal up to why a file cannot be read;
* **`loadConcurrently_spec`**: the same result as with files read one by one.
-/

namespace DesignTokens

/-! ## Kept files -/

theorem Path.normalize_eq {p q : Path} (h : p.components = q.components) :
    p.normalize = q.normalize := by
  unfold normalize normalComponents
  rw [h]

/-- A file kept, if it can be read. -/
def keep (fs : FileSystem) (m : MemoryFiles) (file : Path) : MemoryFiles :=
  match fs file with
  | .ok text => m.add file text
  | .error _ => m

/-- A disk gives the same answer for all spellings of a path. -/
def FileSystem.Coherent (fs : FileSystem) : Prop := ∀ p q : Path, p.normalize = q.normalize → fs p = fs q

section Keep

variable {fs : FileSystem} (coherent : fs.Coherent)

include coherent

theorem get?_keep (m : MemoryFiles) (file path : Path) :
    (keep fs m file).files.get? path.normalize =
      if file.normalize = path.normalize then (fs path).toOption <|> m.files.get? path.normalize
      else m.files.get? path.normalize := by
  unfold keep
  split
  · rename_i text read
    by_cases same : file.normalize = path.normalize
    · rw [if_pos same, MemoryFiles.add, same, Table.get?_insert_self, ← coherent _ _ same, read]
      rfl
    · rw [if_neg same, MemoryFiles.add, Table.get?_insert_of_ne (Ne.symm same)]
  · rename_i cause missing
    by_cases same : file.normalize = path.normalize
    · rw [if_pos same, ← coherent _ _ same, missing]
      rfl
    · rw [if_neg same]

theorem get?_foldl_keep (files : List Path) (m : MemoryFiles) (path : Path) :
    (files.foldl (keep fs) m).files.get? path.normalize =
      if path.normalize ∈ files.map Path.normalize then
        (fs path).toOption <|> m.files.get? path.normalize
      else m.files.get? path.normalize := by
  induction files generalizing m with
  | nil => simp
  | cons file rest ih =>
    rw [List.foldl_cons, ih, get?_keep coherent]
    by_cases same : file.normalize = path.normalize
    · have listed : path.normalize ∈ (file :: rest).map Path.normalize :=
        List.mem_cons.2 (.inl same.symm)
      rw [if_pos same, if_pos listed]
      cases (fs path).toOption <;> simp
    · rw [if_neg same]
      simp only [List.map_cons, List.mem_cons, Ne.symm same, false_or]

/-- **What is kept of a disk**: at a listed path, in any spelling, the text of the disk. -/
theorem toOption_read_preload {files : List Path} {path f : Path} (hf : f ∈ files)
    (same : f.components = path.components) :
    ((preload fs files).read path).toOption = (fs path).toOption := by
  have listed : path.normalize ∈ files.map Path.normalize :=
    List.mem_map.2 ⟨f, hf, Path.normalize_eq same⟩
  have get : (preload fs files).files.get? path.normalize = (fs path).toOption := by
    show (files.foldl (keep fs) .empty).files.get? _ = _
    rw [get?_foldl_keep coherent, if_pos listed]
    cases (fs path).toOption <;> rfl
  unfold MemoryFiles.read
  rw [get]
  cases fs path <;> rfl

end Keep

/-! ## Readings that run at once -/

/-- The files kept when readings run at once: their answers are looked at in the order of the files. -/
def gather (answers : Table Path (Except ReadError String)) (files : List Path) : MemoryFiles :=
  files.foldl (fun m file => match answers.get? file with
    | some (.ok text) => m.add file text
    | _ => m) .empty

/-- The answers of a disk, in the order in which the readings end. -/
def answers (fs : FileSystem) (completed : List Path) : Table Path (Except ReadError String) :=
  ⟨completed.map fun file => (file, fs file)⟩

/-- The trees and modifiers of the document at a path, its files read at once; `completed` brings them
into the order in which their readings end. -/
def loadConcurrently (fs : FileSystem) (completed : List Path → List Path) (file : Path)
    (selections : Table String String) : LoadResult :=
  match readDocument fs file with
  | .error e => .failed [e]
  | .ok d =>
    let files := d.externalFiles file
    Setting.expand ⟨d, file, (gather (answers fs (completed files)) files).read, selections⟩

theorem get?_answers {fs : FileSystem} {completed : List Path} {file : Path} (h : file ∈ completed) :
    (answers fs completed).get? file = some (fs file) := by
  unfold answers Table.get?
  induction completed with
  | nil => cases h
  | cons f rest ih =>
    rw [List.map_cons, Table.find?]
    by_cases same : f = file
    · rw [if_pos same, same]
    · rw [if_neg same]
      exact ih ((List.mem_cons.1 h).resolve_left (Ne.symm same))

/-- **The order in which readings end does not matter.** -/
theorem gather_eq_preload (fs : FileSystem) {completed files : List Path} (perm : completed.Perm files) :
    gather (answers fs completed) files = preload fs files := by
  unfold gather preload
  refine List.foldl_ext _ _ _ fun m file hf => ?_
  rw [get?_answers (perm.mem_iff.2 hf)]
  cases fs file <;> rfl

theorem loadConcurrently_eq_loadPreloaded (fs : FileSystem) {completed : List Path → List Path}
    (perm : ∀ files, (completed files).Perm files) (file : Path) (selections : Table String String) :
    loadConcurrently fs completed file selections = loadPreloaded fs file selections := by
  unfold loadConcurrently loadPreloaded
  cases readDocument fs file with
  | error e => rfl
  | ok d =>
    dsimp only
    rw [gather_eq_preload fs (perm _)]

/-! ## The same result -/

/-- The error without the reason why a file cannot be read. -/
def LoadError.withoutCause : LoadError → LoadError
  | .fileRead file _ => .fileRead file (.notKept file)
  | e => e

/-- Equal up to why a file cannot be read. -/
def LoadResult.SameUpToCause (r r' : LoadResult) : Prop :=
  r.trees = r'.trees ∧ r.modifiers = r'.modifiers ∧
    r.errors.map LoadError.withoutCause = r'.errors.map LoadError.withoutCause

namespace Setting

variable {s : Setting} {fs : FileSystem}

theorem Twin.withoutCause_eq {e e' : LoadError} (h : s.Twin fs e e') :
    e'.withoutCause = e.withoutCause := by
  cases h <;> rfl

theorem sameUpToCause_onDisk (same : s.SameTexts fs) :
    (s.onDisk fs).expand.SameUpToCause s.expand := by
  obtain ⟨trees, modifiers, errors⟩ := expand_onDisk same
  refine ⟨trees, modifiers, ?_⟩
  have same : List.Forall₂ (· = ·) ((s.onDisk fs).expand.errors.map LoadError.withoutCause)
      (s.expand.errors.map LoadError.withoutCause) := by
    rw [List.forall₂_map_left_iff, List.forall₂_map_right_iff]
    exact List.Forall₂.flip (errors.imp fun _ _ twin => twin.withoutCause_eq)
  rwa [List.forall₂_eq_eq_eq] at same

theorem uses_of_fileRead (same : s.SameTexts fs) {path : Path} {cause : ReadError}
    (h : .fileRead path cause ∈ (s.onDisk fs).expand.errors) :
    s.Uses path ∧ ∃ cause', s.fs path = .error cause' := by
  obtain ⟨-, -, errors⟩ := expand_onDisk same
  have other : List.Forall₂ (fun e' e => s.Twin fs e e') (s.onDisk fs).expand.errors
      s.expand.errors := List.Forall₂.flip errors
  obtain ⟨e, twin⟩ := exists_forall₂_iff.1 ⟨_, other⟩ _ h
  cases twin with
  | same other => exact absurd trivial other
  | unread uses missing _ => exact ⟨uses, _, missing⟩

theorem sameTexts_preload (coherent : s.fs.Coherent) :
    s.SameTexts (preload s.fs (s.document.externalFiles s.file)).read := by
  intro path uses
  obtain ⟨f, hf, same⟩ := uses.listed
  exact toOption_read_preload coherent hf same

end Setting

/-- **Files read at once or one by one come to the same.** On a disk that gives one answer for all
spellings of a path, and in whatever order the readings end, trees, modifiers and errors are the same, up
to why a file cannot be read. All files that an expansion uses are listed; it depends on no others; and a
file that cannot be read is an error only if it is used. -/
theorem loadConcurrently_spec {fs : FileSystem} (coherent : fs.Coherent)
    {completed : List Path → List Path} (perm : ∀ files, (completed files).Perm files) (file : Path)
    (selections : Table String String) :
    (loadConcurrently fs completed file selections).SameUpToCause (loadResolver fs file selections) ∧
    ∀ d, readDocument fs file = .ok d → let s : Setting := ⟨d, file, fs, selections⟩
      (∀ path, s.Uses path → ∃ f ∈ d.externalFiles file, f.components = path.components) ∧
      (∀ fs', s.SameTexts fs' → (s.onDisk fs').expand.SameUpToCause s.expand) ∧
      ∀ path cause, .fileRead path cause ∈ (loadConcurrently fs completed file selections).errors →
        s.Uses path ∧ ∃ cause', fs path = .error cause' := by
  rw [loadConcurrently_eq_loadPreloaded fs perm]
  constructor
  · unfold loadPreloaded loadResolver
    cases readDocument fs file with
    | error e => exact ⟨rfl, rfl, rfl⟩
    | ok d =>
      exact Setting.sameUpToCause_onDisk (s := ⟨d, file, fs, selections⟩)
        (Setting.sameTexts_preload coherent)
  · intro d read s
    refine ⟨fun path uses => uses.listed, fun fs' same => Setting.sameUpToCause_onDisk same, ?_⟩
    intro path cause h
    unfold loadPreloaded at h
    rw [read] at h
    exact Setting.uses_of_fileRead (Setting.sameTexts_preload (s := s) coherent) h

/-! ## A file that is missing -/

/-- A document that refers to a file. -/
def lostText : String :=
  "\x7b\"version\":\"2025.10\",\"resolutionOrder\":[\x7b\"$ref\":\"a.json\"\x7d]\x7d"

/-- The document of this text. -/
def lostDocument : Document where
  version := documentVersion
  name := none
  description := none
  sets := .empty
  modifiers := .empty
  order := [.reference "a.json"]
  schema := none
  extensions := none
  definitions := none

/-- A disk with this document and no other file. -/
def lostDisk : FileSystem := fun path =>
  if path.normalize = ⟨"t.json"⟩ then .ok lostText else .error .noSuchFile

open Json.Raw in
theorem read_lostText : Json.Raw.read lostText = some (.obj [
    (some "version", .str (some "2025.10")),
    (some "resolutionOrder", .arr [.obj [(some "$ref", .str (some "a.json"))]])]) := by
  have chars : lostText.toList = '\x7b' :: '"' :: ("version".toList ++ '"' :: ':' :: '"' ::
      ("2025.10".toList ++ '"' :: ',' :: '"' :: ("resolutionOrder".toList ++ '"' :: ':' :: '[' ::
        '\x7b' :: '"' :: ("$ref".toList ++ '"' :: ':' :: '"' :: ("a.json".toList ++
          ['"', '\x7d', ']', '\x7d']))))) := by decide
  have string := fun (name : String) (plain : name.toList.all (IsPlain ·) = true) =>
    readsString_of_plain fun c hc => of_decide_eq_true (List.all_eq_true.1 plain c hc)
  refine read_of_reads ?_ (rfl : skip [] = [])
  rw [chars]
  exact .obj nofun (.next rfl (string "version" (by decide) _) rfl
    (.str (string "2025.10" (by decide) _)) rfl
    (.last rfl (string "resolutionOrder" (by decide) _) rfl (.arr nofun (.last
      (.obj nofun (.last rfl (string "$ref" (by decide) _) rfl
        (.str (string "a.json" (by decide) _)) rfl)) rfl)) rfl))

theorem readDocument_lostDisk : readDocument lostDisk ⟨"t.json"⟩ = .ok lostDocument := by
  have read : lostDisk ⟨"t.json"⟩ = .ok lostText := by decide
  have parsed : Document.parse? lostText = some lostDocument := by
    unfold Document.parse? Json.Decoder.parse?
    rw [read_lostText]
    rfl
  unfold readDocument
  rw [read]
  dsimp only
  rw [parsed]

/-- The document on this disk. -/
def lostSetting : Setting := ⟨lostDocument, ⟨"t.json"⟩, lostDisk, .empty⟩

/-- The missing file is in use, and it is missed with files read at once as well. -/
theorem loadConcurrently_lostDisk :
    lostDisk.Coherent ∧ (∀ files : List Path, files.reverse.Perm files) ∧
    readDocument lostDisk ⟨"t.json"⟩ = .ok lostDocument ∧
    (loadConcurrently lostDisk List.reverse ⟨"t.json"⟩ .empty).SameUpToCause
      (loadResolver lostDisk ⟨"t.json"⟩ .empty) ∧
    ∃ path cause, .fileRead path cause ∈
        (loadConcurrently lostDisk List.reverse ⟨"t.json"⟩ .empty).errors ∧
      (∃ cause', lostDisk path = .error cause') ∧
      (∃ f ∈ lostDocument.externalFiles ⟨"t.json"⟩, f.components = path.components) ∧
      ∃ fs', lostSetting.SameTexts fs' ∧
        (lostSetting.onDisk fs').expand.SameUpToCause lostSetting.expand := by
  have coherent : lostDisk.Coherent := fun p q same => by simp [lostDisk, same]
  have perm : ∀ files : List Path, files.reverse.Perm files := List.reverse_perm
  have read := readDocument_lostDisk
  obtain ⟨alike, used⟩ := loadConcurrently_spec coherent perm ⟨"t.json"⟩ .empty
  obtain ⟨listed, others, missed⟩ := used _ read
  have texts : lostSetting.SameTexts _ := Setting.sameTexts_preload coherent
  have missing : .fileRead ⟨"a.json"⟩ (.notKept ⟨"a.json"⟩) ∈
      (loadConcurrently lostDisk List.reverse ⟨"t.json"⟩ .empty).errors := by
    unfold loadConcurrently
    rw [read]
    exact List.mem_singleton.2 rfl
  obtain ⟨uses, unread⟩ := missed _ _ missing
  exact ⟨coherent, perm, read, alike, _, _, missing, unread, listed _ uses, _, texts, others _ texts⟩

end DesignTokens
