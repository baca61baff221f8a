import DesignTokens.Css.File
import DesignTokens.Proofs.Resolution.References
import DesignTokens.Proofs.Tables
import DesignTokens.Proofs.Text.Pieces
import Mathlib.Data.List.Forall2
import Mathlib.Logic.Function.Iterate

/-!
# Texts with uses of custom properties

A converted text has references in braces, and what is declared has a use of a custom property in the
place of each. To evaluate a declaration is to replace every use by what is declared for it, as often
as needed.

* `Fragment`, `fragments`, `written`: a text as characters and uses, and as it is declared;
* `CssBody.declarations`: the declarations of a token with their uses;
* `expand`: every use replaced once;
* `BraceFree`, `Clear`: texts without references, and texts whose references end inside;
  `renderReferences_join`: what is declared for clear texts together;
* `Evaluates`: a text that comes to another one; **`Evaluates.append`**, **`Evaluates.join`**,
  **`Evaluates.reference`**;
* `Stuck`: a text with a brace that stays.
-/

namespace DesignTokens

/-- A part of a declared value: a character, or the use of a custom property. -/
inductive Fragment where
  | char (c : Char)
  | use (property : String)
  deriving DecidableEq, Repr

/-- What is declared for a piece of a text. -/
def Fragment.ofPiece : Name.Piece → Fragment
  | .plain c => char c
  | .reference r => use (Name.customProperty r.path)

/-- The text of a fragment. -/
def Fragment.text : Fragment → String
  | char c => String.ofList [c]
  | use property => Name.use property

/-- What is declared for a text. -/
def fragments (text : String) : List Fragment := (Name.pieces text.toList).map Fragment.ofPiece

/-- Fragments as they are written. -/
def written (fs : List Fragment) : String := String.join (fs.map Fragment.text)

theorem written_fragments (text : String) : written (fragments text) = Name.renderReferences text := by
  unfold written fragments Name.renderReferences
  rw [List.map_map]
  congr 1
  refine List.map_congr_left fun p _ => ?_
  cases p <;> rfl

/-- What the token at a path declares outside feature queries, with its uses. -/
def CssBody.declarations (path : String) : CssBody → List (String × List Fragment)
  | .single text => [(Name.customProperty path, fragments text)]
  | .entries parts => parts.map fun (key, text) =>
      (Name.customProperty path ++ "-" ++ Name.kebab key, fragments text)

theorem plainDeclarations_eq (t : CssToken) :
    plainDeclarations t = (t.value.body.declarations t.path).map fun d => (d.1, written d.2) := by
  unfold plainDeclarations CssBody.declarations
  cases t.value.body with
  | single text => simp [written_fragments]
  | entries parts => simp [written_fragments]

/-! ## Pieces -/

theorem pieces_cons_of_ne {c : Char} (h : c ≠ '{') (cs : List Char) :
    Name.pieces (c :: cs) = .plain c :: Name.pieces cs := by
  rw [Name.pieces, if_neg h]

theorem pieces_append_of_notMem {cs : List Char} (h : '{' ∉ cs) (ds : List Char) :
    Name.pieces (cs ++ ds) = cs.map .plain ++ Name.pieces ds := by
  induction cs with
  | nil => rfl
  | cons c cs ih =>
    rw [List.mem_cons, not_or] at h
    rw [List.cons_append, pieces_cons_of_ne (Ne.symm h.1), ih h.2]
    rfl

theorem braced?_append {path : List Char} (h : path.all Reference.isPathChar = true)
    (rest : List Char) : Name.braced? (path ++ '}' :: rest) = some (path, rest) := by
  induction path with
  | nil => simp [Name.braced?]
  | cons c path ih =>
    rw [List.all_cons, Bool.and_eq_true] at h
    have hc : c ≠ '}' := by
      rintro rfl
      exact absurd h.1 (by decide)
    rw [List.cons_append, Name.braced?, if_neg hc, if_pos h.1, ih h.2]
    rfl

theorem pieces_reference {path : List Char} (h : Reference.isPath path = true) (rest : List Char) :
    Name.pieces ('{' :: path ++ '}' :: rest) =
      .reference ⟨String.ofList path⟩ :: Name.pieces rest := by
  have all : path.all Reference.isPathChar = true := (Bool.and_eq_true_iff.1 h).1
  rw [List.cons_append, Name.pieces, if_pos rfl]
  split
  · rename_i inner after hb
    rw [braced?_append all] at hb
    cases hb
    rw [if_pos h]
  · rename_i hb
    rw [braced?_append all] at hb
    cases hb

theorem pieces_brace_of_braced?_eq_none {cs : List Char} (h : Name.braced? cs = none) :
    Name.pieces ('{' :: cs) = .plain '{' :: Name.pieces cs := by
  rw [Name.pieces, if_pos rfl]
  split
  · rename_i hb
    rw [h] at hb
    cases hb
  · rfl

/-! ## Texts without references -/

/-- No reference begins in the text. -/
def BraceFree (text : String) : Prop := '{' ∉ text.toList

instance (text : String) : Decidable (BraceFree text) := inferInstanceAs (Decidable ('{' ∉ text.toList))

namespace BraceFree

theorem append {a b : String} (ha : BraceFree a) (hb : BraceFree b) : BraceFree (a ++ b) := by
  unfold BraceFree
  rw [String.toList_append, List.mem_append]
  exact fun h => h.elim ha hb

theorem join {sep : String} (hs : BraceFree sep) {texts : List String}
    (h : ∀ t ∈ texts, BraceFree t) : BraceFree (Text.join sep texts) :=
  Text.join_induction (by decide) append hs h

end BraceFree

theorem fragments_append_of_braceFree {a : String} (h : BraceFree a) (b : String) :
    fragments (a ++ b) = a.toList.map .char ++ fragments b := by
  unfold fragments
  rw [String.toList_append, pieces_append_of_notMem h, List.map_append, List.map_map]
  rfl

theorem fragments_of_braceFree {a : String} (h : BraceFree a) :
    fragments a = a.toList.map .char := by
  have := fragments_append_of_braceFree h ""
  rw [String.append_empty] at this
  rw [this]
  simp [fragments, Name.pieces]

theorem renderReferences_of_braceFree {a : String} (h : BraceFree a) : Name.renderReferences a = a := by
  have chars : (written (a.toList.map .char)).toList = a.toList := by
    simp [written, Fragment.text, List.flatMap_map]
  rw [← written_fragments, fragments_of_braceFree h]
  exact String.toList_injective chars

/-- Every reference that begins in the text ends in it. -/
def Clear (text : String) : Prop := ∀ more, fragments (text ++ more) = fragments text ++ fragments more

theorem BraceFree.clear {a : String} (h : BraceFree a) : Clear a := fun more => by
  rw [fragments_append_of_braceFree h, fragments_of_braceFree h]

theorem Clear.append {a b : String} (ha : Clear a) (hb : Clear b) : Clear (a ++ b) := fun more => by
  rw [String.append_assoc, ha, hb, ha, List.append_assoc]

theorem fragments_reference_append {r : Reference} (h : Reference.isPath r.path.toList = true)
    (more : String) :
    fragments (r.text ++ more) = .use (Name.customProperty r.path) :: fragments more := by
  unfold fragments
  have := pieces_reference h more.toList
  rw [String.toList_append, toList_text, List.append_assoc, List.singleton_append, this, List.map_cons]
  simp [Fragment.ofPiece]

theorem fragments_reference {r : Reference} (h : Reference.isPath r.path.toList = true) :
    fragments r.text = [.use (Name.customProperty r.path)] := by
  have := fragments_reference_append h ""
  rw [String.append_empty] at this
  rw [this]
  simp [fragments, Name.pieces]

theorem clear_reference {r : Reference} (h : Reference.isPath r.path.toList = true) :
    Clear r.text := fun more => by
  rw [fragments_reference_append h, fragments_reference h]
  rfl

/-! ## Texts as they are declared -/

theorem renderReferences_reference {r : Reference} (h : Reference.isPath r.path.toList = true) :
    Name.renderReferences r.text = Name.use (Name.customProperty r.path) := by
  rw [← written_fragments, fragments_reference h]
  simp [written, Fragment.text]

theorem Clear.renderReferences_append {a : String} (h : Clear a) (b : String) :
    Name.renderReferences (a ++ b) = Name.renderReferences a ++ Name.renderReferences b := by
  rw [← written_fragments, ← written_fragments, ← written_fragments, h b]
  simp [written]

theorem renderReferences_join {sep : String} (hs : BraceFree sep) {texts : List String}
    (h : ∀ t ∈ texts, Clear t) :
    Name.renderReferences (Text.join sep texts) =
      Text.join sep (texts.map Name.renderReferences) := by
  unfold Text.join
  induction texts with
  | nil => exact renderReferences_of_braceFree (by rw [String.intercalate_nil]; decide)
  | cons t rest ih =>
    obtain ⟨clear, others⟩ := List.forall_mem_cons.1 h
    cases rest with
    | nil => rw [List.map_singleton, String.intercalate_singleton, String.intercalate_singleton]
    | cons u rest =>
      rw [String.intercalate_cons_cons, (clear.append hs.clear).renderReferences_append,
        clear.renderReferences_append, renderReferences_of_braceFree hs, ih others]
      simp only [List.map_cons, String.intercalate_cons_cons]

/-! ## Expanding -/

/-- Every use replaced by what is declared for it, if anything is. -/
def expand (decls : List (String × List Fragment)) (fs : List Fragment) : List Fragment :=
  fs.flatMap fun
    | .char c => [.char c]
    | .use property => (Table.find? property decls).getD [.use property]

section Expand

variable (decls : List (String × List Fragment))

theorem iterate_expand_append (k : Nat) (fs gs : List Fragment) :
    (expand decls)^[k] (fs ++ gs) = (expand decls)^[k] fs ++ (expand decls)^[k] gs := by
  induction k generalizing fs gs with
  | zero => rfl
  | succ k ih =>
    rw [Function.iterate_succ_apply, Function.iterate_succ_apply, Function.iterate_succ_apply,
      ← ih]
    congr 1
    exact List.flatMap_append

theorem iterate_expand_chars (k : Nat) (cs : List Char) :
    (expand decls)^[k] (cs.map .char) = cs.map .char := by
  refine Function.iterate_fixed ?_ k
  unfold expand
  rw [List.flatMap_map]
  induction cs with
  | nil => rfl
  | cons c cs ih =>
    rw [List.flatMap_cons, ih]
    rfl

theorem char_mem_iterate_expand {c : Char} {fs : List Fragment} (h : .char c ∈ fs) (k : Nat) :
    .char c ∈ (expand decls)^[k] fs := by
  induction k generalizing fs with
  | zero => exact h
  | succ k ih =>
    rw [Function.iterate_succ_apply]
    exact ih (List.mem_flatMap.2 ⟨.char c, h, List.mem_singleton.2 rfl⟩)

end Expand

/-- A text without references to which another one comes when its uses are replaced. -/
structure Evaluates (decls : List (String × List Fragment)) (text value : String) : Prop where
  clear : Clear text
  braceFree : BraceFree value
  steps : ∃ k, (expand decls)^[k] (fragments text) = fragments value

namespace Evaluates

variable {decls : List (String × List Fragment)} {text value : String}

theorem refl (h : BraceFree text) : Evaluates decls text text := ⟨h.clear, h, 0, rfl⟩

theorem stays (h : BraceFree value) (k : Nat) :
    (expand decls)^[k] (fragments value) = fragments value := by
  rw [fragments_of_braceFree h, iterate_expand_chars]

theorem eventually (h : Evaluates decls text value) :
    ∃ k, ∀ j, (expand decls)^[k + j] (fragments text) = fragments value := by
  obtain ⟨k, hk⟩ := h.steps
  refine ⟨k, fun j => ?_⟩
  rw [Nat.add_comm, Function.iterate_add_apply, hk, stays h.braceFree]

theorem unique (h : Evaluates decls text value) {value' : String}
    (h' : Evaluates decls text value') : value = value' := by
  obtain ⟨k, hk⟩ := h.eventually
  obtain ⟨k', hk'⟩ := h'.eventually
  have same : fragments value = fragments value' := by
    rw [← hk k', Nat.add_comm k k', hk' k]
  rw [fragments_of_braceFree h.braceFree, fragments_of_braceFree h'.braceFree] at same
  exact String.toList_injective (List.map_injective_iff.2 (fun _ _ h => Fragment.char.inj h) same)

theorem append {text' value' : String} (h : Evaluates decls text value)
    (h' : Evaluates decls text' value') : Evaluates decls (text ++ text') (value ++ value') := by
  refine ⟨h.clear.append h'.clear, h.braceFree.append h'.braceFree, ?_⟩
  obtain ⟨k, hk⟩ := h.eventually
  obtain ⟨k', hk'⟩ := h'.eventually
  refine ⟨k + k', ?_⟩
  rw [h.clear, iterate_expand_append, hk k', Nat.add_comm k k', hk' k, h.braceFree.clear]

theorem join {sep : String} (hs : BraceFree sep) {texts values : List String}
    (h : List.Forall₂ (Evaluates decls) texts values) :
    Evaluates decls (Text.join sep texts) (Text.join sep values) := by
  unfold Text.join
  induction h with
  | nil => exact refl (by rw [String.intercalate_nil]; decide)
  | @cons t v ts vs ht rest ih =>
    cases rest with
    | nil =>
      rw [String.intercalate_singleton, String.intercalate_singleton]
      exact ht
    | cons hu rest =>
      rw [String.intercalate_cons_cons, String.intercalate_cons_cons]
      exact (ht.append (refl hs)).append ih

theorem reference {r : Reference} (path : Reference.isPath r.path.toList = true)
    (decl : Table.find? (Name.customProperty r.path) decls = some (fragments text))
    (h : Evaluates decls text value) : Evaluates decls r.text value := by
  obtain ⟨k, hk⟩ := h.steps
  refine ⟨clear_reference path, h.braceFree, k + 1, ?_⟩
  have once : expand decls (fragments r.text) = fragments text := by
    simp [fragments_reference path, expand, decl]
  rw [Function.iterate_succ_apply, once, hk]

end Evaluates

/-! ## Texts with a brace that stays -/

/-- An opening brace in the text belongs to no reference, whatever follows. -/
def Stuck (text : String) : Prop := ∀ more, .char '{' ∈ fragments (text ++ more)

namespace Stuck

variable {a b : String}

theorem append_right (h : Stuck a) (b : String) : Stuck (a ++ b) := fun more => by
  rw [String.append_assoc]
  exact h (b ++ more)

theorem append_left (ha : Clear a) (hb : Stuck b) : Stuck (a ++ b) := fun more => by
  rw [String.append_assoc, ha]
  exact List.mem_append_right _ (hb more)

theorem join {sep : String} (hs : BraceFree sep) {texts : List String}
    (all : ∀ t ∈ texts, Clear t ∨ Stuck t) (some : ∃ t ∈ texts, Stuck t) :
    Stuck (Text.join sep texts) := by
  unfold Text.join
  induction texts with
  | nil => obtain ⟨_, h, -⟩ := some; cases h
  | cons t rest ih =>
    rcases all t (by simp) with clear | stuck
    · obtain ⟨u, hu, stuck⟩ := some
      cases rest with
      | nil =>
        rw [String.intercalate_singleton]
        obtain rfl := List.mem_singleton.1 hu
        exact stuck
      | cons v rest =>
        rw [String.intercalate_cons_cons]
        rcases List.mem_cons.1 hu with rfl | hu
        · exact (stuck.append_right _).append_right _
        · exact append_left (clear.append hs.clear)
            (ih (fun w hw => all w (by simp [hw])) ⟨u, hu, stuck⟩)
    · cases rest with
      | nil =>
        rw [String.intercalate_singleton]
        exact stuck
      | cons v rest =>
        rw [String.intercalate_cons_cons]
        exact (stuck.append_right _).append_right _

theorem iterate_expand_ne (h : Stuck a) (decls : List (String × List Fragment)) (hb : BraceFree b)
    (k : Nat) : (expand decls)^[k] (fragments a) ≠ fragments b := by
  intro same
  have here := char_mem_iterate_expand decls (String.append_empty ▸ h "") k
  rw [same, fragments_of_braceFree hb, List.mem_map] at here
  obtain ⟨c, hc, rfl⟩ : ∃ c ∈ b.toList, c = '{' := by simpa using here
  exact hb hc

end Stuck

end DesignTokens
