import DesignTokens.Proofs.Css.Grammar
import DesignTokens.Proofs.Css.Interpolated
import DesignTokens.Proofs.Css.Styles

/-!
# Texts that keep to themselves

Nothing is escaped when names and texts are put into a stylesheet. So it is read as it was meant if each of
them, with uses in the place of its references, closes what it opens and ends nothing around it.

* `Contained`: such a text; **`contained_of_composed`**: what is put together from such texts;
* `PlainPath`, `isPropertyName_customProperty`: paths whose custom properties are names;
  `contained_reference`: a reference to one of these;
* `PlainString`; **`contained_of_plainString`**: a string without marks and without ends of lines, as it is
  and as a family name;
* `attributeOf?`, `Addressable`: an attribute and a value that may stand in a selector;
  **`isPrelude_selector`**, `isPrelude_query`.
-/

namespace DesignTokens

theorem isMild_valueStops : ∀ c ∈ valueStops, isMild c = false := List.all_iff_forall_prop.1 (by decide)

theorem isMild_preludeStops : ∀ c ∈ preludeStops, isMild c = false :=
  List.all_iff_forall_prop.1 (by decide)

/-! ## Contained texts -/

/-- Every reference that begins in the text ends in it, and with uses in their place, the text leaves nothing
open and ends no value. -/
structure Contained (text : String) : Prop where
  clear : Clear text
  neutral : Neutral valueStops (Name.renderReferences text)

namespace Contained

theorem of_braceFree {text : String} (free : BraceFree text) (h : Neutral valueStops text) :
    Contained text :=
  ⟨free.clear, (renderReferences_of_braceFree free).symm ▸ h⟩

theorem append {a b : String} (ha : Contained a) (hb : Contained b) : Contained (a ++ b) := by
  refine ⟨ha.clear.append hb.clear, ?_⟩
  rw [ha.clear.renderReferences_append]
  exact ha.neutral.append hb.neutral

theorem of_isMild {text : String} (h : ∀ c ∈ text.toList, isMild c = true) : Contained text :=
  .of_braceFree (fun mem => absurd (h _ mem) (by decide)) (neutral_of_isMild isMild_valueStops h)

end Contained

/-- **What is put together** from contained texts is contained. -/
theorem contained_of_composed {o : Operand} {text : String} (composed : Composed o text)
    (h : ∀ s, o.Brings s → s.toList <:+: text.toList → Contained s) : Contained text := by
  induction composed with
  | inert inert => exact .of_braceFree inert.braceFree (inert.neutral isMild_valueStops)
  | slash => exact .of_braceFree (by decide) (by decide)
  | brought brings => exact h _ brings (List.infix_refl _)
  | @append a b _ _ iha ihb =>
    have left : a.toList <:+: (a ++ b).toList := ⟨[], b.toList, by simp⟩
    have right : b.toList <:+: (a ++ b).toList := ⟨a.toList, [], by simp⟩
    exact (iha fun s hs part => h s hs (part.trans left)).append
      (ihb fun s hs part => h s hs (part.trans right))
  | @call opening inside closing opens _ closes ih =>
    have part : inside.toList <:+: (opening ++ inside ++ closing).toList :=
      ⟨opening.toList, closing.toList, by simp⟩
    have inner := ih fun s hs within => h s hs (within.trans part)
    have front := opens.braceFree.clear.append inner.clear
    refine ⟨front.append closes.braceFree.clear, ?_⟩
    rw [front.renderReferences_append, opens.braceFree.clear.renderReferences_append,
      renderReferences_of_braceFree opens.braceFree, renderReferences_of_braceFree closes.braceFree]
    exact .call isMild_valueStops (by decide) opens inner.neutral closes

/-! ## Names -/

/-- The path has characters of names, dots and blanks only. -/
def PlainPath (path : String) : Prop :=
  path.toList.all (fun c => isNameChar c || c = '.' || c = ' ') = true

instance (path : String) : Decidable (PlainPath path) := inferInstanceAs (Decidable (_ = true))

theorem PlainPath.append {path property : String} (h : PlainPath path) (hp : PlainPath property) :
    PlainPath (path ++ "." ++ property) := by
  unfold PlainPath at h hp ⊢
  rw [String.toList_append, String.toList_append, List.all_append, List.all_append, h, hp]
  rfl

theorem isMild_of_isNameChar {c : Char} (h : isNameChar c = true) : isMild c = true := by
  have others : ∀ c ∈ marks, isNameChar c = false := List.all_iff_forall_prop.1 (by decide)
  refine decide_eq_true fun mem => ?_
  rw [others c mem] at h
  cases h

theorem isQuotable_of_isNameChar {c : Char} (h : isNameChar c = true) : isQuotable c = true := by
  have others : ∀ c ∈ ['"', '\\', '\n', '\r', '\x0c'], isNameChar c = false :=
    List.all_iff_forall_prop.1 (by decide)
  have distinct : c ∉ ['"', '\\', '\n', '\r', '\x0c'] := fun mem => by
    rw [others c mem] at h
    cases h
  simpa [isQuotable, isLineEnd, and_assoc] using distinct

theorem isNameChar_of_isLetterBeyond {c : Char} (h : Name.IsLetterBeyond c) : isNameChar c = true := by
  unfold isNameChar
  rcases h with ⟨low, high⟩ | beyond
  · have letter : c.isLower = true :=
      Bool.and_eq_true_iff.2 ⟨decide_eq_true (UInt32.le_iff_toNat_le.2 low),
        decide_eq_true (UInt32.le_iff_toNat_le.2 high)⟩
    have word : c.isAlphanum = true := by
      show (c.isUpper || c.isLower || c.isDigit) = true
      rw [letter, Bool.or_true, Bool.true_or]
    rw [word, Bool.true_or, Bool.true_or, Bool.true_or]
  · simp [beyond]

theorem isNameChar_of_mem_customProperty {path : String} (h : PlainPath path) {c : Char}
    (hc : c ∈ (Name.customProperty path).toList) : isNameChar c = true := by
  rcases Name.mem_customProperty hc with rfl | beyond | ⟨inside, letter, dot⟩
  · decide
  · exact isNameChar_of_isLetterBeyond beyond
  · have named := List.all_eq_true.1 h c inside
    simp only [Bool.or_eq_true, decide_eq_true_eq, dot, or_false] at named
    refine named.resolve_right ?_
    rintro rfl
    cases letter

/-- **The custom property of a plain path** is a name. -/
theorem isPropertyName_customProperty {path : String} (h : PlainPath path) :
    isPropertyName (Name.customProperty path).toList = true := by
  unfold isPropertyName
  rw [Bool.and_eq_true, List.all_eq_true]
  refine ⟨?_, fun c hc => isNameChar_of_mem_customProperty h hc⟩
  simp [Name.customProperty]

theorem plainPath_property : ∀ kp ∈ typographyProperties, PlainPath kp.2 := by decide

theorem neutral_use {path : String} (h : PlainPath path) :
    Neutral valueStops (Name.use (Name.customProperty path)) :=
  .call isMild_valueStops (by decide) (⟨"var", "", by decide⟩ : OpensCall "var(")
    (neutral_of_isMild isMild_valueStops fun _ hc =>
      isMild_of_isNameChar (isNameChar_of_mem_customProperty h hc)) closesCall

theorem contained_reference {r : Reference} (valid : Reference.isPath r.path.toList = true)
    (plain : PlainPath r.path) : Contained r.text :=
  ⟨clear_reference valid, (renderReferences_reference valid).symm ▸ neutral_use plain⟩

/-! ## Strings -/

/-- The string has no mark and no end of a line, or is a reference to a plain path. -/
def PlainString (s : String) : Prop :=
  (∀ c ∈ s.toList, isMild c = true ∧ isLineEnd c = false) ∨
    ∃ r, Reference.parse? s = some r ∧ PlainPath r.path

theorem PlainString.plainPath {s : String} (h : PlainString s) {r : Reference}
    (hr : Reference.parse? s = some r) : PlainPath r.path := by
  rcases h with mild | ⟨r', hr', plain⟩
  · obtain ⟨rfl, -⟩ := parse?_eq_some_iff.1 hr
    exact absurd (mild '{' (by simp [toList_text])).1 (by decide)
  · cases hr.symm.trans hr'
    exact plain

theorem contained_quoteFamily {s : String}
    (h : ∀ c ∈ s.toList, isMild c = true ∧ isLineEnd c = false) : Contained (quoteFamily s) := by
  have mild : ∀ c ∈ (Text.trim s).toList, isMild c = true := fun c hc => (h c (mem_of_mem_trim hc)).1
  have free : BraceFree (quoteFamily s) :=
    braceFree_quoteFamily fun mem => absurd (h _ mem).1 (by decide)
  refine .of_braceFree free ?_
  unfold quoteFamily
  simp only
  split_ifs
  · exact neutral_of_isMild isMild_valueStops mild
  · exact neutral_of_isMild isMild_valueStops mild
  · refine neutral_quoted (by decide) (pass_escapeQuotes (fun c hc => ⟨?_, ?_⟩) [])
    · rintro rfl
      exact absurd (mild _ hc) (by decide)
    · exact (h c (mem_of_mem_trim hc)).2
  · exact neutral_of_isMild isMild_valueStops mild

theorem contained_quoteFamily_reference {r : Reference}
    (valid : Reference.isPath r.path.toList = true) (plain : PlainPath r.path) :
    Contained (quoteFamily r.text) := by
  have path : '"' ∉ r.path.toList := fun mem =>
    absurd (List.all_eq_true.1 plain _ mem) (by decide)
  have text : '"' ∉ r.text.toList := by simp [toList_text, path]
  have quotable : ∀ c ∈ (Name.use (Name.customProperty r.path)).toList, isQuotable c = true := by
    have around : ∀ c ∈ "var(".toList ++ ")".toList, isQuotable c = true :=
      List.all_iff_forall_prop.1 (by decide)
    intro c hc
    simp only [Name.use, String.toList_append, List.mem_append] at hc around
    rcases hc with (hc | hc) | hc
    · exact around c (.inl hc)
    · exact isQuotable_of_isNameChar (isNameChar_of_mem_customProperty plain hc)
    · exact around c (.inr hc)
  have mark : BraceFree "\"" := by decide
  have front := mark.clear.append (clear_reference valid)
  have quoted : "\"" ++ Name.use (Name.customProperty r.path) ++ "\"" =
      String.ofList ('"' :: (Name.use (Name.customProperty r.path)).toList ++ ['"']) :=
    String.toList_injective (by simp)
  rw [quoteFamily_reference text]
  refine ⟨front.append mark.clear, ?_⟩
  rw [front.renderReferences_append, mark.clear.renderReferences_append,
    renderReferences_of_braceFree mark, renderReferences_reference valid, quoted]
  exact neutral_quoted (by decide) (pass_quoted quotable [])

/-- **Plain strings** keep to themselves, as they are and as family names. -/
theorem contained_of_plainString {s : String} (h : PlainString s) :
    Contained s ∧ Contained (quoteFamily s) := by
  rcases h with mild | ⟨r, hr, plain⟩
  · exact ⟨.of_isMild fun c hc => (mild c hc).1, contained_quoteFamily mild⟩
  · obtain ⟨rfl, valid⟩ := parse?_eq_some_iff.1 hr
    exact ⟨contained_reference valid plain, contained_quoteFamily_reference valid plain⟩

/-! ## Selectors and queries -/

/-- The attribute by which the elements of an overlay are chosen, and its value. -/
def attributeOf? (modifiers : List Modifier) (themeAttribute : String) : Context → Option (String × String)
  | .base => none
  | .variant (some modifier) name =>
    some ((match modifiers.find? (·.name = modifier) with
      | some m => m.dataAttribute
      | none => Modifier.attributeOf modifier), name)
  | .variant none name => some (themeAttribute, name)

theorem selector_eq (modifiers : List Modifier) (themeAttribute : String) (c : Context) :
    selector modifiers themeAttribute c =
      ((attributeOf? modifiers themeAttribute c).map fun p => attributeSelector p.1 p.2).getD ":root" := by
  cases c with
  | base => rfl
  | variant modifier name => cases modifier <;> rfl

/-- The attribute has no mark, and its value may stand between quotation marks. -/
def Addressable (modifiers : List Modifier) (themeAttribute : String) (c : Context) : Prop :=
  ∀ p ∈ attributeOf? modifiers themeAttribute c,
    (∀ ch ∈ p.1.toList, isMild ch = true) ∧ ∀ ch ∈ p.2.toList, isQuotable ch = true

theorem isPrelude_attributeSelector {key value : String}
    (mild : ∀ ch ∈ key.toList, isMild ch = true)
    (quotable : ∀ ch ∈ value.toList, isQuotable ch = true) :
    isPrelude false (attributeSelector key value).toList = true := by
  have text : (attributeSelector key value).toList =
      '[' :: (key.toList ++ '=' :: '"' :: (value.toList ++ ['"', ']'])) := by
    simp [attributeSelector]
  have passed : pass preludeStops .start (attributeSelector key value).toList = some .start := by
    rw [text, pass_cons, if_neg (by decide)]
    show pass preludeStops ⟨[']'], .text⟩ _ = _
    rw [pass_append, pass_of_isMild isMild_preludeStops mild, Option.bind_some]
    show pass preludeStops ⟨[']'], .quoted '"'⟩ _ = _
    rw [pass_append, pass_quoted quotable, Option.bind_some]
    rfl
  unfold isPrelude
  rw [Bool.and_eq_true]
  refine ⟨isWhole_iff.2 ⟨_, passed, rfl⟩, ?_⟩
  rw [text]
  rfl

/-- **The selector of a context** whose attribute and name may stand in it. -/
theorem isPrelude_selector {modifiers : List Modifier} {themeAttribute : String} {c : Context}
    (h : Addressable modifiers themeAttribute c) :
    isPrelude false (selector modifiers themeAttribute c).toList = true := by
  rw [selector_eq]
  cases same : attributeOf? modifiers themeAttribute c with
  | none =>
    show isPrelude false ":root".toList = true
    decide
  | some p => exact isPrelude_attributeSelector (h p same).1 (h p same).2

theorem isPrelude_query {space query : String} (h : featureQuery? space = some query) :
    isPrelude true query.toList = true := by
  unfold featureQuery? at h
  split at h
  · cases h
    decide
  · split at h
    · cases h
      decide
    · cases h

end DesignTokens
