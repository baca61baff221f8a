import DesignTokens.Proofs.Document.Cycles
import DesignTokens.Proofs.Text.Pieces

/-!
# Sets and modifiers by their names

A reference to a set or a modifier of the document ends with its name, in which `~0` is written for a
tilde and `~1` for a slash. Reading undoes the second, then the first: once no slash is left to be made, a
tilde that comes out cannot be taken for the beginning of another escape.

* `escapeName`, `setReference`, `modifierReference`: names as they are written in references;
* **`unescapeName_escapeName`**: a name is read as it was before it was written;
* **`addressed_by_name`**: every name is addressed by a reference of its own, which stands for what a
  document calls by that name.
-/

namespace DesignTokens

/-! ## Replacing two neighbours -/

namespace Text

variable {a b c x y : Char} {cs : List Char}

theorem replacePair_pair : replacePair a b c (a :: b :: cs) = c :: replacePair a b c cs := by
  simp [replacePair]

theorem replacePair_cons_of_ne (h : x ≠ a) :
    replacePair a b c (x :: cs) = x :: replacePair a b c cs := by
  cases cs <;> simp [replacePair, h]

theorem replacePair_cons_cons_of_ne (h : y ≠ b) :
    replacePair a b c (x :: y :: cs) = x :: replacePair a b c (y :: cs) := by
  simp [replacePair, h]

end Text

/-! ## Names in references -/

/-- The characters with `~0` for every tilde. -/
def escapeTildes (cs : List Char) : List Char :=
  cs.flatMap fun c => if c = '~' then ['~', '0'] else [c]

/-- The characters of a name with `~0` for every tilde and `~1` for every slash. -/
def escapeName (cs : List Char) : List Char :=
  cs.flatMap fun c => if c = '~' then ['~', '0'] else if c = '/' then ['~', '1'] else [c]

/-- The reference to the set of a name. -/
def setReference (name : String) : String := "#/sets/" ++ String.ofList (escapeName name.toList)

/-- The reference to the modifier of a name. -/
def modifierReference (name : String) : String :=
  "#/modifiers/" ++ String.ofList (escapeName name.toList)

theorem replacePair_escapeName (cs : List Char) :
    Text.replacePair '~' '1' '/' (escapeName cs) = escapeTildes cs := by
  induction cs with
  | nil => rfl
  | cons c cs ih =>
    unfold escapeName escapeTildes at ih ⊢
    rw [List.flatMap_cons, List.flatMap_cons, ← ih]
    by_cases tilde : c = '~'
    · simp only [tilde, if_true, List.cons_append, List.nil_append]
      rw [Text.replacePair_cons_cons_of_ne (by decide), Text.replacePair_cons_of_ne (by decide)]
    · by_cases slash : c = '/'
      · subst slash
        exact Text.replacePair_pair
      · simp only [tilde, slash, if_false, List.cons_append, List.nil_append]
        exact Text.replacePair_cons_of_ne tilde

theorem replacePair_escapeTildes (cs : List Char) :
    Text.replacePair '~' '0' '~' (escapeTildes cs) = cs := by
  induction cs with
  | nil => rfl
  | cons c cs ih =>
    unfold escapeTildes at ih ⊢
    rw [List.flatMap_cons]
    by_cases tilde : c = '~'
    · simp only [tilde, if_true, List.cons_append, List.nil_append]
      rw [Text.replacePair_pair, ih]
    · simp only [tilde, if_false, List.cons_append, List.nil_append]
      rw [Text.replacePair_cons_of_ne tilde, ih]

/-- **A name is read as it was** before it was written. -/
theorem unescapeName_escapeName (cs : List Char) : unescapeName (escapeName cs) = cs := by
  rw [unescapeName, replacePair_escapeName, replacePair_escapeTildes]

theorem escapeName_injective : Function.Injective escapeName :=
  Function.LeftInverse.injective unescapeName_escapeName

/-! ## References -/

theorem parse_setReference (name : String) (directory : Path) :
    Target.parse (setReference name) directory = .ok (.set name) := by
  unfold Target.parse setReference
  rw [String.toList_append, Text.stripChars?_eq_some_iff.2 rfl]
  simp only [String.toList_ofList, unescapeName_escapeName, String.ofList_toList]

theorem parse_modifierReference (name : String) (directory : Path) :
    Target.parse (modifierReference name) directory = .ok (.modifier name) := by
  unfold Target.parse modifierReference
  rw [String.toList_append, Text.stripChars?_eq_some_iff.2 rfl]
  have other (cs : List Char) :
      Text.stripChars? "#/sets/".toList ("#/modifiers/".toList ++ cs) = none := rfl
  rw [other]
  simp only [String.toList_ofList, unescapeName_escapeName, String.ofList_toList]

namespace Setting

variable {s : Setting} {name : String}

theorem entry_setReference {definition : SetDefinition}
    (defined : s.document.sets.get? name = some definition) :
    s.entry (.reference (setReference name)) = .ok (.set name definition) := by
  show s.referred (setReference name) = _
  unfold referred
  rw [parse_setReference]
  simp only [bind, Except.bind, defined]
  rfl

theorem entry_modifierReference {m : ModifierDefinition}
    (defined : s.document.modifiers.get? name = some m) :
    s.entry (.reference (modifierReference name)) = .ok (.modifier name m) := by
  show s.referred (modifierReference name) = _
  unfold referred
  rw [parse_modifierReference]
  simp only [bind, Except.bind, defined]
  rfl

end Setting

/-- **Every name has a reference of its own.** Whatever the name is made of, its reference is read as the
set, or the modifier, of exactly this name, in every directory; references to different names are
different, and so are those to a set and to a modifier. In a document the reference stands for what has the
name: in the resolution order it is the same as the set or the modifier spelled out, and among sources the
set expands in its place. -/
theorem addressed_by_name (name : String) :
    (∀ directory, Target.parse (setReference name) directory = .ok (.set name) ∧
      Target.parse (modifierReference name) directory = .ok (.modifier name)) ∧
    (∀ other, escapeName other.toList = escapeName name.toList → other = name) ∧
    (∀ other, setReference other = setReference name → other = name) ∧
    (∀ other, modifierReference other = modifierReference name → other = name) ∧
    (∀ other, setReference other ≠ modifierReference name) ∧
    (∀ (s : Setting) definition, s.document.sets.get? name = some definition →
      (∀ l, s.applyItem l (.reference (setReference name)) = s.applyItem l (.set name definition)) ∧
      ∀ stack rest, name ∉ stack →
        s.loadSources stack (.reference (setReference name) :: rest) = do
          let within ← s.loadSources (stack ++ [name]) definition.sources
          let later ← s.loadSources stack rest
          return within ++ later) ∧
    ∀ (s : Setting) m, s.document.modifiers.get? name = some m →
      ∀ l, s.applyItem l (.reference (modifierReference name)) = s.applyItem l (.modifier name m) := by
  have read := parse_setReference name ⟨""⟩
  have readModifier := parse_modifierReference name ⟨""⟩
  refine ⟨fun directory => ⟨parse_setReference name directory, parse_modifierReference name directory⟩,
    fun other same => ?_, fun other same => ?_, fun other same => ?_, fun other same => ?_,
    fun s definition defined => ⟨fun l => ?_, fun stack rest entered => ?_⟩,
    fun s m defined l => ?_⟩
  · exact String.toList_injective (escapeName_injective same)
  · rw [← same, parse_setReference] at read
    cases read
    rfl
  · rw [← same, parse_modifierReference] at readModifier
    cases readModifier
    rfl
  · rw [← same, parse_setReference] at readModifier
    cases readModifier
  · rw [Setting.applyItem_eq, Setting.applyItem_eq, Setting.entry_setReference defined]
    rfl
  · exact Setting.loadSources_set (parse_setReference name s.directory) defined entered
  · rw [Setting.applyItem_eq, Setting.applyItem_eq, Setting.entry_modifierReference defined]
    rfl

/-! ## Names with tildes and slashes -/

/-- A document with a set and a modifier whose names hold what escapes are made of. -/
def slashedSetting : Setting where
  document := { hueDocument with
    sets := ⟨[("a/b~1", extraSet)]⟩
    modifiers := ⟨[("~0/", hueModes)]⟩
    order := [.reference "#/sets/a~1b~01", .reference "#/modifiers/~00~1"] }
  file := ⟨"hue.json"⟩
  fs _ := .error .noSuchFile
  selections := .empty

/-- The set is loaded and the modifier is applied by their escaped names. -/
theorem addressed_by_name_slashed :
    (slashedSetting.document.sets.get? "a/b~1" = some extraSet ∧ "a/b~1" ∉ ([] : List String) ∧
      slashedSetting.document.modifiers.get? "~0/" = some hueModes ∧
      slashedSetting.document.check slashedSetting.file = []) ∧
    setReference "a/b~1" = "#/sets/a~1b~01" ∧ modifierReference "~0/" = "#/modifiers/~00~1" ∧
    slashedSetting.loadSources [] [.reference "#/sets/a~1b~01"] = .ok [hueTree .base "rim" "#222"] ∧
    ∀ l, slashedSetting.applyItem l (.reference "#/modifiers/~00~1") =
      slashedSetting.applyModifier l "~0/" hueModes := by
  have set : slashedSetting.document.sets.get? "a/b~1" = some extraSet := rfl
  have modifier : slashedSetting.document.modifiers.get? "~0/" = some hueModes := rfl
  have fine : slashedSetting.document.check slashedSetting.file = [] := by decide
  have setName : setReference "a/b~1" = "#/sets/a~1b~01" := by decide
  have modifierName : modifierReference "~0/" = "#/modifiers/~00~1" := by decide
  refine ⟨⟨set, by simp, modifier, fine⟩, setName, modifierName, ?_, fun l => ?_⟩
  · have loads := ((addressed_by_name "a/b~1").2.2.2.2.2.1 slashedSetting extraSet set).2 [] [] (by simp)
    have inner : slashedSetting.loadSources ["a/b~1"] extraSet.sources =
        .ok [hueTree .base "rim" "#222"] := Setting.loadSources_eq_ok_iff.2 (.inline rfl .nil)
    rw [setName] at loads
    rw [loads, List.nil_append, inner, Setting.loadSources_nil]
    rfl
  · have applies := (addressed_by_name "~0/").2.2.2.2.2.2 slashedSetting hueModes modifier l
    rw [modifierName] at applies
    exact applies

end DesignTokens
