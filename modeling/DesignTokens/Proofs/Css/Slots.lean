import DesignTokens.Proofs.Css.Files
import DesignTokens.Proofs.Name.Words

/-!
# Slots of declarations

A declaration holds at a slot: for the elements of a selector, behind a feature query or behind none, and
under a name. It comes from a site: a token of a context, perhaps one of its sub-properties.

* `Slot`, `Compiled.slots`: the slots of all declarations; `Site`, `Compiled.sites`: all sites;
* `Site.slot`: the slot of a site; **`perm_slots`**: there is one declaration for each site, at its
  slot, whatever the files are;
* **`property_eq_iff`**: names are equal if their words are;
* `attributeSelector_eq_iff`: when two selectors of attributes are equal; `SameElements`: contexts of the
  same elements; **`selector_eq_iff`**, **`slot_eq_iff`**.
-/

namespace DesignTokens

/-! ## Slots and sites -/

/-- Where a declaration holds. -/
structure Slot where
  selector : String
  query : Option String
  property : String
  deriving DecidableEq, Repr

/-- The slots of the declarations of a rule. -/
def CssRule.slots (r : CssRule) : List Slot := r.properties.map fun d => ⟨r.selector, r.query, d.1⟩

/-- The slots of all declarations of all files. -/
def Compiled.slots (out : Compiled) (output : OutputSettings) : List Slot :=
  (sheets out.modifiers output out.tokens).entries.flatMap fun e => e.2.flatMap CssRule.slots

/-- Where a declaration comes from. -/
structure Site where
  context : Context
  path : String
  /-- The sub-property, if the token has several. -/
  part : Option String
  /-- The feature query in front of the value, if there is one. -/
  query : Option String
  deriving DecidableEq, Repr

/-- The sub-properties of a value; none stands for the whole. -/
def CssBody.subProperties : CssBody → List (Option String)
  | .single _ => [none]
  | .entries parts => parts.map fun p => some p.1

/-- The sites of a token of a context. -/
def CssToken.sites (c : Context) (t : CssToken) : List Site :=
  t.value.body.subProperties.map (⟨c, t.path, ·, none⟩) ++
    t.value.features.map fun f => ⟨c, t.path, none, some f.query⟩

theorem own_of_mem_sites {c : Context} {t : CssToken} {x : Site} (h : x ∈ t.sites c) :
    x.context = c ∧ x.path = t.path := by
  rcases List.mem_append.1 h with h | h
  · obtain ⟨part, -, rfl⟩ := List.mem_map.1 h
    exact ⟨rfl, rfl⟩
  · obtain ⟨f, -, rfl⟩ := List.mem_map.1 h
    exact ⟨rfl, rfl⟩

/-- The sites of all tokens of all contexts. -/
def Compiled.sites (out : Compiled) : List Site :=
  out.tokens.entries.flatMap fun e => e.2.flatMap (CssToken.sites e.1)

namespace Site

/-- The custom property of a site. -/
def property (s : Site) : String :=
  match s.part with
  | none => Name.customProperty s.path
  | some part => Name.customProperty s.path ++ "-" ++ Name.kebab part

/-- The slot of a site. -/
def slot (modifiers : List Modifier) (theme : String) (s : Site) : Slot :=
  ⟨selector modifiers theme s.context, s.query, s.property⟩

/-- The words of the path and of the sub-property. -/
def words (s : Site) : List String :=
  Name.pathWords s.path ++ (s.part.map Name.words).getD []

end Site

/-- The slot of a declaration. -/
def Declaration.slot (d : Declaration) : Slot := ⟨d.selector, d.query, d.property⟩

section Slots

variable {modifiers : List Modifier} {theme : String}

theorem CssRule.slots_eq (r : CssRule) : r.slots = r.declarations.map Declaration.slot := by
  unfold CssRule.slots CssRule.declarations
  rw [List.map_map]
  rfl

theorem map_slot_declarations (c : Context) (t : CssToken) :
    (t.declarations (selector modifiers theme c)).map Declaration.slot =
      (t.sites c).map (Site.slot modifiers theme) := by
  unfold CssToken.declarations CssToken.sites
  rw [List.map_append, List.map_append, List.map_map, List.map_map, List.map_map]
  cases t.value.body with
  | single text => rfl
  | entries parts =>
    unfold CssBody.subProperties
    rw [List.map_map, List.map_map]
    rfl

/-- **One declaration for each site**, at its slot. -/
theorem perm_slots (out : Compiled) (output : OutputSettings) : (out.slots output).Perm
    (out.sites.map (Site.slot out.modifiers output.themeAttribute)) := by
  have perm := (perm_declarations out.modifiers output out.tokens).map Declaration.slot
  unfold Compiled.slots Compiled.sites
  simpa only [List.map_flatMap, ← CssRule.slots_eq, map_slot_declarations] using perm

end Slots

/-! ## Names -/

theorem property_eq (s : Site) : s.property = "--" ++ Text.join "-" s.words := by
  unfold Site.property Site.words
  cases s.part with
  | none => rw [Option.map_none, Option.getD_none, List.append_nil, Name.customProperty_eq]
  | some part => exact Name.customProperty_append_kebab s.path part

/-- **Names are equal** exactly if their words are. -/
theorem property_eq_iff {x y : Site} : x.property = y.property ↔ x.words = y.words := by
  have plain : ∀ {s : Site}, ∀ w ∈ s.words, '-' ∉ w.toList := by
    intro s w hw
    rcases List.mem_append.1 hw with hw | hw
    · exact Name.notMem_of_mem_pathWords hw
    · cases part : s.part with
      | none =>
        rw [part] at hw
        cases hw
      | some name =>
        rw [part] at hw
        exact Name.notMem_of_mem_words hw
  have ne : ∀ {s : Site}, s.words ≠ [] := fun {s} => by simp [Site.words, Name.pathWords_ne_nil]
  rw [property_eq, property_eq]
  exact ⟨Name.property_injective plain plain ne ne, fun same => by rw [same]⟩

/-! ## Selectors -/

/-- An attribute that goes on where the other one ends, with an equals sign and a quotation mark, so that a
name begins with what is left of it. -/
def SpillsOver (key longer name shorter : String) : Prop :=
  ∃ s, longer = key ++ "=\"" ++ s ∧ name = s ++ "=\"" ++ shorter

theorem append_eq_append_cases {key key' name name' : List Char}
    (h : key ++ '=' :: '"' :: name = key' ++ '=' :: '"' :: name') :
    key = key' ∧ name = name' ∨
      ∃ s, key' = key ++ '=' :: '"' :: s ∧ name = s ++ '=' :: '"' :: name' ∨
        key = key' ++ '=' :: '"' :: s ∧ name' = s ++ '=' :: '"' :: name := by
  have cut : ∀ {s name name' : List Char}, '=' :: '"' :: name = s ++ '=' :: '"' :: name' →
      s = [] ∧ name = name' ∨ ∃ s', s = '=' :: '"' :: s' ∧ name = s' ++ '=' :: '"' :: name' := by
    intro s name name' h
    match s, h with
    | [], h =>
      cases h
      exact .inl ⟨rfl, rfl⟩
    | [c], h => simp at h
    | c :: d :: s', h =>
      cases h
      exact .inr ⟨s', rfl, rfl⟩
  rcases List.append_eq_append_iff.1 h with ⟨s, longer, rest⟩ | ⟨s, longer, rest⟩
  · rcases cut rest with ⟨rfl, same⟩ | ⟨s', rfl, begins⟩
    · exact .inl ⟨(by simpa using longer.symm), same⟩
    · exact .inr ⟨s', .inl ⟨longer, begins⟩⟩
  · rcases cut rest with ⟨rfl, same⟩ | ⟨s', rfl, begins⟩
    · exact .inl ⟨(by simpa using longer), same.symm⟩
    · exact .inr ⟨s', .inr ⟨longer, begins⟩⟩

/-- **Two attributes and their values are written alike** if they are the same, or if they are cut at
different places. -/
theorem attributeSelector_eq_iff {key key' name name' : String} :
    attributeSelector key name = attributeSelector key' name' ↔
      key = key' ∧ name = name' ∨ SpillsOver key key' name name' ∨ SpillsOver key' key name' name := by
  constructor
  · intro h
    have chars : key.toList ++ '=' :: '"' :: name.toList = key'.toList ++ '=' :: '"' :: name'.toList := by
      rw [attributeSelector, attributeSelector, String.append_left_inj] at h
      simpa using congrArg String.toList h
    have spills : ∀ {key key' name name' : String} {s : List Char},
        key'.toList = key.toList ++ '=' :: '"' :: s → name.toList = s ++ '=' :: '"' :: name'.toList →
        SpillsOver key key' name name' := by
      intro key key' name name' s longer begins
      refine ⟨String.ofList s, String.toList_injective ?_, String.toList_injective ?_⟩
      · simp [longer]
      · simp [begins]
    rcases append_eq_append_cases chars with ⟨keys, names⟩ | ⟨s, ⟨longer, begins⟩ | ⟨longer, begins⟩⟩
    · exact .inl ⟨String.toList_injective keys, String.toList_injective names⟩
    · exact .inr (.inl (spills longer begins))
    · exact .inr (.inr (spills longer begins))
  · unfold attributeSelector
    rintro (⟨rfl, rfl⟩ | ⟨s, rfl, rfl⟩ | ⟨s, rfl, rfl⟩)
    · rfl
    · simp only [String.append_assoc]
    · simp only [String.append_assoc]

/-- The attribute whose value chooses an overlay. -/
def overlayAttribute (theme : String) : Option String → String
  | some modifier => Modifier.attributeOf modifier
  | none => theme

/-- Modifiers of the same words; without a modifier, overlays have the theme attribute. -/
def SameAttribute (theme : String) : Option String → Option String → Prop
  | some modifier, some modifier' => Name.words modifier = Name.words modifier'
  | some modifier, none => Modifier.attributeOf modifier = theme
  | none, some modifier => Modifier.attributeOf modifier = theme
  | none, none => True

theorem overlayAttribute_eq_iff {theme : String} {m m' : Option String} :
    overlayAttribute theme m = overlayAttribute theme m' ↔ SameAttribute theme m m' := by
  cases m with
  | none =>
    cases m' with
    | none => exact iff_of_true rfl trivial
    | some modifier' => exact eq_comm
  | some modifier =>
    cases m' with
    | none => exact Iff.rfl
    | some modifier' =>
      unfold SameAttribute overlayAttribute Modifier.attributeOf
      rw [String.append_right_inj, Name.kebab_eq_kebab_iff]

/-- Contexts of the same elements: the base, or overlays of one name and one attribute; the names of the
overlays may be parted from the attributes at different places. -/
def SameElements (theme : String) : Context → Context → Prop
  | .base, .base => True
  | .variant m name, .variant m' name' =>
    SameAttribute theme m m' ∧ name = name' ∨
      SpillsOver (overlayAttribute theme m) (overlayAttribute theme m') name name' ∨
      SpillsOver (overlayAttribute theme m') (overlayAttribute theme m) name' name
  | _, _ => False

section Selectors

variable {modifiers : List Modifier} {theme : String}
  (attributes : ∀ m ∈ modifiers, m.dataAttribute = Modifier.attributeOf m.name)

include attributes

theorem selector_variant (m : Option String) (name : String) :
    selector modifiers theme (.variant m name) = attributeSelector (overlayAttribute theme m) name := by
  cases m with
  | none => rfl
  | some modifier =>
    cases found : modifiers.find? (·.name = modifier) with
    | none => simp only [selector, found, overlayAttribute]
    | some m =>
      have named : m.name = modifier := by simpa using List.find?_some found
      simp only [selector, found, overlayAttribute]
      rw [attributes m (List.mem_of_find?_eq_some found), named]

/-- **Selectors are equal** exactly if the contexts are of the same elements. -/
theorem selector_eq_iff {c c' : Context} :
    selector modifiers theme c = selector modifiers theme c' ↔ SameElements theme c c' := by
  have apart : ∀ m name, selector modifiers theme .base ≠ selector modifiers theme (.variant m name) := by
    intro m name same
    rw [selector_variant attributes] at same
    have first := congrArg (fun text => text.toList.head?) same
    simp [selector, attributeSelector] at first
  cases c with
  | base =>
    cases c' with
    | base => exact iff_of_true rfl trivial
    | variant m' name' => exact iff_of_false (apart m' name') id
  | variant m name =>
    cases c' with
    | base => exact iff_of_false (fun same => apart m name same.symm) id
    | variant m' name' =>
      rw [selector_variant attributes, selector_variant attributes, attributeSelector_eq_iff,
        overlayAttribute_eq_iff]
      rfl

/-- **Declarations are at one slot** exactly if their queries, their words and their elements are the
same. -/
theorem slot_eq_iff {x y : Site} : x.slot modifiers theme = y.slot modifiers theme ↔
    x.query = y.query ∧ x.words = y.words ∧ SameElements theme x.context y.context := by
  unfold Site.slot
  rw [Slot.mk.injEq, property_eq_iff, selector_eq_iff attributes]
  tauto

end Selectors

end DesignTokens
