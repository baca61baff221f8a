import DesignTokens.Proofs.Css.Quoted
import DesignTokens.Proofs.Lint.Accepted

/-!
# References in converted values

A reference that is kept becomes the use of a custom property. It is right to keep it if that property
comes to what would be written for the value that the reference stands for.

* `SpelledOut`: no reference is the number of an amount with a unit, and none is in a list of families;
  `Shaped`: a value has the shape of its type and of no other type;
* `BodyEvaluates`, `Carried`: a token whose custom properties stand for its value;
  **`BodyEvaluates.declarations`**: what a body declares after all uses are replaced;
* `Draws`: a part of a value in which all references are to such tokens;
* `Renders`, `RendersWithin`, `RendersAll`: texts that come to others as long as a value is spelled out,
  and only then; **`RendersAll.join`**;
* **`Carried.evaluates`**: a reference comes to the text of the value that it stands for.
-/

namespace DesignTokens

/-! ## Values that are spelled out -/

/-- The number of an amount is no reference. -/
def SpelledAmount (j : Json) : Prop :=
  ∀ part, j.member? "value" = some part → Reference.ofJson? part = none

/-- No name in a list of families is a reference. -/
def SpelledFamily (j : Json) : Prop :=
  ∀ names, j = .arr names → ∀ name ∈ names, Reference.ofJson? name = none

/-- The parts of an object under some keys. -/
def Json.parts (keys : List String) (j : Json) : List Json := keys.filterMap (j.member? ·)

/-- The amounts of a layer of a shadow. -/
def layerAmounts : List String := ["offsetX", "offsetY", "blur", "spread"]

/-- The parts of a value that are written as a number with a unit. -/
def amountsOf : TokenType → Json → List Json
  | .dimension, j => [j]
  | .duration, j => [j]
  | .border, j => j.parts ["width"]
  | .shadow, .arr layers => layers.flatMap (Json.parts layerAmounts)
  | .shadow, j => j.parts layerAmounts
  | .transition, j => j.parts ["duration", "delay"]
  | .typography, j => ((j.parts ["fontSize"]).filter fun size =>
      !(size.hasMember "min" && size.hasMember "max")) ++ j.parts ["letterSpacing", "lineHeight"]
  | _, _ => []

/-- The parts of a value that are written as font families. -/
def familiesOf : TokenType → Json → List Json
  | .fontFamily, j => [j]
  | .typography, j => j.parts ["fontFamily"]
  | _, _ => []

/-- No reference is the number of an amount, and none is in a list of families. -/
def SpelledOut (type : TokenType) (j : Json) : Prop :=
  (∀ a ∈ amountsOf type j, SpelledAmount a) ∧ ∀ f ∈ familiesOf type j, SpelledFamily f

/-- The value has the shape of its type, where no rule looks at it, and of no other type. -/
def Shaped : TokenType → Json → Prop
  | .number, v => v.IsScalar
  | .fontFamily, v => v.IsScalar ∨ ∃ names, v = .arr names ∧ ∀ name ∈ names, name.IsScalar
  | .strokeStyle, v => ∀ items, v ≠ .arr items
  | .dimension, v => ¬ (v.hasMember "min" = true ∧ v.hasMember "max" = true)
  | .fluidDimension, v => ¬ (v.hasMember "value" = true ∧ v.hasMember "unit" = true)
  | _, _ => True

/-! ## Bodies and custom properties -/

/-- A body whose texts come to those of another one. -/
inductive BodyEvaluates (decls : List (String × List Fragment)) : CssBody → CssBody → Prop
  | single {text value : String} (h : Evaluates decls text value) :
    BodyEvaluates decls (.single text) (.single value)
  | entries {parts values : List (String × String)}
    (h : List.Forall₂ (fun p v => p.1 = v.1 ∧ Evaluates decls p.2 v.2) parts values) :
    BodyEvaluates decls (.entries parts) (.entries values)

/-- The declarations with every use replaced, again and again. -/
def expandAll (decls : List (String × List Fragment)) (k : Nat) (ds : List (String × List Fragment)) :
    List (String × List Fragment) := ds.map fun d => (d.1, (expand decls)^[k] d.2)

theorem declarations_entries_cons (path : String) (p : String × String)
    (parts : List (String × String)) :
    (CssBody.entries (p :: parts)).declarations path =
      (Name.customProperty path ++ "-" ++ Name.kebab p.1, fragments p.2) ::
        (CssBody.entries parts).declarations path := rfl

theorem eventually_entries {decls : List (String × List Fragment)} (path : String)
    {parts values : List (String × String)}
    (h : List.Forall₂ (fun p v => p.1 = v.1 ∧ Evaluates decls p.2 v.2) parts values) :
    ∃ k, ∀ j, expandAll decls (k + j) ((CssBody.entries parts).declarations path) =
      (CssBody.entries values).declarations path := by
  induction h with
  | nil => exact ⟨0, fun _ => rfl⟩
  | @cons p v parts values hp _ ih =>
    obtain ⟨k, hk⟩ := ih
    obtain ⟨k', hk'⟩ := hp.2.eventually
    refine ⟨k + k', fun j => ?_⟩
    have rest := hk (k' + j)
    have first := hk' (k + j)
    rw [← Nat.add_assoc] at rest first
    rw [Nat.add_comm k' k] at first
    unfold expandAll at rest ⊢
    rw [declarations_entries_cons, declarations_entries_cons, List.map_cons, rest, first, hp.1]

/-- **What a body declares**, with every use replaced often enough. -/
theorem BodyEvaluates.declarations {decls : List (String × List Fragment)} {body value : CssBody}
    (h : BodyEvaluates decls body value) (path : String) :
    ∃ k, expandAll decls k (body.declarations path) = value.declarations path := by
  cases h with
  | single h =>
    obtain ⟨k, hk⟩ := h.steps
    refine ⟨k, ?_⟩
    unfold expandAll CssBody.declarations
    rw [List.map_singleton, hk]
  | entries h =>
    obtain ⟨k, hk⟩ := eventually_entries path h
    exact ⟨k, hk 0⟩

section Carried

variable (transforms : Transforms) (decls : List (String × List Fragment))

/-- The custom properties of the token at a path come to what its value is written as. -/
structure Carried (path : String) (type : TokenType) (v : Json) : Prop where
  accepted : Accepted type v
  shaped : Shaped type v
  plain : v.Plain
  comes : type ≠ .gradient → ∃ body value,
    (∀ d ∈ body.declarations path, Table.find? d.1 decls = some d.2) ∧
    BodyEvaluates decls body value ∧
    ∀ path', convert? transforms path' type ⟨v, v⟩ = .ok (some ⟨value, []⟩)

/-- The type that is asked for at a property of a value of a type, or of the value itself. -/
def askedType? (type : TokenType) : Option String → Option TokenType
  | some property => type.property? property
  | none => some type

variable (σ : Reference → Json)

/-- All references in a part of a value are to tokens with their own custom properties. -/
def Draws (type : TokenType) (property : Option String) (j : Json) : Prop :=
  ∀ o ∈ j.uses property, ∃ found,
    Carried transforms decls o.reference.path found (σ o.reference) ∧
      ∀ e ∈ askedType? type o.property, found.fits e = true

variable {transforms decls σ} {type : TokenType} {property : Option String} {j : Json}

theorem Draws.member (h : Draws transforms decls σ type property j) {key : String} {part : Json}
    (hp : j.member? key = some part) : Draws transforms decls σ type (some key) part :=
  fun o ho => h o (Json.mem_uses_of_member? hp property ho)

theorem Draws.item {items : List Json} (h : Draws transforms decls σ type property (.arr items))
    {item : Json} (hi : item ∈ items) : Draws transforms decls σ type property item :=
  fun o ho => h o (Json.mem_uses_of_mem_items hi ho)

theorem Draws.reference (h : Draws transforms decls σ type property j) {r : Reference}
    (whole : Reference.ofJson? j = some r) : ∃ found,
      Carried transforms decls r.path found (j.substitute σ) ∧
        ∀ e ∈ askedType? type property, found.fits e = true := by
  rw [Json.substitute_reference σ whole]
  have used : (⟨r, property⟩ : Use) ∈ j.uses property := by
    rw [Json.uses_of_reference whole]
    exact List.mem_singleton.2 rfl
  exact h _ used

/-- **A reference comes to the text of the value that it stands for.** -/
theorem Carried.evaluates {r : Reference} {found : TokenType} {v : Json}
    (h : Carried transforms decls r.path found v)
    (valid : Reference.isPath r.path.toList = true) (ne : found ≠ .gradient) {path text : String}
    (conv : convert? transforms path found ⟨v, v⟩ = .ok (some (.single text))) :
    Evaluates decls r.text text := by
  obtain ⟨body, value, finds, comes, same⟩ := h.comes ne
  rw [same path] at conv
  obtain rfl : value = .single text := congrArg CssValue.body (Option.some.inj (Except.ok.inj conv))
  cases comes with
  | single h' =>
    exact Evaluates.reference valid (finds _ (List.mem_singleton.2 rfl)) h'

end Carried

/-! ## Texts that come to others under a condition -/

section Renders

variable (decls : List (String × List Fragment)) (names ok : Prop)

/-- A text that comes to another one if a value is spelled out (`ok`), and otherwise never does, as
long as its strings can be quoted (`names`). -/
structure Renders (text value : String) : Prop where
  evaluates : ok → Evaluates decls text value
  differs : names → ¬ ok → ∀ k, (expand decls)^[k] (fragments text) ≠ fragments value

/-- The same for a part of a text: what keeps it from coming to the other one is a brace that stays. -/
structure RendersWithin (text value : String) : Prop where
  evaluates : ok → Evaluates decls text value
  stuck : names → ¬ ok → Stuck text
  braceFree : BraceFree value

/-- The same for several parts of a text. -/
structure RendersAll (texts values : List String) : Prop where
  evaluates : ok → List.Forall₂ (Evaluates decls) texts values
  closed : names → ∀ t ∈ texts, Clear t ∨ Stuck t
  stuck : names → ¬ ok → ∃ t ∈ texts, Stuck t
  braceFree : ∀ v ∈ values, BraceFree v

variable {decls names ok} {ok' : Prop}

theorem RendersWithin.renders {text value : String} (h : RendersWithin decls names ok text value) :
    Renders decls names ok text value :=
  ⟨h.evaluates, fun quotable unspelled => (h.stuck quotable unspelled).iterate_expand_ne decls
    h.braceFree⟩

theorem Evaluates.renders {text value : String} (h : Evaluates decls text value) (spelled : ok) :
    RendersWithin decls names ok text value :=
  ⟨fun _ => h, fun _ unspelled => absurd spelled unspelled, h.braceFree⟩

theorem RendersWithin.congr {text value : String} (h : RendersWithin decls names ok text value)
    (same : ok ↔ ok') : RendersWithin decls names ok' text value := by
  rwa [← propext same]

namespace RendersAll

theorem congr {texts values : List String} (h : RendersAll decls names ok texts values)
    (same : ok ↔ ok') : RendersAll decls names ok' texts values := by
  rwa [← propext same]

theorem nil (spelled : ok) : RendersAll decls names ok [] [] :=
  ⟨fun _ => .nil, by simp, fun _ unspelled => absurd spelled unspelled, by simp⟩

theorem cons {text value : String} {texts values : List String}
    (h : RendersWithin decls names ok text value) (hs : RendersAll decls names ok' texts values) :
    RendersAll decls names (ok ∧ ok') (text :: texts) (value :: values) := by
  refine ⟨fun spelled => .cons (h.evaluates spelled.1) (hs.evaluates spelled.2), ?_, ?_, ?_⟩
  · intro quotable t ht
    rcases List.mem_cons.1 ht with rfl | ht
    · by_cases spelled : ok
      · exact .inl (h.evaluates spelled).clear
      · exact .inr (h.stuck quotable spelled)
    · exact hs.closed quotable t ht
  · intro quotable unspelled
    by_cases spelled : ok
    · obtain ⟨t, ht, stuck⟩ := hs.stuck quotable fun spelled' => unspelled ⟨spelled, spelled'⟩
      exact ⟨t, List.mem_cons_of_mem _ ht, stuck⟩
    · exact ⟨text, List.mem_cons_self, h.stuck quotable spelled⟩
  · intro v hv
    rcases List.mem_cons.1 hv with rfl | hv
    · exact h.braceFree
    · exact hs.braceFree v hv

theorem singleton {text value : String} (h : RendersWithin decls names ok text value) :
    RendersAll decls names ok [text] [value] :=
  (cons h (nil trivial)).congr (iff_of_eq (and_true ok))

theorem append {texts values texts' values' : List String}
    (h : RendersAll decls names ok texts values) (h' : RendersAll decls names ok' texts' values') :
    RendersAll decls names (ok ∧ ok') (texts ++ texts') (values ++ values') := by
  refine ⟨fun spelled => List.rel_append (h.evaluates spelled.1) (h'.evaluates spelled.2),
    fun quotable => ?_, fun quotable unspelled => ?_, ?_⟩
  · exact List.forall_mem_append.2 ⟨h.closed quotable, h'.closed quotable⟩
  · by_cases spelled : ok
    · obtain ⟨t, ht, stuck⟩ := h'.stuck quotable fun spelled' => unspelled ⟨spelled, spelled'⟩
      exact ⟨t, List.mem_append_right _ ht, stuck⟩
    · obtain ⟨t, ht, stuck⟩ := h.stuck quotable spelled
      exact ⟨t, List.mem_append_left _ ht, stuck⟩
  · exact List.forall_mem_append.2 ⟨h.braceFree, h'.braceFree⟩

/-- **Parts of a text between separators.** -/
theorem join {texts values : List String} (h : RendersAll decls names ok texts values) {sep : String}
    (hs : BraceFree sep) : RendersWithin decls names ok (Text.join sep texts) (Text.join sep values) :=
  ⟨fun spelled => .join hs (h.evaluates spelled),
    fun quotable unspelled => .join hs (h.closed quotable) (h.stuck quotable unspelled),
    .join hs h.braceFree⟩

end RendersAll

end Renders

end DesignTokens
