import DesignTokens.Proofs.Compile.Uses
import DesignTokens.Proofs.Css.Interpolated

/-!
# Where the references in declarations come from

Resolution knows a reference by its string, which is nothing else; declarations have a use for every path in
braces that stands in the assembled text. So a string that is no reference, and that resolution leaves as it
is, may still come to use a custom property that nobody has looked up.

* `LookedUp`: a reference of a token that resolution found, with a type that may stand there;
* `Stems`: where a reference in a declared text comes from; `stems_of_brings`: one that begins in what a
  value brings along; `part_or_composed`, **`stems_of_standsIn`**: one in what a token is converted to;
* `TokenType.isVerbatim`: types of which a string is converted to itself; `text_of_isVerbatim`,
  `eq_of_mem_texts`;
* **`compile_stems`**: the references in the declarations of a compilation;
* `calcTree`: a number that is computed from another one, by a string that is no reference.
-/

namespace DesignTokens

/-! ## Origins -/

/-- The reference stands in what is written of a token; resolution found a value for it with a type that may
stand there, and the token at its path becomes a custom property. -/
def LookedUp (trees : List Tree) (c : Context) (rt : ResolvedToken) (r : Reference) : Prop :=
  ∃ o ∈ (writtenIn trees c rt).uses none, o.reference = r ∧ ∃ b u R,
    used? trees c r.path = some (b, u) ∧ isDeclared (errorsOf trees b) u = true ∧
    Sees trees c r.path R ∧
    ∀ type ∈ rt.type, ∀ e ∈ askedType? type o.property, ∀ f ∈ R.type, f.fits e = true

/-- Where a reference in a declared text of a token comes from. -/
inductive Stems (trees : List Tree) (c : Context) (rt : ResolvedToken) (r : Reference) : Prop
  /-- It is one of the value. -/
  | reference (found : LookedUp trees c rt r)
  /-- It is to a property of the text style that the token refers to. -/
  | part {target : Reference} {kp : String × String}
    (whole : Reference.ofJson? (writtenIn trees c rt) = some target) (found : LookedUp trees c rt target)
    (known : kp ∈ typographyProperties) (has : rt.value.hasMember kp.1 = true)
    (path : r.path = target.path ++ "." ++ kp.2)
  /-- It begins in a string that is no reference. -/
  | string {s : String} (held : (writtenIn trees c rt).Holds s ∨ rt.value.Holds s)
    (plain : Reference.parse? s = none) (begins : r.BeginsIn s)
  /-- It begins in a family name that is no reference, or one with quotation marks. -/
  | family {s : String} (held : (writtenIn trees c rt).Holds s)
    (plain : Reference.parse? s = none ∨ '"' ∈ s.toList) (begins : r.BeginsIn (quoteFamily s))
  /-- It begins in the JSON text of a list or an object. -/
  | json {j : Json} (inside : j.Inside (writtenIn trees c rt)) (kind : ¬ j.IsScalar)
    (begins : r.BeginsIn j.compact)

section Trees

variable {trees : List Tree} {modifiers : List Modifier} {settings : Settings} {out : Compiled}
  {c : Context} {path : String} {rt : ResolvedToken} {r : Reference}

theorem lookedUp_of_mem_references (hrt : tokenIn? trees c path = some rt)
    (h : r ∈ (writtenIn trees c rt).references) : LookedUp trees c rt r := by
  rw [Json.references_eq _ none] at h
  obtain ⟨o, ho, rfl⟩ := List.mem_map.1 h
  obtain ⟨found, -, uses⟩ := exists_used hrt
  obtain ⟨b, u, used, declared, sees, fits, -⟩ := uses o ho
  exact ⟨o, ho, rfl, b, u, found o.reference, used, declared, sees, fits⟩

theorem lookedUp_of_holds (hrt : tokenIn? trees c path = some rt) {s : String}
    (held : (writtenIn trees c rt).Holds s ∨ rt.value.Holds s) (hs : Reference.parse? s = some r) :
    LookedUp trees c rt r := by
  rcases held with held | held
  · exact lookedUp_of_mem_references hrt (held.mem_references hs)
  · have none := held.mem_references hs
    rw [references_of_tokenIn? hrt] at none
    cases none

/-- **A reference that begins in what the value brings along.** -/
theorem stems_of_brings (hrt : tokenIn? trees c path = some rt) {s : String}
    (brings : (operand (pathsOf trees c) rt).Brings s) (begins : r.BeginsIn s) :
    Stems trees c rt r := by
  cases brings with
  | string held =>
    rw [resolved_operand] at held
    cases hs : Reference.parse? s with
    | none => exact .string held hs begins
    | some r' =>
      obtain ⟨rfl, valid⟩ := parse?_eq_some_iff.1 hs
      obtain rfl := eq_of_beginsIn_text valid begins
      exact .reference (lookedUp_of_holds hrt held hs)
  | @family s held =>
    cases hs : Reference.parse? s with
    | none => exact .family held (.inl hs) begins
    | some r' =>
      obtain ⟨rfl, valid⟩ := parse?_eq_some_iff.1 hs
      by_cases marks : '"' ∈ r'.text.toList
      · exact .family held (.inr marks) begins
      · -- in quotation marks, the reference is still the only one
        rw [quoteFamily_reference marks] at begins
        obtain rfl := eq_of_beginsIn (by decide) (by decide) valid begins
        exact .reference (lookedUp_of_holds hrt (.inl held) hs)
  | json inside kind => exact .json inside kind begins

/-- A text of a token is a reference to a property of the text style that the token refers to, or is put
together from what the value brings along. -/
theorem part_or_composed {transforms : Transforms} {errors : List Diagnostic} {ct : CssToken}
    (conv : convertToken? transforms errors (pathsOf trees c) rt = .ok (some ct))
    {text : String} (ht : text ∈ ct.value.texts) :
    (∃ target kp, Reference.ofJson? (writtenIn trees c rt) = some target ∧ kp ∈ typographyProperties ∧
      rt.value.hasMember kp.1 = true ∧ text = Reference.text ⟨target.path ++ "." ++ kp.2⟩) ∨
    Composed (operand (pathsOf trees c) rt) text := by
  obtain ⟨-, type, value, -, -⟩ := convertToken?_eq_some_iff.1 conv
  by_cases alias' : ct.type = .typography ∧ ∃ target,
      Reference.ofJson? (writtenIn trees c rt) = some target
  · obtain ⟨style, target, whole⟩ := alias'
    rw [style, convert?_typographyAlias (o := operand (pathsOf trees c) rt) whole,
      resolved_operand] at value
    obtain same : typographyAlias target rt.value = ct.value := Option.some.inj (Except.ok.inj value)
    rw [← same] at ht
    obtain ⟨kp, known, has, rfl⟩ := exists_of_mem_typographyAlias ht
    exact .inl ⟨target, kp, whole, known, has, rfl⟩
  · have own : ct.type = .typography → Reference.ofJson? (operand (pathsOf trees c) rt).raw = none :=
      fun style => Option.eq_none_iff_forall_ne_some.2 fun r whole => alias' ⟨style, r, whole⟩
    exact .inr (composed_convert? own value text ht)

/-- **A reference in what a token is converted to.** -/
theorem stems_of_standsIn (hrt : tokenIn? trees c path = some rt) {transforms : Transforms}
    {ct : CssToken}
    (conv : convertToken? transforms (errorsOf trees c) (pathsOf trees c) rt = .ok (some ct))
    {text : String} (ht : text ∈ ct.value.texts) (stands : r.StandsIn text) : Stems trees c rt r := by
  rcases part_or_composed conv ht with ⟨target, kp, whole, known, has, rfl⟩ | composed
  · have written : target ∈ (writtenIn trees c rt).references := by
      simp [Json.references_of_reference whole]
    have found := lookedUp_of_mem_references hrt written
    have valid := (ofJson?_eq_some_iff.1 whole).2
    exact .part whole found known has
      (congrArg Reference.path (eq_of_beginsIn_text (isPath_part valid known) stands.beginsIn))
  · rw [← String.append_empty (s := text)] at stands
    rcases exists_brings_of_composed composed stands with ⟨s, brings, begins⟩ | nowhere
    · exact stems_of_brings hrt brings begins
    · exact absurd nowhere.beginsIn (not_beginsIn_of_braceFree (by decide))

end Trees

/-! ## Strings that are converted to themselves -/

/-- Whether a string is converted to itself: strings of the other types are changed, or nothing is read from
them. -/
def TokenType.isVerbatim : TokenType → Bool
  | .color | .dimension | .duration | .cubicBezier | .number | .strokeStyle | .shadow => true
  | _ => false

theorem text_of_isVerbatim {transforms : Transforms} {path s : String} {type : TokenType} {v : Json}
    {value : CssValue} (verbatim : type.isVerbatim = true)
    (h : convert? transforms path type ⟨.str s, v⟩ = .ok (some value)) : value = .single s := by
  cases whole : Reference.parse? s with
  | some r =>
    have ne : type ≠ .typography := by
      rintro rfl
      cases verbatim
    rw [convert?_of_whole (o := ⟨.str s, v⟩) whole ne] at h
    cases h
    rw [(parse?_eq_some_iff.1 whole).1]
  | none =>
    unfold convert? at h
    rw [show Reference.ofJson? (.str s) = none from whole] at h
    cases type with
    | color | dimension | duration | cubicBezier | number | strokeStyle | shadow =>
      cases h
      rfl
    | fluidDimension | fontFamily | fontWeight | typography | border | transition | gradient
    | unknown _ => cases verbatim

theorem eq_of_mem_texts {trees : List Tree} {c : Context} {rt : ResolvedToken} {ct : CssToken}
    {transforms : Transforms} {errors : List Diagnostic}
    (conv : convertToken? transforms errors (pathsOf trees c) rt = .ok (some ct))
    (verbatim : ct.type.isVerbatim = true) {s text : String} (written : writtenIn trees c rt = .str s)
    (ht : text ∈ ct.value.texts) : text = s := by
  obtain ⟨-, -, converted, -, -⟩ := convertToken?_eq_some_iff.1 conv
  have raw : operand (pathsOf trees c) rt = ⟨.str s, rt.value⟩ := by
    rw [← written, writtenIn, ← resolved_operand (pathsOf trees c) rt]
  rw [raw] at converted
  rw [text_of_isVerbatim verbatim converted] at ht
  simpa [CssValue.texts, CssValue.single] using ht

/-! ## Declarations -/

/-- **The references in declarations.** The value of every declaration in a rule of a context is a text that
a token of the context is converted to, with a use for each reference that stands in it, and unchanged exactly
if there is none. Each such reference is one of the value that was looked up and fits the type asked for, is
to a property of the text style that the token refers to, or begins in a text that is no reference: a string
of the value, a family name, or a JSON text. Of a token of most simple types, the text is the string as it is
written. -/
theorem compile_stems {trees : List Tree} {modifiers : List Modifier} {settings : Settings}
    {out : Compiled} (h : compile trees modifiers settings = .ok out) (c : Context) {rule : CssRule}
    (hr : rule ∈ out.rules settings.output c) {d : String × String} (hd : d ∈ rule.properties) :
    ∃ rt ct text, tokenIn? trees c ct.path = some rt ∧
      convertToken? settings.transforms (errorsOf trees c) (pathsOf trees c) rt = .ok (some ct) ∧
      text ∈ ct.value.texts ∧ d.2 = Name.renderReferences text ∧
      (d.2 = text ↔ ∀ r : Reference, ¬ r.StandsIn text) ∧
      (∀ r : Reference, r.StandsIn text → Stems trees c rt r) ∧
      (ct.type.isVerbatim = true → ∀ s, writtenIn trees c rt = .str s → text = s) := by
  obtain ⟨list, hl, ct, hct, text, ht, value⟩ := text_of_mem_rules hr hd
  obtain ⟨rt, hrt, conv⟩ := ((converted_of_compile h hl).mem ct).1 hct
  refine ⟨rt, ct, text, hrt, conv, ht, value, ?_, fun r => stems_of_standsIn hrt conv ht,
    fun verbatim s written => eq_of_mem_texts conv verbatim written ht⟩
  rw [value]
  exact renderReferences_eq_self_iff

/-! ## A number that is computed -/

/-- The string of a number that is twice another one. -/
def twice : String := "calc(\x7bstep\x7d * 2)"

/-- A number, and one that is computed from it. -/
def calcTree : Tree :=
  ⟨.base, ⟨.empty, [
    ("step", .token ⟨.num (.integer 2), some .number, none, none, some ⟨"t.json"⟩⟩),
    ("stride", .token ⟨.str twice, some .number, none, none, some ⟨"t.json"⟩⟩)]⟩, ⟨"t.json"⟩⟩

/-- The document of the two numbers. -/
def calcDocument : Json := .obj [
  ("step", .obj [("$type", .str "number"), ("$value", .num (.integer 2))]),
  ("stride", .obj [("$type", .str "number"), ("$value", .str twice)])]

theorem parsed_calcTree : ∀ t ∈ [calcTree], t.Parsed := by
  rw [List.forall_mem_singleton]
  refine ⟨⟨"t.json"⟩, calcDocument, ?_, rfl⟩
  simp [calcDocument, Json.Distinct, Json.MembersDistinct]

/-- A merged number of these. -/
def calcToken (path : String) (value : Json) : FlatToken :=
  ⟨path, [path], value, some .number, none, none, ⟨⟨"t.json"⟩, .base⟩⟩

theorem parse?_twice : Reference.parse? twice = none := by decide

theorem resolveAll_calcTree : resolveAll (flatten [calcTree]) = ⟨⟨[(.base, ⟨[
    ("step", ⟨calcToken "step" (.num (.integer 2)), .num (.integer 2)⟩),
    ("stride", ⟨calcToken "stride" (.str twice), .str twice⟩)]⟩)]⟩, []⟩ :=
  resolveAll_of_within 1 rfl

theorem diagnose_calcTree :
    diagnose (flatten [calcTree]) (resolveAll (flatten [calcTree])) = [] := by
  rw [resolveAll_calcTree]
  decide +kernel

/-- The converted numbers. -/
def calcList : List CssToken := [
  ⟨"step", .number, ⟨⟨"t.json"⟩, .base⟩, .single (scalarText (.num (.integer 2)))⟩,
  ⟨"stride", .number, ⟨⟨"t.json"⟩, .base⟩, .single twice⟩]

/-- The compiled numbers. -/
def calcOutput : Compiled :=
  ⟨generate [] Settings.standard.output ⟨[(.base, calcList)]⟩, [], [], ⟨[(.base, calcList)]⟩⟩

theorem compile_calcTree : compile [calcTree] [] .standard = .ok calcOutput := by
  refine compile_of_convertAll (by decide) diagnose_calcTree ?_
  rw [resolveAll_calcTree]
  rfl

theorem mem_rules_calcOutput : ∃ rule ∈ calcOutput.rules Settings.standard.output .base,
    ("--stride", "calc(var(--step) * 2)") ∈ rule.properties := by
  have rules : calcOutput.rules Settings.standard.output .base =
      [⟨selector [] "data-theme" .base, calcList.flatMap plainDeclarations, none⟩] :=
    rules_of_targetFile (show calcOutput.tokens.get? .base = some calcList from rfl) (by simp [calcList])
      (fun t _ => rfl) (by simp [calcList, CssValue.single])
  have start : BraceFree "calc(" := by decide
  have stop : BraceFree " * 2)" := by decide
  have valid : Reference.isPath (Reference.path ⟨"step"⟩).toList = true := by decide
  have text : twice = "calc(" ++ Reference.text ⟨"step"⟩ ++ " * 2)" := by decide
  have name : Name.customProperty "stride" = "--stride" := by decide +kernel
  have use : Name.renderReferences twice = "calc(var(--step) * 2)" := by
    rw [text, (start.clear.append (clear_reference valid)).renderReferences_append,
      start.clear.renderReferences_append, renderReferences_of_braceFree start,
      renderReferences_of_braceFree stop, renderReferences_reference valid,
      show Name.customProperty "step" = "--step" by decide +kernel]
    decide
  rw [rules]
  refine ⟨_, List.mem_singleton.2 rfl, List.mem_flatMap.2 ⟨_, List.mem_of_getElem? (i := 1) rfl, ?_⟩⟩
  exact List.mem_singleton.2 (Prod.ext name.symm use.symm)

/-- The text of the second number, and where the reference in it comes from. -/
theorem compile_stems_calcTree : ∃ out, compile [calcTree] [] .standard = .ok out ∧
    ∃ rule ∈ out.rules Settings.standard.output .base,
      ("--stride", "calc(var(--step) * 2)") ∈ rule.properties ∧
      ∃ (rt : ResolvedToken) (ct : CssToken) (text : String),
        tokenIn? [calcTree] .base ct.path = some rt ∧ text ∈ ct.value.texts ∧
        "calc(var(--step) * 2)" = Name.renderReferences text ∧
        ∀ r : Reference, r.StandsIn text → Stems [calcTree] .base rt r := by
  obtain ⟨rule, hr, hd⟩ := mem_rules_calcOutput
  obtain ⟨rt, ct, text, hrt, -, ht, value, -, stems, -⟩ := compile_stems compile_calcTree .base hr hd
  exact ⟨calcOutput, compile_calcTree, rule, hr, hd, rt, ct, text, hrt, ht, value, stems⟩

/-- **A string that is no reference is rewritten**: resolution leaves it as it is, no rule finds anything
about it, and a part of it is declared as a use. -/
theorem rewritten_calcTree : (∀ t ∈ [calcTree], t.Parsed) ∧ (∀ t ∈ [calcTree], t.context = .base) ∧
    Reference.parse? "calc(\x7bstep\x7d * 2)" = none ∧
    (∃ rt, tokenIn? [calcTree] .base "stride" = some rt ∧ rt.raw = .str "calc(\x7bstep\x7d * 2)" ∧
      rt.value = .str "calc(\x7bstep\x7d * 2)") ∧
    ∃ out, compile [calcTree] [] .standard = .ok out ∧ out.diagnostics = [] ∧
      ∃ rule ∈ out.rules Settings.standard.output .base,
        ("--stride", "calc(var(--step) * 2)") ∈ rule.properties := by
  refine ⟨parsed_calcTree, by simp [calcTree], parse?_twice, ?_,
    calcOutput, compile_calcTree, rfl, mem_rules_calcOutput⟩
  refine ⟨⟨calcToken "stride" (.str twice), .str twice⟩, ?_, rfl, rfl⟩
  unfold tokenIn?
  rw [resolveAll_calcTree]
  rfl

end DesignTokens
