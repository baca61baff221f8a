import DesignTokens.Proofs.Css.Readings
import DesignTokens.Proofs.Css.Rules
import DesignTokens.Proofs.Css.Views

/-!
# Custom properties that are used

A reference is kept as the use of a custom property if the token at its path becomes a custom property,
in the context or else in the base. Then the property is declared there, except that a text style has no
property of its own but one for each of its properties, and which ones it has may depend on the context.

* `declares_single`, `declares_part`: the names under which a token is declared;
* `Dangles`: the ways in which a use can miss;
* **`compile_uses`**: every use in a rule is declared in the context or in the base, or it is one of
  these;
* `styleTrees`: a text style of the base with a property that only a context gives it.
-/

namespace DesignTokens

/-! ## Names of tokens -/

theorem keys_of_typography_operand {transforms : Transforms} {path : String} {σ : Reference → Json}
    {j : Json} {v : CssValue} (h : convert? transforms path .typography (j.operand σ) = .ok (some v)) :
    ∃ parts, v = ⟨.entries parts, []⟩ ∧ parts.map Prod.fst =
      (typographyProperties.filter fun kp => (j.substitute σ).hasMember kp.1).map Prod.snd := by
  obtain ⟨parts, value, keys⟩ := keys_of_typography h
  refine ⟨parts, value, keys.trans ?_⟩
  cases whole : Reference.ofJson? j with
  | some r => simp [Json.operand, whole]
  | none => simp [Json.operand, whole, hasMember_resolved σ whole]

theorem isPath_part {r : Reference} (valid : Reference.isPath r.path.toList = true) {kp : String × String}
    (known : kp ∈ typographyProperties) : Reference.isPath (r.path ++ "." ++ kp.2).toList = true := by
  rw [String.toList_append, String.toList_append, List.append_assoc]
  exact isPath_append valid (isPath_property kp known).2

theorem exists_of_mem_typographyAlias {r : Reference} {v : Json} {text : String}
    (ht : text ∈ (typographyAlias r v).texts) : ∃ kp ∈ typographyProperties,
      v.hasMember kp.1 = true ∧ text = Reference.text ⟨r.path ++ "." ++ kp.2⟩ := by
  obtain ⟨kp, hkp, rfl⟩ : ∃ kp ∈ typographyProperties.filter fun kp => v.hasMember kp.1,
      Reference.text ⟨r.path ++ "." ++ kp.2⟩ = text := by
    simpa [CssValue.texts, typographyAlias] using ht
  exact ⟨kp, (List.mem_filter.1 hkp).1, (List.mem_filter.1 hkp).2, rfl⟩

theorem part_of_mem_typographyAlias {r : Reference} (valid : Reference.isPath r.path.toList = true)
    {v : Json} {text : String} (ht : text ∈ (typographyAlias r v).texts) {n : String}
    (hn : .use n ∈ fragments text) : ∃ kp ∈ typographyProperties, v.hasMember kp.1 = true ∧
      n = Name.customProperty (r.path ++ "." ++ kp.2) := by
  obtain ⟨kp, known, has, rfl⟩ := exists_of_mem_typographyAlias ht
  rw [fragments_reference (r := ⟨_⟩) (isPath_part valid known), List.mem_singleton] at hn
  exact ⟨kp, known, has, Fragment.use.inj hn⟩

theorem property_of_mem_uses_of_typography {transforms : Transforms} {path : String}
    {σ : Reference → Json} {j : Json} {v : CssValue} (whole : Reference.ofJson? j = none)
    (h : convert? transforms path .typography (j.operand σ) = .ok (some v)) {text : String}
    (ht : text ∈ v.texts) {o : Use} (ho : o ∈ j.uses none) : o.property ≠ none := by
  cases j with
  | obj members =>
    obtain ⟨m, -, ho⟩ := Json.mem_memberUses.1 ho
    exact Json.property_of_mem_uses ho
  | arr items =>
    obtain ⟨parts, rfl, keys⟩ := keys_of_typography_operand h
    have none : parts = [] := by simpa [typographyProperties, Json.substitute_arr, Json.hasMember,
      Json.member?] using keys
    rw [none] at ht
    cases ht
  | str s =>
    rw [Json.uses, show Reference.parse? s = none from whole] at ho
    cases ho
  | null | bool _ | num _ => cases ho

section Trees

variable {trees : List Tree} (parsed : ∀ t ∈ trees, t.Parsed)
  (exact : ∀ t ∈ trees, ∀ path token, t.token? path = some token → token.value.Exact)
  {modifiers : List Modifier} {settings : Settings} {out : Compiled}
  (h : compile trees modifiers settings = .ok out) {c : Context} {path : String} {u : ResolvedToken}

include h in
theorem exists_list_of_tokenIn? (hu : tokenIn? trees c path = some u) :
    ∃ list, out.tokens.get? c = some list := by
  obtain ⟨-, converted, -⟩ := compile_eq_ok h
  obtain ⟨tokens, found, -⟩ := Option.bind_eq_some_iff.1 hu
  rcases convertAll_eq_ok converted c with ⟨none, -⟩ | ⟨_, list, -, hl, -⟩
  · rw [none] at found
    cases found
  · exact ⟨list, hl⟩

include h in
theorem declares_of_isDeclared (hu : tokenIn? trees c path = some u)
    (declared : isDeclared (errorsOf trees c) u = true) : ∃ ct : CssToken,
      convert? settings.transforms u.path ct.type (operand (pathsOf trees c) u) =
        .ok (some ct.value) ∧ u.type = some ct.type ∧
      ∀ d ∈ ct.value.body.declarations path, d.1 ∈ propertyNames (out.rules settings.output c) := by
  obtain ⟨list, hl⟩ := exists_list_of_tokenIn? h hu
  obtain ⟨ct, hct, conv⟩ := (converted_of_compile h hl).declared path u hu declared
  obtain ⟨-, type, value, own, -⟩ := convertToken?_eq_some_iff.1 conv
  rw [← path_of_tokenIn? hu, ← own]
  exact ⟨ct, own ▸ value, type, fun d hd => mem_propertyNames_rules hl hct hd⟩

include h in
/-- **What is no text style is declared under its path.** -/
theorem declares_single (hu : tokenIn? trees c path = some u)
    (declared : isDeclared (errorsOf trees c) u = true) (ne : u.type ≠ some .typography) :
    Name.customProperty path ∈ propertyNames (out.rules settings.output c) := by
  obtain ⟨ct, conv, type, names⟩ := declares_of_isDeclared h hu declared
  obtain ⟨text, body⟩ := exists_body_eq_single conv fun style => ne (type.trans (congrArg some style))
  rw [body] at names
  exact names _ List.mem_cons_self

include h in
/-- **A text style is declared under the names of its properties.** -/
theorem declares_part (hu : tokenIn? trees c path = some u)
    (declared : isDeclared (errorsOf trees c) u = true) (style : u.type = some .typography)
    {kp : String × String} (hkp : kp ∈ typographyProperties) (has : u.value.hasMember kp.1 = true) :
    Name.customProperty (path ++ "." ++ kp.2) ∈ propertyNames (out.rules settings.output c) := by
  obtain ⟨ct, conv, type, names⟩ := declares_of_isDeclared h hu declared
  obtain ⟨found, same, -⟩ := exists_operandIn hu
  have resolved := substitute_of_operand same
  rw [Option.some.inj (type.symm.trans style), same] at conv
  obtain ⟨parts, value, keys⟩ := keys_of_typography_operand conv
  rw [resolved] at keys
  have key : kp.2 ∈ parts.map Prod.fst :=
    keys ▸ List.mem_map_of_mem (List.mem_filter.2 ⟨hkp, has⟩)
  obtain ⟨p, hp, property⟩ := List.mem_map.1 key
  rw [customProperty_append (isPath_property kp hkp).1, ← property]
  rw [value] at names
  exact names _ (List.mem_map_of_mem hp)

end Trees

/-! ## Uses that miss -/

/-- How the use of a custom property for a token of a context may miss what is declared. -/
inductive Dangles (trees : List Tree) (c : Context) (rt : ResolvedToken) (n : String) : Prop
  /-- The token is a reference to a text style of the base, and as seen from the context it has a
  property that the text style in the base lacks. -/
  | part {r : Reference} {u : ResolvedToken} {kp : String × String}
    (style : rt.type = some .typography)
    (whole : Reference.ofJson? (writtenIn trees c rt) = some r)
    (absent : tokenIn? trees c r.path = none) (target : tokenIn? trees .base r.path = some u)
    (known : kp ∈ typographyProperties) (seen : rt.value.hasMember kp.1 = true)
    (lacks : ¬ (u.type = some .typography ∧ u.value.hasMember kp.1 = true))
    (name : n = Name.customProperty (r.path ++ "." ++ kp.2))
  /-- A reference is to a text style, which has no property of its own: where no type is asked for, or
  to one of the base that is no text style as seen from the context. -/
  | whole {o : Use} {b : Context} {u : ResolvedToken}
    (used : o ∈ (writtenIn trees c rt).uses none)
    (target : used? trees c o.reference.path = some (b, u)) (style : u.type = some .typography)
    (unasked : rt.type.bind (askedType? · o.property) = none ∨
      tokenIn? trees c o.reference.path = none ∧
        ∃ R, Sees trees c o.reference.path R ∧ R.type ≠ some .typography)
    (name : n = Name.customProperty o.reference.path)
  /-- It is no reference of the value: something in a JSON text or in a family name looks like one. -/
  | misread (reads : (writtenIn trees c rt).Reads n)
    (other : ∀ r ∈ (writtenIn trees c rt).references, n ≠ Name.customProperty r.path)

section Uses

variable {trees : List Tree} (parsed : ∀ t ∈ trees, t.Parsed)
  (exact : ∀ t ∈ trees, ∀ path token, t.token? path = some token → token.value.Exact)
  {modifiers : List Modifier} {settings : Settings} {out : Compiled}
  (h : compile trees modifiers settings = .ok out) {c : Context} {path : String} {rt : ResolvedToken}

theorem mem_propertyNames_of_used? {output : OutputSettings} {b : Context} {u : ResolvedToken}
    {n : String} (used : used? trees c path = some (b, u)) (hn : n ∈ propertyNames (out.rules output b)) :
    n ∈ propertyNames (out.rules output c ++ out.rules output .base) := by
  rw [propertyNames_append, List.mem_append]
  rcases used?_eq_some_iff.1 used with ⟨-, rfl⟩ | ⟨-, -, rfl⟩
  · exact .inl hn
  · exact .inr hn

theorem property?_ne_typography (type : TokenType) (property : String) :
    type.property? property ≠ some .typography := by
  unfold TokenType.property?
  repeat' split
  all_goals simp

/-- What a reference is kept to becomes a custom property; in the context itself, it has the value and
the type that the reference stands for. -/
theorem exists_used (hrt : tokenIn? trees c path = some rt) :
    ∃ found : Reference → Resolved,
      operand (pathsOf trees c) rt = (writtenIn trees c rt).operand (fun r => (found r).value) ∧
      ∀ o ∈ (writtenIn trees c rt).uses none, ∃ b u,
        used? trees c o.reference.path = some (b, u) ∧ isDeclared (errorsOf trees b) u = true ∧
        Sees trees c o.reference.path (found o.reference) ∧
        (∀ type ∈ rt.type, ∀ e ∈ askedType? type o.property, ∀ f ∈ (found o.reference).type,
          f.fits e = true) ∧
        (tokenIn? trees c o.reference.path = none ∨ found o.reference = ⟨u.value, u.type⟩) := by
  obtain ⟨found, same, uses⟩ := exists_operandIn hrt
  refine ⟨found, same, fun o ho => ?_⟩
  have kept : o.reference ∈ (writtenIn trees c rt).references := by
    rw [Json.references_eq _ none]
    exact List.mem_map_of_mem ho
  obtain ⟨b, u, used, declared⟩ :=
    used?_of_mem_pathsOf (mem_pathsOf_of_mem_references hrt kept).2
  obtain ⟨t, seen, denotes, fits⟩ := uses o ho
  refine ⟨b, u, used, declared, ⟨t, seen, denotes⟩, fits, ?_⟩
  rcases used?_eq_some_iff.1 used with ⟨own, -⟩ | ⟨absent, -, -⟩
  · exact .inr (eq_of_denotes own seen denotes)
  · exact .inl absent

theorem type_of_isDeclared {errors : List Diagnostic} {t : ResolvedToken}
    (h : isDeclared errors t = true) : ∃ type, t.type = some type := by
  unfold isDeclared at h
  cases ht : t.type with
  | none => simp [ht] at h
  | some type => exact ⟨type, rfl⟩

include h

theorem part_declared_or_dangles (hrt : tokenIn? trees c path = some rt)
    (style : rt.type = some .typography) {r : Reference}
    (whole : Reference.ofJson? (writtenIn trees c rt) = some r) {kp : String × String}
    (hkp : kp ∈ typographyProperties) (seen : rt.value.hasMember kp.1 = true) :
    Name.customProperty (r.path ++ "." ++ kp.2) ∈ propertyNames
        (out.rules settings.output c ++ out.rules settings.output .base) ∨
      Dangles trees c rt (Name.customProperty (r.path ++ "." ++ kp.2)) := by
  obtain ⟨found, same, uses⟩ := exists_used hrt
  have use : (⟨r, none⟩ : Use) ∈ (writtenIn trees c rt).uses none := by
    rw [Json.uses_of_reference whole]
    exact List.mem_singleton.2 rfl
  obtain ⟨b, u, used, declared, -, fits, other⟩ := uses _ use
  -- the text style is declared where it has the property
  have there : u.type = some .typography ∧ u.value.hasMember kp.1 = true →
      Name.customProperty (r.path ++ "." ++ kp.2) ∈ propertyNames
        (out.rules settings.output c ++ out.rules settings.output .base) := by
    rintro ⟨type, has⟩
    have here := tokenIn?_of_used? used
    exact mem_propertyNames_of_used? used (declares_part h here declared type hkp has)
  rcases other with absent | value
  · rcases used?_eq_some_iff.1 used with ⟨own, -⟩ | ⟨-, base, -⟩
    · rw [absent] at own
      cases own
    · by_cases has : u.type = some .typography ∧ u.value.hasMember kp.1 = true
      · exact .inl (there has)
      · exact .inr (.part style whole absent base hkp seen has rfl)
  · refine .inl (there ⟨?_, ?_⟩)
    · obtain ⟨type, ht⟩ := type_of_isDeclared declared
      rw [value] at fits
      have fits := fits_iff.1 (fits _ style _ rfl type ht)
      simp only [reduceCtorEq, and_false, or_false] at fits
      rw [ht, fits]
    · have resolved : u.value = rt.value := by
        rw [← substitute_of_operand same, Json.substitute_reference _ whole, value]
      rwa [resolved]

theorem whole_declared_or_dangles (hrt : tokenIn? trees c path = some rt) {o : Use}
    (use : o ∈ (writtenIn trees c rt).uses none)
    (inside : rt.type = some .typography → o.property ≠ none) :
    Name.customProperty o.reference.path ∈ propertyNames
        (out.rules settings.output c ++ out.rules settings.output .base) ∨
      Dangles trees c rt (Name.customProperty o.reference.path) := by
  obtain ⟨found, same, uses⟩ := exists_used hrt
  obtain ⟨b, u, used, declared, sees, fits, other⟩ := uses o use
  by_cases style : u.type = some .typography
  · refine .inr (.whole use used style ?_ rfl)
    by_cases seen : (found o.reference).type = some .typography
    · refine .inl (Option.eq_none_iff_forall_ne_some.2 fun e he => ?_)
      obtain ⟨type, ht, he⟩ := Option.bind_eq_some_iff.1 he
      have fits := fits_iff.1 (fits type ht e he _ seen)
      simp only [reduceCtorEq, false_and, or_false] at fits
      rw [← fits] at he
      cases property : o.property with
      | none =>
        rw [property] at he
        exact inside (ht.trans he) property
      | some p =>
        rw [property] at he
        exact property?_ne_typography type p he
    · have absent : tokenIn? trees c o.reference.path = none :=
        other.resolve_right fun value => seen (value ▸ style)
      exact .inr ⟨absent, _, sees, seen⟩
  · have here := tokenIn?_of_used? used
    exact .inl (mem_propertyNames_of_used? used (declares_single h here declared style))

include parsed exact

/-- **A use in what a token is converted to** is declared, or it misses in one of the known ways. -/
theorem declared_or_dangles (hrt : tokenIn? trees c path = some rt) {ct : CssToken}
    (conv : convertToken? settings.transforms (errorsOf trees c) (pathsOf trees c) rt =
      .ok (some ct)) {text : String} (ht : text ∈ ct.value.texts) {n : String}
    (hn : .use n ∈ fragments text) :
    n ∈ propertyNames (out.rules settings.output c ++ out.rules settings.output .base) ∨
      Dangles trees c rt n := by
  obtain ⟨-, type, value, -, -⟩ := convertToken?_eq_some_iff.1 conv
  obtain ⟨found, same, -⟩ := exists_used hrt
  have resolved := substitute_of_operand same
  rw [same] at value
  by_cases alias' : ct.type = .typography ∧ ∃ r, Reference.ofJson? (writtenIn trees c rt) = some r
  · obtain ⟨style, r, whole⟩ := alias'
    rw [style] at value type
    rw [convert?_typographyAlias (o := (writtenIn trees c rt).operand _) whole] at value
    have body : ct.value = typographyAlias r rt.value := by
      rw [← resolved]
      exact (Option.some.inj (Except.ok.inj value)).symm
    rw [body] at ht
    obtain ⟨kp, known, seen, rfl⟩ := part_of_mem_typographyAlias (ofJson?_eq_some_iff.1 whole).2 ht hn
    exact part_declared_or_dangles h hrt type whole known seen
  · have settles : (writtenIn trees c rt).Settles fun r => (found r).value :=
      ⟨exact_writtenIn parsed exact hrt, resolved ▸ plain_of_tokenIn? parsed exact hrt⟩
    have own : ct.type = .typography → Reference.ofJson? (writtenIn trees c rt) = none :=
      fun style => Option.eq_none_iff_forall_ne_some.2 fun r whole => alias' ⟨style, r, whole⟩
    have reads := (readFrom_convert? settles own value text ht).reads n hn
    by_cases kept : ∃ r ∈ (writtenIn trees c rt).references, n = Name.customProperty r.path
    · obtain ⟨r, hr, rfl⟩ := kept
      rw [Json.references_eq _ none] at hr
      obtain ⟨o, ho, rfl⟩ := List.mem_map.1 hr
      refine whole_declared_or_dangles h hrt ho fun style => ?_
      have style := Option.some.inj (type.symm.trans style)
      rw [style] at value
      exact property_of_mem_uses_of_typography (own style) value ht ho
    · exact .inr (.misread reads fun r hr name => kept ⟨r, hr, name⟩)

end Uses

/-- **Every use has a declaration, or is known to miss.** In trees of documents whose strings have no
braces but those of references, the value of every declaration in a rule of a context is a text that a
token of the context is converted to; and every custom property used there is declared in a rule of the
context or of the base, except for a property of a text style that only the context gives it, a text
style as a whole where its type is not checked or is another one in the context, and what is no reference
of the value but looks like one in a JSON text or in a family name. -/
theorem compile_uses {trees : List Tree} (parsed : ∀ t ∈ trees, t.Parsed)
    (exact : ∀ t ∈ trees, ∀ path token, t.token? path = some token → token.value.Exact)
    {modifiers : List Modifier} {settings : Settings} {out : Compiled}
    (h : compile trees modifiers settings = .ok out) (c : Context) {rule : CssRule}
    (hr : rule ∈ out.rules settings.output c) {d : String × String} (hd : d ∈ rule.properties) :
    ∃ rt ct text, tokenIn? trees c ct.path = some rt ∧
      convertToken? settings.transforms (errorsOf trees c) (pathsOf trees c) rt = .ok (some ct) ∧
      text ∈ ct.value.texts ∧ d.2 = Name.renderReferences text ∧
      ∀ n, .use n ∈ fragments text →
        n ∈ propertyNames (out.rules settings.output c ++ out.rules settings.output .base) ∨
          Dangles trees c rt n := by
  obtain ⟨list, hl, ct, hct, text, ht, value⟩ := text_of_mem_rules hr hd
  obtain ⟨rt, hrt, conv⟩ := ((converted_of_compile h hl).mem ct).1 hct
  exact ⟨rt, ct, text, hrt, conv, ht, value, fun n hn =>
    declared_or_dangles parsed exact h hrt conv ht hn⟩

/-! ## A heavier text style at night -/

/-- A text style with or without a weight. -/
def bodyStyle (weight : List (String × Json)) : Json :=
  .obj ([("fontFamily", .str "Inter"),
    ("fontSize", .obj [("value", .num (.integer 16)), ("unit", .str "px")])] ++ weight)

/-- The text style in the base. -/
def lightBody : Json := bodyStyle []

/-- The text style at night. -/
def boldBody : Json := bodyStyle [("fontWeight", .str "bold")]

/-- A text style and one that refers to it; at night, the first with a weight and a third one that refers
to the second. -/
def styleTrees : List Tree :=
  [⟨.base, ⟨.empty, [
      ("body", .token ⟨lightBody, some .typography, none, none, some ⟨"base.json"⟩⟩),
      ("text", .token ⟨.str "\x7bbody\x7d", some .typography, none, none, some ⟨"base.json"⟩⟩)]⟩,
      ⟨"base.json"⟩⟩,
    ⟨nightContext, ⟨.empty, [
      ("body", .token ⟨boldBody, some .typography, none, none, some ⟨"night.json"⟩⟩),
      ("title", .token ⟨.str "\x7btext\x7d", some .typography, none, none, some ⟨"night.json"⟩⟩)]⟩,
      ⟨"night.json"⟩⟩]

/-- The document of two text styles. -/
def styleDocument (body : Json) (name target : String) : Json := .obj [
  ("body", .obj [("$type", .str "typography"), ("$value", body)]),
  (name, .obj [("$type", .str "typography"), ("$value", .str target)])]

theorem parsed_styleTrees : ∀ t ∈ styleTrees, t.Parsed := by
  simp only [styleTrees, List.forall_mem_cons, List.not_mem_nil, false_imp_iff, implies_true, and_true]
  refine ⟨⟨⟨"base.json"⟩, styleDocument lightBody "text" "\x7bbody\x7d", ?_, rfl⟩,
    ⟨⟨"night.json"⟩, styleDocument boldBody "title" "\x7btext\x7d", ?_, rfl⟩⟩
  · simp [styleDocument, lightBody, bodyStyle, Json.Distinct, Json.MembersDistinct]
  · simp [styleDocument, boldBody, bodyStyle, Json.Distinct, Json.MembersDistinct]

theorem exact_styleTrees : ∀ t ∈ styleTrees, ∀ path token, t.token? path = some token →
    token.value.Exact := by
  intro t ht
  refine exact_of_entries (parsed_styleTrees t ht) ?_
  revert t
  decide

/-- A merged text style of these trees. -/
def styleToken (path : String) (value : Json) (origin : Origin) : FlatToken :=
  ⟨path, [path], value, some .typography, none, none, origin⟩

/-- The resolved text styles of a context. -/
def styleTokens (c : Context) (file : String) (values : List (String × Json × Json)) :
    Context × Table String ResolvedToken :=
  (c, ⟨values.map fun (path, value, resolved) => (path, ⟨styleToken path value ⟨⟨file⟩, c⟩, resolved⟩)⟩)

theorem resolveAll_styleTrees : resolveAll (flatten styleTrees) = ⟨⟨[
    styleTokens .base "base.json" [("body", lightBody, lightBody), ("text", .str "\x7bbody\x7d", lightBody)],
    styleTokens nightContext "night.json"
      [("body", boldBody, boldBody), ("title", .str "\x7btext\x7d", boldBody)]]⟩, []⟩ :=
  resolveAll_of_within 3 rfl

theorem diagnose_styleTrees :
    diagnose (flatten styleTrees) (resolveAll (flatten styleTrees)) = [] := by
  rw [resolveAll_styleTrees]
  decide +kernel

/-- The converted text styles of a context. -/
def styleList (c : Context) (file : String) (bodies : List (String × CssBody)) : List CssToken :=
  bodies.map fun (path, body) => ⟨path, .typography, ⟨⟨file⟩, c⟩, ⟨body, []⟩⟩

/-- The first text style as it is converted. -/
def bodyParts : List (String × String) :=
  [("font-family", familyText (.str "Inter")),
    ("font-size", dimensionText (.obj [("value", .num (.integer 16)), ("unit", .str "px")]))]

/-- The converted text styles of the base. -/
def lightList : List CssToken := styleList .base "base.json" [
  ("body", .entries bodyParts),
  ("text", .entries [("font-family", "\x7bbody.font-family\x7d"), ("font-size", "\x7bbody.font-size\x7d")])]

/-- The converted text styles of the night. -/
def boldList : List CssToken := styleList nightContext "night.json" [
  ("body", .entries (bodyParts ++ [("font-weight", weightText (.str "bold"))])),
  ("title", .entries [("font-family", "\x7btext.font-family\x7d"),
    ("font-size", "\x7btext.font-size\x7d"), ("font-weight", "\x7btext.font-weight\x7d")])]

theorem convertAll_styleTrees : convertAll .standard [] (resolveAll (flatten styleTrees)) =
    .ok ⟨[(.base, lightList), (nightContext, boldList)]⟩ := by
  rw [resolveAll_styleTrees]
  rfl

/-- The compiled text styles. -/
def styleOutput : Compiled :=
  ⟨generate [] Settings.standard.output ⟨[(.base, lightList), (nightContext, boldList)]⟩, [], [],
    ⟨[(.base, lightList), (nightContext, boldList)]⟩⟩

theorem compile_styleTrees : compile styleTrees [] .standard = .ok styleOutput :=
  compile_of_convertAll (by decide) diagnose_styleTrees convertAll_styleTrees

theorem rules_styleOutput : ∀ e ∈ [(.base, lightList), (nightContext, boldList)],
    styleOutput.rules Settings.standard.output e.1 = [⟨selector [] "data-theme" e.1,
      e.2.flatMap plainDeclarations, none⟩] := by
  intro e he
  have found : styleOutput.tokens.get? e.1 = some e.2 :=
    (Table.get?_eq_some_iff (t := ⟨_⟩) (by decide)).2 he
  have ne : ∀ e ∈ [(.base, lightList), (nightContext, boldList)], e.2 ≠ [] := by
    simp [lightList, boldList, styleList]
  have features : ∀ e ∈ [(.base, lightList), (nightContext, boldList)],
      ∀ t ∈ e.2, t.value.features = [] := by
    simp [lightList, boldList, styleList]
  exact rules_of_targetFile found (ne e he) (fun t _ => rfl) (features e he)

theorem mem_rules_styleOutput : ∃ rule ∈ styleOutput.rules Settings.standard.output nightContext,
    ("--title-font-weight", Name.use "--text-font-weight") ∈ rule.properties := by
  rw [rules_styleOutput (nightContext, boldList) (by simp)]
  have title : (⟨"title", .typography, ⟨⟨"night.json"⟩, nightContext⟩,
      ⟨.entries [("font-family", "\x7btext.font-family\x7d"), ("font-size", "\x7btext.font-size\x7d"),
        ("font-weight", "\x7btext.font-weight\x7d")], []⟩⟩ : CssToken) ∈ boldList := by
    simp [boldList, styleList]
  have name : Name.customProperty "title" ++ "-" ++ Name.kebab "font-weight" =
      "--title-font-weight" := by decide +kernel
  have reference : "\x7btext.font-weight\x7d" = Reference.text ⟨"text.font-weight"⟩ := by
    decide +kernel
  have use : Name.renderReferences "\x7btext.font-weight\x7d" = Name.use "--text-font-weight" := by
    rw [← written_fragments, reference, fragments_reference (by decide +kernel),
      show Name.customProperty "text.font-weight" = "--text-font-weight" by decide +kernel]
    rfl
  refine ⟨_, List.mem_singleton.2 rfl, List.mem_flatMap.2 ⟨_, title, ?_⟩⟩
  exact List.mem_map.2 ⟨_, List.mem_of_getElem? (i := 2) rfl, Prod.ext name use⟩

/-- The weight at night, which is declared or known to miss. -/
theorem compile_uses_styleTrees : (∀ t ∈ styleTrees, t.Parsed) ∧
    (∀ t ∈ styleTrees, ∀ path token, t.token? path = some token → token.value.Exact) ∧
    ∃ out, compile styleTrees [] .standard = .ok out ∧
      ∃ rule ∈ out.rules Settings.standard.output nightContext,
        ("--title-font-weight", Name.use "--text-font-weight") ∈ rule.properties ∧
        ∃ (rt : ResolvedToken) (ct : CssToken) (text : String),
          tokenIn? styleTrees nightContext ct.path = some rt ∧ text ∈ ct.value.texts ∧
          Name.use "--text-font-weight" = Name.renderReferences text ∧
          ∀ n, .use n ∈ fragments text →
            n ∈ propertyNames (out.rules Settings.standard.output nightContext ++
              out.rules Settings.standard.output .base) ∨ Dangles styleTrees nightContext rt n := by
  obtain ⟨rule, hr, hd⟩ := mem_rules_styleOutput
  obtain ⟨rt, ct, text, hrt, -, ht, value, uses⟩ :=
    compile_uses parsed_styleTrees exact_styleTrees compile_styleTrees nightContext hr hd
  exact ⟨parsed_styleTrees, exact_styleTrees, styleOutput, compile_styleTrees, rule, hr, hd, rt, ct, text,
    hrt, ht, value, uses⟩

/-- **A weight without a declaration**: at night, a text style refers to the weight of one in the base,
which has none. -/
theorem dangling_styleTrees : (∀ t ∈ styleTrees, t.Parsed) ∧
    (∀ t ∈ styleTrees, ∀ path token, t.token? path = some token → token.value.Exact) ∧
    ∃ out, compile styleTrees [] .standard = .ok out ∧
      ∃ rule ∈ out.rules Settings.standard.output nightContext,
        ("--title-font-weight", Name.use "--text-font-weight") ∈ rule.properties ∧
        "--text-font-weight" ∉ propertyNames (out.rules Settings.standard.output nightContext ++
          out.rules Settings.standard.output .base) := by
  obtain ⟨rule, hr, hd⟩ := mem_rules_styleOutput
  refine ⟨parsed_styleTrees, exact_styleTrees, styleOutput, compile_styleTrees, rule, hr, hd, ?_⟩
  rw [rules_styleOutput (.base, lightList) (by simp), rules_styleOutput (nightContext, boldList) (by simp)]
  decide +kernel

end DesignTokens
