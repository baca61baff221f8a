import DesignTokens.Proofs.Css.Sheets
import DesignTokens.Proofs.Css.Views

/-!
# Layers of declarations

The custom properties of a context lie over those of the base: a use stands for what the context declares,
or else for what the base declares.

* `FaithfulIn`: what a token declares comes to what would be written for its resolved value;
  **`faithfulIn_of_alias`**: an alias does so if all that it leads to follows the context;
* `ComesTo`: aliases that end with what is written without references;
  **`faithfulIn_iff_written_alike`**: an alias that comes to such a token;
* `DeclaredOnce`: a context in which no property is declared twice; `layers`: its declarations over those
  of the base; **`supplies_layers`**.
-/

namespace DesignTokens

open Relation

section Layers

variable {transforms : Transforms} {trees : List Tree} {c : Context} {taken : List String}
  {decls : List (String × List Fragment)} {path : String} {b : Context} {u : ResolvedToken}

/-! ## Faithful declarations -/

variable (transforms trees c decls) in
/-- What a token of a context declares comes to what would be written if its value stood in place of its
references. -/
def FaithfulIn (rt : ResolvedToken) (ct : CssToken) : Prop :=
  ∃ ct', convertToken? transforms (errorsOf trees c) (pathsOf trees c) ⟨rt.settled, rt.value⟩ =
      .ok (some ct') ∧ ct'.value.features = [] ∧
    ∃ k, expandAll decls k (ct.value.body.declarations ct.path) = ct'.value.body.declarations ct'.path

/-- Two values of a type have the same text. -/
def WrittenAlike (transforms : Transforms) (type : TokenType) (v w : Json) : Prop :=
  ∀ path, convert? transforms path type ⟨v, v⟩ = convert? transforms path type ⟨w, w⟩

theorem operand_of_references_eq_nil (h : tokenIn? trees b path = some u)
    (none : (writtenIn trees b u).references = []) :
    operand (pathsOf trees b) u = ⟨u.value, u.value⟩ := by
  obtain ⟨found, same, -⟩ := exists_operandIn h
  have resolved := substitute_of_operand same
  rw [Json.substitute_of_references_eq_nil _ none] at resolved
  rw [operand_eq, resolved]

theorem operand_settled (paths : List String) (rt : ResolvedToken) :
    operand paths ⟨rt.settled, rt.value⟩ = ⟨rt.value, rt.value⟩ := by
  unfold operand
  split <;> rfl

variable (transforms trees c taken) in
/-- A custom property comes, along aliases, to that of a token that is written without references. -/
inductive ComesTo : String → Context × ResolvedToken → Prop
  | plain {path : String} {x : Context × ResolvedToken} (finds : Finds transforms trees c taken path x)
      (none : (writtenIn trees x.1 x.2).references = []) : ComesTo path x
  | along {path : String} {x y : Context × ResolvedToken} {r : Reference}
      (finds : Finds transforms trees c taken path x) (style : x.2.type ≠ some .typography)
      (whole : Reference.ofJson? (writtenIn trees x.1 x.2) = some r) (rest : ComesTo r.path y) :
      ComesTo path y

theorem ComesTo.evaluates (parsed : ∀ t ∈ trees, t.Parsed)
    (exact : ∀ t ∈ trees, ∀ path token, t.token? path = some token → token.value.Exact)
    (supplies : Supplies transforms trees c taken decls) {y : Context × ResolvedToken}
    (comes : ComesTo transforms trees c taken path y) (valid : Reference.isPath path.toList = true)
    {type : TokenType} (ht : y.2.type = some type) (ne : type ≠ .gradient) (style : type ≠ .typography)
    (shaped : Shaped type y.2.value) :
    ∃ text, Evaluates decls (Reference.text ⟨path⟩) text ∧
      ∀ path', convert? transforms path' type ⟨y.2.value, y.2.value⟩ = .ok (some (.single text)) := by
  induction comes with
  | @plain path x finds none =>
    obtain ⟨ct, conv, features, found⟩ := supplies path x.1 x.2 finds
    obtain ⟨fine, own, value, -, -⟩ := convertToken?_eq_some_iff.1 conv
    obtain rfl : ct.type = type := Option.some.inj (own.symm.trans ht)
    have here := tokenIn?_of_used? finds.used
    rw [operand_of_references_eq_nil here none,
      show ct.value = ⟨ct.value.body, []⟩ by rw [← features]] at value
    obtain ⟨text, body, free, texts⟩ := text_of_plain (plain_of_tokenIn? parsed exact here)
      (accepted_of_not_isFaulty parsed here own fine) shaped ne style value
    rw [body] at found
    exact ⟨text, .reference valid (found _ (List.mem_singleton.2 rfl)) (.refl free), texts⟩
  | @along path x y r finds other whole _ ih =>
    obtain ⟨text, evaluates, texts⟩ := ih (ofJson?_eq_some_iff.1 whole).2 ht shaped
    obtain ⟨ct, conv, -, found⟩ := supplies path x.1 x.2 finds
    obtain ⟨-, own, value, -, -⟩ := convertToken?_eq_some_iff.1 conv
    -- what is declared is the next reference
    rw [convert?_of_whole (o := operand (pathsOf trees x.1) x.2) whole
      fun same => other (same ▸ own)] at value
    rw [← Option.some.inj (Except.ok.inj value)] at found
    exact ⟨text, .reference valid (found _ (List.mem_singleton.2 rfl)) evaluates, texts⟩

section Faithful

variable {rt : ResolvedToken} {ct : CssToken}
  (conv : convertToken? transforms (errorsOf trees c) (pathsOf trees c) rt = .ok (some ct))

include conv

theorem faithfulIn_iff : FaithfulIn transforms trees c decls rt ct ↔
    ∃ value, convert? transforms rt.path ct.type ⟨rt.value, rt.value⟩ = .ok (some ⟨value, []⟩) ∧
      ∃ k, expandAll decls k (ct.value.body.declarations ct.path) = value.declarations ct.path := by
  obtain ⟨fine, type, -, own, origin⟩ := convertToken?_eq_some_iff.1 conv
  constructor
  · rintro ⟨ct', conv', features, k, hk⟩
    obtain ⟨-, type', conv', own', -⟩ := convertToken?_eq_some_iff.1 conv'
    have types : ct'.type = ct.type := Option.some.inj (type'.symm.trans type)
    rw [operand_settled, types, show ct'.value = ⟨ct'.value.body, []⟩ by rw [← features]] at conv'
    have path : ct'.path = ct.path := own'.trans own.symm
    rw [path] at hk
    exact ⟨ct'.value.body, conv', k, hk⟩
  · rintro ⟨value, same, k, hk⟩
    refine ⟨⟨ct.path, ct.type, ct.origin, ⟨value, []⟩⟩, ?_, rfl, k, hk⟩
    exact convertToken?_eq_some_iff.2 ⟨fine, type, operand_settled _ rt ▸ same, own, origin⟩

theorem faithfulIn_iff_of_convert? {value : CssBody}
    (same : ∀ path', convert? transforms path' ct.type ⟨rt.value, rt.value⟩ = .ok (some ⟨value, []⟩)) :
    FaithfulIn transforms trees c decls rt ct ↔
      ∃ k, expandAll decls k (ct.value.body.declarations ct.path) = value.declarations ct.path := by
  rw [faithfulIn_iff conv]
  constructor
  · rintro ⟨value', same', k, hk⟩
    obtain rfl : value' = value := congrArg CssValue.body
      (Option.some.inj (Except.ok.inj (same'.symm.trans (same rt.path))))
    exact ⟨k, hk⟩
  · exact fun comes => ⟨value, same rt.path, comes⟩

variable (h : tokenIn? trees c path = some rt) (features : ct.value.features = [])

include h features

theorem faithfulIn_of_references_eq_nil (none : (writtenIn trees c rt).references = []) :
    FaithfulIn transforms trees c decls rt ct := by
  obtain ⟨-, -, value, -, -⟩ := convertToken?_eq_some_iff.1 conv
  rw [operand_of_references_eq_nil h none,
    show ct.value = ⟨ct.value.body, []⟩ by rw [← features]] at value
  exact (faithfulIn_iff conv).2 ⟨ct.value.body, value, 0, List.map_id _⟩

section Exact

variable (parsed : ∀ t ∈ trees, t.Parsed)
  (exact : ∀ t ∈ trees, ∀ path token, t.token? path = some token → token.value.Exact)

include parsed exact

/-- **An alias is faithful** if all that it leads to follows the context. -/
theorem faithfulIn_of_alias (supplies : Supplies transforms trees c taken decls)
    (ne : ct.type ≠ .gradient) {r : Reference} (whole : Reference.ofJson? rt.raw = some r)
    (follows : ∀ y, TransGen (Leads trees c) (c, rt) y → Follows transforms trees c taken y) :
    FaithfulIn transforms trees c decls rt ct := by
  rcases writtenIn_cases h with ⟨written, -⟩ | ⟨written, plain⟩
  · have used : used? trees c path = some (c, rt) := used?_eq_some_iff.2 (.inl ⟨h, rfl⟩)
    have carried : ∀ y, Leads trees c (c, rt) y → isDeclared (errorsOf trees y.1) y.2 = true →
        ∀ R, Sees trees c y.2.path R → ∃ type, R.type = some type ∧
          Carried transforms decls y.2.path type R.value := by
      intro y leads declared R sees
      obtain ⟨r, -, used⟩ := id leads
      rw [← path_of_used? used] at used
      exact carried_of_follows parsed exact supplies used declared
        (fun z reaches => follows z (.head' leads reaches)) sees
    obtain ⟨fine, type, value, -, -⟩ := convertToken?_eq_some_iff.1 conv
    have steady : c ≠ c → Steady transforms trees c taken rt := fun ne => absurd rfl ne
    obtain ⟨σ, draws, (resolved : _ = rt.value)⟩ :=
      draws_of_used? parsed exact used fine steady carried type (sees_of_tokenIn? h)
    have accepted := accepted_of_not_isFaulty parsed h type fine
    rw [operand_eq, show ct.value = ⟨ct.value.body, []⟩ by rw [← features], ← resolved] at value
    rw [← written] at whole
    obtain ⟨body, same, evaluates⟩ := convert?_reference draws (resolved ▸ accepted) ne whole value
    rw [resolved] at same
    exact (faithfulIn_iff_of_convert? conv same).2 (evaluates.declarations ct.path)
  · exact faithfulIn_of_references_eq_nil conv h features (written ▸ plain)

omit features in
/-- **An alias that comes to what is written without references** is faithful exactly if the value of
that, where it is declared, is written like the value as seen from the context. -/
theorem faithfulIn_iff_written_alike (supplies : Supplies transforms trees c taken decls)
    (ne : ct.type ≠ .gradient) (style : ct.type ≠ .typography) {r : Reference}
    (whole : Reference.ofJson? (writtenIn trees c rt) = some r) {y : Context × ResolvedToken}
    (comes : ComesTo transforms trees c taken r.path y) (type : y.2.type = rt.type)
    (shaped : Shaped ct.type rt.value) (shaped' : Shaped ct.type y.2.value) :
    FaithfulIn transforms trees c decls rt ct ↔
      WrittenAlike transforms ct.type rt.value y.2.value := by
  obtain ⟨fine, own, value, -, -⟩ := convertToken?_eq_some_iff.1 conv
  obtain ⟨text', evaluates, texts'⟩ := comes.evaluates parsed exact supplies
    (ofJson?_eq_some_iff.1 whole).2 (type.trans own) ne style shaped'
  have body : ct.value.body = .single r.text := by
    rw [convert?_of_whole (o := operand (pathsOf trees c) rt) whole style] at value
    rw [← Option.some.inj (Except.ok.inj value)]
    rfl
  rw [faithfulIn_iff conv, body]
  constructor
  · rintro ⟨value, same, k, hk⟩ path'
    obtain ⟨text, rfl, free, texts⟩ := text_of_plain (plain_of_tokenIn? parsed exact h)
      (accepted_of_not_isFaulty parsed h own fine) shaped ne style same
    have steps := congrArg Prod.snd (List.cons.inj hk).1
    obtain rfl : text = text' := Evaluates.unique ⟨evaluates.clear, free, k, steps⟩ evaluates
    rw [texts, texts']
  · intro alike
    obtain ⟨k, hk⟩ := evaluates.steps
    refine ⟨.single text', (alike rt.path).trans (texts' rt.path), k, ?_⟩
    unfold expandAll CssBody.declarations
    rw [List.map_singleton, hk]

end Exact

end Faithful

/-! ## Declarations of a context over those of the base -/

variable (transforms trees c) in
/-- The tokens of a context as they are converted, each property being declared once. -/
structure DeclaredOnce (list : List CssToken) : Prop extends Converted transforms trees c list where
  features : ∀ ct ∈ list, ct.value.features = []
  nodup : ((declaredFragments list).map Prod.fst).Nodup

/-- The declarations of a context, and under them those of the base. -/
def layers (own base : List CssToken) : List (String × List Fragment) :=
  declaredFragments own ++ declaredFragments base

variable {own base : List CssToken}

theorem DeclaredOnce.finds (once : DeclaredOnce transforms trees c own)
    (h : tokenIn? trees c path = some u) (declared : isDeclared (errorsOf trees c) u = true) :
    ∃ ct, convertToken? transforms (errorsOf trees c) (pathsOf trees c) u = .ok (some ct) ∧
      ct.value.features = [] ∧ ct.path = path ∧ ∀ d ∈ ct.value.body.declarations path,
        Table.find? d.1 (declaredFragments own) = some d.2 := by
  obtain ⟨ct, hct, conv⟩ := once.declared path u h declared
  have same : ct.path = path := (convertToken?_eq_some conv).1.trans (path_of_tokenIn? h)
  exact ⟨ct, conv, once.features ct hct, same, fun d hd =>
    find?_declaredFragments once.nodup hct (same ▸ hd)⟩

theorem DeclaredOnce.supplies (once : DeclaredOnce transforms trees .base base) :
    Supplies transforms trees .base taken (declaredFragments base) := by
  rintro path b u ⟨used, declared, -⟩
  rcases used?_eq_some_iff.1 used with ⟨own, rfl⟩ | ⟨-, own, rfl⟩
  all_goals
    obtain ⟨ct, conv, features, -, finds⟩ := once.finds own declared
    exact ⟨ct, conv, features, finds⟩

/-- **A context over the base** has the declarations of what it uses. -/
theorem supplies_layers (once : DeclaredOnce transforms trees c own)
    (onceBase : DeclaredOnce transforms trees .base base) :
    Supplies transforms trees c ((declaredFragments own).map Prod.fst) (layers own base) := by
  rintro path b u ⟨used, declared, alone⟩
  unfold layers
  simp only [Table.find?_append]
  by_cases same : b = c
  · subst same
    obtain ⟨ct, conv, features, -, finds⟩ := once.finds (tokenIn?_of_used? used) declared
    exact ⟨ct, conv, features, fun d hd => by rw [finds d hd, Option.some_or]⟩
  · obtain ⟨-, here, rfl⟩ := base_of_used? used same
    obtain ⟨ct, conv, features, path', finds⟩ := onceBase.finds here declared
    refine ⟨ct, conv, features, fun d hd => ?_⟩
    rw [Table.find?_eq_none_iff.2 (alone same ct conv d (path' ▸ hd)), Option.none_or, finds d hd]

end Layers

end DesignTokens
