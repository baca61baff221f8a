import DesignTokens.Proofs.Css.Types
import DesignTokens.Proofs.Css.Written

/-!
# Values as seen from a context

A token that a context uses is its own, or one of the base whose declaration was written as the base
sees it. That one follows the context as far as its references are kept and lead to what the context
declares in their place.

* `Sees`: values as seen from a context; `Leads`: the references that are kept in what it uses;
* `WellSpelledFrom`, `Steady`, `Follows`: a token whose declaration follows the context;
* **`view_of_used?`**: what a context uses is converted as if its value were the one seen from there;
* **`leads_induction`**: induction along what a context uses;
* `Finds`, `Supplies`: the declarations that a context uses; **`carried_of_follows`**: all custom
  properties that a token leads to stand for values as seen from the context.
-/

namespace DesignTokens

open Relation

/-! ## What a context uses -/

section Views

variable (transforms : Transforms) (trees : List Tree) (c : Context)

/-- The value and the type of the token at a path as seen from a context. -/
def Sees (path : String) (R : Resolved) : Prop :=
  ∃ t, lookup? (flatten trees) c path = some t ∧ Denotes (flatten trees) c t R

/-- What is written of a token that a context uses has a reference to another one. -/
def Leads (x y : Context × ResolvedToken) : Prop :=
  ∃ r ∈ (writtenIn trees x.1 x.2).references, used? trees c r.path = some y

/-- The value of a token as seen from a context has the shape of its type, and what is written of it is
spelled out. -/
def WellSpelledFrom (x : Context × ResolvedToken) : Prop :=
  ∀ R, Sees trees c x.2.path R → ∀ type ∈ x.2.type,
    Shaped type R.value ∧ SpelledOut type (writtenIn trees x.1 x.2)

/-- None of the properties of a token of the base has a name that is taken. -/
def Alone (taken : List String) (u : ResolvedToken) : Prop :=
  ∀ ct, convertToken? transforms (errorsOf trees .base) (pathsOf trees .base) u = .ok (some ct) →
    ∀ d ∈ ct.value.body.declarations ct.path, d.1 ∉ taken

/-- A token of the base that a context uses is written in the base as the context would write it. -/
structure Steady (taken : List String) (u : ResolvedToken) : Prop where
  /-- None of its properties has the name of one that the context declares. -/
  alone : Alone transforms trees taken u
  /-- Where the context has a token of its own in place of one that is referred to, it declares it. -/
  current : ∀ r ∈ (writtenIn trees .base u).references, ∀ w, tokenIn? trees c r.path = some w →
    isDeclared (errorsOf trees c) w = true
  /-- As seen from the context it has the same type, and no rule finds an error in it. -/
  accepted : ∀ R, Sees trees c u.path R → R.type = u.type ∧ ∀ type ∈ u.type, Accepted type R.value
  /-- Its value is that in the base; or it is written with its references, and nothing else in the text
  depends on what they stand for. -/
  same : ∀ R, Sees trees c u.path R → R.value = u.value ∨ writtenIn trees .base u = u.raw ∧
    ∀ type ∈ u.type, convert? transforms u.path type ⟨u.raw, u.value⟩ =
      convert? transforms u.path type ⟨u.raw, R.value⟩

/-- The declaration of a token that a context uses follows the context. -/
def Follows (taken : List String) (x : Context × ResolvedToken) : Prop :=
  WellSpelledFrom trees c x ∧ (x.1 ≠ c → Steady transforms trees c taken x.2)

/-- A context uses the declaration of a token at a path. -/
structure Finds (taken : List String) (path : String) (x : Context × ResolvedToken) : Prop where
  used : used? trees c path = some x
  declared : isDeclared (errorsOf trees x.1) x.2 = true
  alone : x.1 ≠ c → Alone transforms trees taken x.2

/-- The declarations have all those that a context uses. -/
def Supplies (taken : List String) (decls : List (String × List Fragment)) : Prop :=
  ∀ path b u, Finds transforms trees c taken path (b, u) →
    ∃ ct, convertToken? transforms (errorsOf trees b) (pathsOf trees b) u = .ok (some ct) ∧
      ct.value.features = [] ∧
      ∀ d ∈ ct.value.body.declarations path, Table.find? d.1 decls = some d.2

variable {transforms trees c} {taken : List String} {decls : List (String × List Fragment)}
  {path : String} {b : Context} {u : ResolvedToken}

theorem tokenIn?_of_used? (used : used? trees c path = some (b, u)) : tokenIn? trees b path = some u := by
  rcases used?_eq_some_iff.1 used with ⟨own, rfl⟩ | ⟨-, base, rfl⟩
  · exact own
  · exact base

theorem sees_of_tokenIn? (h : tokenIn? trees c path = some u) : Sees trees c path ⟨u.value, u.type⟩ := by
  obtain ⟨t, ht, rfl, -, denotes⟩ := denotes_of_token? (keyed_flatten trees) h
  exact ⟨t, (keyed_flatten trees).lookup?_of_mem_declared ht, denotes⟩

theorem base_of_used? (used : used? trees c path = some (b, u)) (ne : b ≠ c) :
    tokenIn? trees c path = none ∧ tokenIn? trees .base path = some u ∧ b = .base := by
  rcases used?_eq_some_iff.1 used with ⟨-, same⟩ | base
  · exact absurd same ne
  · exact base

theorem operand_eq (b : Context) (u : ResolvedToken) :
    operand (pathsOf trees b) u = ⟨writtenIn trees b u, u.value⟩ := by
  rw [← resolved_operand (pathsOf trees b) u]
  rfl

theorem mem_declared_base (absent : tokenIn? trees c path = none) {t : FlatToken}
    (look : lookup? (flatten trees) c path = some t) {R : Resolved}
    (denotes : Denotes (flatten trees) c t R) : t ∈ declared (flatten trees) .base := by
  rcases List.mem_append.1 (mem_visible_of_lookup? look) with own | base
  · rcases token?_or_error (keyed_flatten trees) own with ⟨rt, hrt⟩ | ⟨unsound, -⟩
    · rw [(keyed_flatten trees).path_of_lookup? look] at hrt
      cases absent.symm.trans hrt
    · exact absurd denotes.sound unsound
  · exact base

theorem raw_of_used? (used : used? trees c path = some (b, u)) {t : FlatToken}
    (look : lookup? (flatten trees) c path = some t) {R : Resolved}
    (denotes : Denotes (flatten trees) c t R) : u.raw = t.value := by
  have keyed := keyed_flatten trees
  rcases used?_eq_some_iff.1 used with ⟨own, rfl⟩ | ⟨absent, base, rfl⟩
  · obtain ⟨t', ht', rfl, token, -⟩ := denotes_of_token? keyed own
    obtain rfl := Option.some.inj ((keyed.lookup?_of_mem_declared ht').symm.trans look)
    exact raw_of_token token
  · obtain ⟨t', ht', rfl, token, -⟩ := denotes_of_token? keyed base
    obtain rfl := keyed.eq_of_path ht' (mem_declared_base absent look denotes)
      (keyed.path_of_lookup? look)
    exact raw_of_token token

theorem steady_of_whole {r : Reference} (whole : Reference.ofJson? u.raw = some r)
    (style : u.type ≠ some .typography) (kept : writtenIn trees .base u = u.raw)
    (alone : Alone transforms trees taken u)
    (current : ∀ w, tokenIn? trees c r.path = some w → isDeclared (errorsOf trees c) w = true)
    (accepted : ∀ R, Sees trees c u.path R → R.type = u.type ∧ ∀ type ∈ u.type, Accepted type R.value) :
    Steady transforms trees c taken u := by
  refine ⟨alone, fun r' hr => ?_, accepted, fun R _ => .inr ⟨kept, fun type ht => ?_⟩⟩
  · rw [kept, Json.references_of_reference whole] at hr
    obtain rfl : r' = r := by simpa using hr
    exact current
  · have ne : type ≠ .typography := fun same => style (same ▸ ht)
    rw [convert?_of_whole (o := ⟨u.raw, _⟩) whole ne, convert?_of_whole (o := ⟨u.raw, _⟩) whole ne]

section Parsed

variable (parsed : ∀ t ∈ trees, t.Parsed)

include parsed

theorem accepted_of_not_isFaulty (h : tokenIn? trees b path = some u) {type : TokenType}
    (ht : u.type = some type) (fine : isFaulty (errorsOf trees b) u.path = false) :
    Accepted type u.value := by
  rw [accepted_iff_lintToken ht, ← isFaulty_iff_lintToken parsed h, ← path_of_tokenIn? h]
  unfold errorsOf at fine
  rw [fine]
  exact Bool.false_ne_true

/-- **What a context uses** is converted as if its value were the one seen from the context. -/
theorem view_of_used? (used : used? trees c path = some (b, u))
    (fine : isFaulty (errorsOf trees b) u.path = false)
    (steady : b ≠ c → Steady transforms trees c taken u) {t : FlatToken}
    (look : lookup? (flatten trees) c path = some t) {R : Resolved}
    (denotes : Denotes (flatten trees) c t R) :
    R.type = u.type ∧ (writtenIn trees b u = t.value ∨ writtenIn trees b u = R.value) ∧
      ∀ type ∈ u.type, Accepted type R.value ∧
        convert? transforms u.path type (operand (pathsOf trees b) u) =
          convert? transforms u.path type ⟨writtenIn trees b u, R.value⟩ := by
  have here := tokenIn?_of_used? used
  have raw := raw_of_used? used look denotes
  rw [operand_eq]
  by_cases own : b = c
  · subst own
    obtain rfl := eq_of_denotes here look denotes
    refine ⟨rfl, ?_, fun type ht => ⟨accepted_of_not_isFaulty parsed here ht fine, rfl⟩⟩
    exact (writtenIn_cases here).imp (·.1.trans raw) (·.1)
  · obtain ⟨-, -, rfl⟩ := base_of_used? used own
    have steady := steady own
    have sees : Sees trees c u.path R := ⟨t, path_of_tokenIn? here ▸ look, denotes⟩
    obtain ⟨type, accepted⟩ := steady.accepted R sees
    rcases steady.same R sees with same | ⟨kept, texts⟩
    · refine ⟨type, ?_, fun type ht => ⟨accepted type ht, by rw [same]⟩⟩
      exact (writtenIn_cases here).imp (·.1.trans raw) (same ▸ ·.1)
    · exact ⟨type, .inl (kept.trans raw), fun type ht => ⟨accepted type ht, kept ▸ texts type ht⟩⟩

end Parsed

theorem exists_used_of_mem_references (used : used? trees c path = some (b, u))
    (steady : b ≠ c → Steady transforms trees c taken u) {r : Reference}
    (hr : r ∈ (writtenIn trees b u).references) :
    ∃ b' u', used? trees c r.path = some (b', u') ∧ isDeclared (errorsOf trees b') u' = true := by
  have kept := mem_pathsOf_of_mem_references (tokenIn?_of_used? used) hr
  obtain ⟨b', u', used', declared⟩ := used?_of_mem_pathsOf kept.2
  by_cases own : b = c
  · subst own
    exact ⟨b', u', used', declared⟩
  · obtain ⟨-, -, rfl⟩ := base_of_used? used own
    cases here : tokenIn? trees c r.path with
    | some w => exact ⟨c, w, used?_eq_some_iff.2 (.inl ⟨here, rfl⟩), (steady own).current r hr w here⟩
    | none =>
      obtain ⟨base, rfl⟩ : tokenIn? trees .base r.path = some u' ∧ b' = .base := by
        rcases used?_eq_some_iff.1 used' with ⟨own, same⟩ | ⟨-, base, same⟩
        · exact ⟨own, same⟩
        · exact ⟨base, same⟩
      exact ⟨.base, u', used?_eq_some_iff.2 (.inr ⟨here, base, rfl⟩), declared⟩

/-- **Induction along what a context uses.** -/
theorem leads_induction {P : Context × ResolvedToken → Prop}
    (step : ∀ x, used? trees c x.2.path = some x → (∀ y, Leads trees c x y → P y) → P x)
    {R : Resolved} (sees : Sees trees c path R) {x : Context × ResolvedToken}
    (used : used? trees c path = some x) : P x := by
  obtain ⟨t, look, denotes⟩ := sees
  induction denotes generalizing path x with
  | @intro t target found seen denotes compatible ih =>
    have whole : Denotes (flatten trees) c t _ := .intro target found seen denotes compatible
    refine step x (path_of_used? used ▸ used) fun y ⟨r, hr, hy⟩ => ?_
    have inside := (mem_pathsOf_of_mem_references (tokenIn?_of_used? used) hr).1
    rw [raw_of_used? used look whole, Json.references_eq _ none] at inside
    obtain ⟨o, ho, rfl⟩ := List.mem_map.1 inside
    exact ih o ho hy (seen o ho)

section Exact

variable (parsed : ∀ t ∈ trees, t.Parsed)
  (exact : ∀ t ∈ trees, ∀ path token, t.token? path = some token → token.value.Exact)

include parsed exact

/-- The references in a declaration that a context uses are to custom properties that stand for values as
seen from the context, if those that it leads to are. -/
theorem draws_of_used? (used : used? trees c path = some (b, u))
    (fine : isFaulty (errorsOf trees b) u.path = false)
    (steady : b ≠ c → Steady transforms trees c taken u)
    (carried : ∀ y, Leads trees c (b, u) y → isDeclared (errorsOf trees y.1) y.2 = true →
      ∀ R, Sees trees c y.2.path R → ∃ type, R.type = some type ∧
        Carried transforms decls y.2.path type R.value)
    {type : TokenType} (ht : u.type = some type) {R : Resolved} (sees : Sees trees c path R) :
    ∃ σ, Draws transforms decls σ type none (writtenIn trees b u) ∧
      (writtenIn trees b u).substitute σ = R.value := by
  obtain ⟨t, look, denotes⟩ := sees
  have plain : R.value.Plain :=
    plain_of_denotes (fun _ => exact_of_mem_visible parsed exact) (mem_visible_of_lookup? look) denotes
  obtain ⟨settled, written, -⟩ := view_of_used? parsed used fine steady look denotes
  cases denotes with
  | intro target found seen denotes compatible =>
    refine ⟨fun r => (found r).value, fun o ho => ?_, ?_⟩
    · have inside : o ∈ t.uses := by
        rcases written with same | same
        · rwa [same] at ho
        · have empty := references_of_plain plain
          rw [Json.references_eq _ none, List.map_eq_nil_iff] at empty
          rw [same, empty] at ho
          cases ho
      have kept : o.reference ∈ (writtenIn trees b u).references := by
        rw [Json.references_eq _ none]
        exact List.mem_map_of_mem ho
      obtain ⟨b', u', used', declared'⟩ := exists_used_of_mem_references used steady kept
      have own := path_of_used? used'
      obtain ⟨f, hf, carried⟩ := carried (b', u') ⟨o.reference, kept, used'⟩ declared' _
        ⟨_, own ▸ seen o inside, denotes o inside⟩
      rw [own] at carried
      exact ⟨f, carried, fun e he =>
        fits_of_settledType compatible (settled.trans ht) inside e he f hf⟩
    · rcases written with same | same
      · rw [same]
      · rw [same]
        exact Json.substitute_of_plain _ plain

/-- **One declaration** that a context uses, if those that it leads to stand for values as seen from the
context. -/
theorem renders_of_used? (used : used? trees c path = some (b, u))
    (steady : b ≠ c → Steady transforms trees c taken u)
    (carried : ∀ y, Leads trees c (b, u) y → isDeclared (errorsOf trees y.1) y.2 = true →
      ∀ R, Sees trees c y.2.path R → ∃ type, R.type = some type ∧
        Carried transforms decls y.2.path type R.value)
    {ct : CssToken}
    (conv : convertToken? transforms (errorsOf trees b) (pathsOf trees b) u = .ok (some ct))
    (features : ct.value.features = []) (ne : ct.type ≠ .gradient) {R : Resolved}
    (sees : Sees trees c path R) (shaped : Shaped ct.type R.value) (names : Prop)
    (quotable : names → (writtenIn trees b u).Quotable) :
    ∃ value, (∀ path', convert? transforms path' ct.type ⟨R.value, R.value⟩ =
        .ok (some ⟨value, []⟩)) ∧
      BodyRenders decls names (SpelledOut ct.type (writtenIn trees b u)) ct.value.body value := by
  obtain ⟨fine, type, conv, -, -⟩ := convertToken?_eq_some_iff.1 conv
  obtain ⟨σ, draws, resolved⟩ := draws_of_used? parsed exact used fine steady carried type sees
  obtain ⟨t, look, denotes⟩ := sees
  have plain : R.value.Plain :=
    plain_of_denotes (fun _ => exact_of_mem_visible parsed exact) (mem_visible_of_lookup? look) denotes
  obtain ⟨-, -, view⟩ := view_of_used? parsed used fine steady look denotes
  obtain ⟨accepted, same⟩ := view ct.type type
  have body : ct.value = ⟨ct.value.body, []⟩ := by rw [← features]
  rw [same, body, ← resolved] at conv
  rw [← resolved] at shaped plain accepted ⊢
  exact renders_convert? draws plain accepted shaped ne quotable conv

/-- **The custom properties that a context uses stand for values as seen from it**, if all declarations
that they lead to follow the context. -/
theorem carried_of_follows (supplies : Supplies transforms trees c taken decls) {x : Context × ResolvedToken}
    (used : used? trees c path = some x) (declared : isDeclared (errorsOf trees x.1) x.2 = true)
    (follows : ∀ y, ReflTransGen (Leads trees c) x y → Follows transforms trees c taken y)
    {R : Resolved} (sees : Sees trees c path R) :
    ∃ type, R.type = some type ∧ Carried transforms decls path type R.value := by
  obtain rfl := path_of_used? used
  refine leads_induction (P := fun x => isDeclared (errorsOf trees x.1) x.2 = true →
    (∀ y, ReflTransGen (Leads trees c) x y → Follows transforms trees c taken y) →
      ∀ R, Sees trees c x.2.path R → ∃ type, R.type = some type ∧
        Carried transforms decls x.2.path type R.value) ?_ sees used declared follows R sees
  rintro ⟨b, u⟩ used ih declared follows R sees
  obtain ⟨spelled, steady⟩ := follows (b, u) .refl
  obtain ⟨ct, conv, features, finds⟩ := supplies u.path b u ⟨used, declared, fun ne => (steady ne).alone⟩
  obtain ⟨fine, type, -, -, -⟩ := convertToken?_eq_some_iff.1 conv
  obtain ⟨shaped, out⟩ := spelled R sees ct.type type
  obtain ⟨t, look, denotes⟩ := id sees
  obtain ⟨settled, -, view⟩ := view_of_used? parsed used fine steady look denotes
  have plain : R.value.Plain :=
    plain_of_denotes (fun _ => exact_of_mem_visible parsed exact) (mem_visible_of_lookup? look) denotes
  refine ⟨ct.type, settled.trans type, (view ct.type type).1, shaped, plain, fun ne => ?_⟩
  obtain ⟨value, same, renders⟩ := renders_of_used? parsed exact used steady
    (fun y leads declared => ih y leads declared fun z reaches => follows z (.head leads reaches))
    conv features ne sees shaped False False.elim
  exact ⟨ct.value.body, value, finds, renders.evaluates out, same⟩

end Exact

end Views

end DesignTokens
