import DesignTokens.Proofs.Compile.Suppression
import DesignTokens.Proofs.Css.Parts
import DesignTokens.Proofs.Resolution.Settled

/-!
# What is written of a token

A token of a context is written with its references if all of them are to tokens that become custom
properties: its own, and those of the base at paths where it has no token with a value. If not, it is
written with its resolved value.

* `tokenIn?`, `errorsOf`, `pathsOf`: the tokens of a context, the errors about them, and the paths
  whose custom properties it may use;
* `used?`: the token whose custom property a context uses at a path; `used?_of_mem_pathsOf`;
* `writtenIn`: what is written of a token; `writtenIn_cases`;
* `references_of_tokenIn?`, `plain_of_tokenIn?`: no reference, and no brace, is left in a resolved value;
* `exists_token?_of_mem_declared`: merged tokens are those of the trees;
* **`exists_operandIn`**: what is written and the resolved value are one value before and after its
  references are replaced, as seen from the context;
* `Converted`: the tokens of a context as they are converted; `convertContext_of_compile`,
  **`converted_of_compile`**.
-/

namespace DesignTokens

section Trees

variable (trees : List Tree)

/-- The token with a value of a context at a path. -/
def tokenIn? (c : Context) (path : String) : Option ResolvedToken :=
  (resolveAll (flatten trees)).token? c path

/-- The errors about tokens of a context. -/
def errorsOf (c : Context) : List Diagnostic :=
  errorsIn (diagnose (flatten trees) (resolveAll (flatten trees))) c

/-- The paths whose custom properties a context may use. -/
def pathsOf (c : Context) : List String :=
  match (resolveAll (flatten trees)).contexts.get? c with
  | some tokens => available
      (declaredInBase (diagnose (flatten trees) (resolveAll (flatten trees)))
        (resolveAll (flatten trees))) (errorsOf trees c) c tokens
  | none => []

/-- What is written of a token of a context: its references, or the values in their place. -/
def writtenIn (c : Context) (t : ResolvedToken) : Json := (operand (pathsOf trees c) t).raw

/-- The token whose custom property a context uses at a path, and the context that declares it: its
own, else that of the base. -/
def used? (c : Context) (path : String) : Option (Context × ResolvedToken) :=
  match tokenIn? trees c path with
  | some u => some (c, u)
  | none => (tokenIn? trees .base path).map (.base, ·)

variable {trees} {c : Context} {path : String} {rt : ResolvedToken}

/-! ## Tokens with values -/

theorem path_of_tokenIn? (h : tokenIn? trees c path = some rt) : rt.path = path := by
  obtain ⟨t, -, rfl, token, -⟩ := denotes_of_token? (keyed_flatten trees) h
  unfold ResolvedToken.path
  rw [token]

theorem mem_values_iff_tokenIn? {tokens : Table String ResolvedToken}
    (found : (resolveAll (flatten trees)).contexts.get? c = some tokens) :
    rt ∈ tokens.values ↔ tokenIn? trees c rt.path = some rt := by
  refine ⟨token?_of_mem_values (keyed_flatten trees) found, fun h => ?_⟩
  unfold tokenIn? Resolution.token? at h
  rw [found, Option.bind_some] at h
  exact Table.mem_values_of_get?_eq_some h

theorem mem_declaredPaths_iff {tokens : Table String ResolvedToken}
    (found : (resolveAll (flatten trees)).contexts.get? c = some tokens) {errors : List Diagnostic} :
    path ∈ declaredPaths errors tokens ↔
      ∃ u, tokenIn? trees c path = some u ∧ isDeclared errors u = true := by
  simp only [declaredPaths, List.mem_map, List.mem_filter, mem_values_iff_tokenIn? found]
  constructor
  · rintro ⟨u, ⟨hu, declared⟩, rfl⟩
    exact ⟨u, hu, declared⟩
  · rintro ⟨u, hu, declared⟩
    have own := path_of_tokenIn? hu
    exact ⟨u, ⟨own ▸ hu, declared⟩, own⟩

theorem used?_eq_some_iff {b : Context} : used? trees c path = some (b, rt) ↔
    tokenIn? trees c path = some rt ∧ b = c ∨
      tokenIn? trees c path = none ∧ tokenIn? trees .base path = some rt ∧ b = .base := by
  unfold used?
  cases tokenIn? trees c path with
  | some u => simp [and_comm, eq_comm]
  | none => simp [and_comm, eq_comm]

theorem path_of_used? {b : Context} (h : used? trees c path = some (b, rt)) : rt.path = path := by
  rcases used?_eq_some_iff.1 h with ⟨own, -⟩ | ⟨-, base, -⟩
  · exact path_of_tokenIn? own
  · exact path_of_tokenIn? base

theorem eq_of_denotes (h : tokenIn? trees c path = some rt) {t : FlatToken}
    (seen : lookup? (flatten trees) c path = some t) {R : Resolved}
    (denotes : Denotes (flatten trees) c t R) : R = ⟨rt.value, rt.type⟩ := by
  obtain ⟨t', ht', rfl, -, value⟩ := denotes_of_token? (keyed_flatten trees) h
  rw [(keyed_flatten trees).lookup?_of_mem_declared ht'] at seen
  cases seen
  exact denotes.unique value

theorem used?_of_mem_pathsOf (h : path ∈ pathsOf trees c) :
    ∃ b u, used? trees c path = some (b, u) ∧ isDeclared (errorsOf trees b) u = true := by
  unfold pathsOf at h
  split at h
  · rename_i tokens found
    have own : path ∈ declaredPaths (errorsOf trees c) tokens →
        ∃ b u, used? trees c path = some (b, u) ∧ isDeclared (errorsOf trees b) u = true := by
      intro h
      obtain ⟨u, hu, declared⟩ := (mem_declaredPaths_iff found).1 h
      exact ⟨c, u, by rw [used?, hu], declared⟩
    unfold available at h
    simp only at h
    split at h
    · exact own h
    · rcases List.mem_append.1 h with h | h
      · exact own h
      · obtain ⟨inBase, absent⟩ := List.mem_filter.1 h
        have none : tokenIn? trees c path = none := by
          unfold tokenIn? Resolution.token?
          rw [found, Option.bind_some]
          simpa [Table.contains] using absent
        unfold declaredInBase at inBase
        split at inBase
        · rename_i base hbase
          obtain ⟨u, hu, declared⟩ := (mem_declaredPaths_iff hbase).1 inBase
          exact ⟨.base, u, by rw [used?, none, hu]; rfl, declared⟩
        · cases inBase
  · cases h

@[simp] theorem resolved_operand (paths : List String) (t : ResolvedToken) :
    (operand paths t).resolved = t.value := by
  unfold operand
  split <;> rfl

theorem substitute_of_operand {paths : List String} {t : ResolvedToken} {j : Json}
    {σ : Reference → Json} (same : operand paths t = j.operand σ) : j.substitute σ = t.value := by
  rw [← resolved_operand paths t, same]
  rfl

theorem raw_of_token {t : FlatToken} (token : rt.token = { t with type := rt.type }) :
    rt.raw = t.value := by
  unfold ResolvedToken.raw
  rw [token]

/-! ## Types of references -/

theorem expectedType?_eq {t : FlatToken} {type : TokenType} (h : t.type = some type)
    (property : Option String) : expectedType? t property = askedType? type property := by
  cases property with
  | none => exact h
  | some p =>
    show t.type.bind (·.property? p) = type.property? p
    rw [h, Option.bind_some]

theorem fits_of_settledType {t : FlatToken} {found : Reference → Resolved} {type : TokenType}
    (compatible : ∀ o ∈ t.uses, Compatible (expectedType? t o.property) (found o.reference).type)
    (settled : settledType t found = some type) {o : Use} (ho : o ∈ t.uses) :
    ∀ e ∈ askedType? type o.property, ∀ f ∈ (found o.reference).type, f.fits e = true := by
  intro e he f hf
  unfold settledType at settled
  cases own : t.type with
  | some known =>
    have same : known = type := by
      rw [own] at settled
      split at settled <;> exact Option.some.inj settled
    rw [← same, ← expectedType?_eq own] at he
    exact compatible o ho e he f hf
  | none =>
    -- the type is that of the only reference
    rw [own] at settled
    cases whole : Reference.ofJson? t.value with
    | none =>
      rw [whole] at settled
      cases settled
    | some r =>
      rw [whole] at settled
      rw [FlatToken.uses_of_alias whole] at ho
      obtain rfl := List.mem_singleton.1 ho
      obtain rfl : type = e := Option.some.inj he
      obtain rfl : f = type := Option.some.inj (hf.symm.trans settled)
      exact fits_iff.2 (.inl rfl)

/-! ## What is written -/

theorem references_of_tokenIn? (h : tokenIn? trees c path = some rt) : rt.value.references = [] := by
  obtain ⟨t, -, -, -, denotes⟩ := denotes_of_token? (keyed_flatten trees) h
  exact denotes.references_eq_nil

/-- What is written is the value as it stands, with references to custom properties only, or it has no
references. -/
theorem writtenIn_cases (h : tokenIn? trees c path = some rt) :
    (writtenIn trees c rt = rt.raw ∧ ∀ r ∈ rt.raw.references, r.path ∈ pathsOf trees c) ∨
      writtenIn trees c rt = rt.value ∧ rt.value.references = [] := by
  unfold writtenIn operand
  split
  · rename_i kept
    exact .inl ⟨rfl, by simpa using kept⟩
  · exact .inr ⟨rfl, references_of_tokenIn? h⟩

theorem mem_pathsOf_of_mem_references (h : tokenIn? trees c path = some rt) {r : Reference}
    (hr : r ∈ (writtenIn trees c rt).references) :
    r ∈ rt.raw.references ∧ r.path ∈ pathsOf trees c := by
  rcases writtenIn_cases h with ⟨written, paths⟩ | ⟨written, none⟩
  · rw [written] at hr
    exact ⟨hr, paths r hr⟩
  · rw [written, none] at hr
    cases hr

/-- **What is written and the resolved value** are one value before and after its references are
replaced, each by the value of a visible token with a type that may stand there. -/
theorem exists_operandIn (h : tokenIn? trees c path = some rt) :
    ∃ found : Reference → Resolved,
      operand (pathsOf trees c) rt = (writtenIn trees c rt).operand (fun r => (found r).value) ∧
      ∀ o ∈ (writtenIn trees c rt).uses none, ∃ u,
        lookup? (flatten trees) c o.reference.path = some u ∧
        Denotes (flatten trees) c u (found o.reference) ∧
        ∀ type ∈ rt.type, ∀ e ∈ askedType? type o.property, ∀ f ∈ (found o.reference).type,
          f.fits e = true := by
  obtain ⟨t, ht, -, token, denotes⟩ := denotes_of_token? (keyed_flatten trees) h
  have raw := raw_of_token token
  generalize hR : (⟨rt.value, rt.type⟩ : Resolved) = R at denotes
  cases denotes with
  | intro target found seen denotes compatible =>
    have value := congrArg Resolved.value hR
    have type := congrArg Resolved.type hR
    refine ⟨found, ?_, fun o ho => ?_⟩
    · have resolved : (writtenIn trees c rt).substitute (fun r => (found r).value) = rt.value := by
        rcases writtenIn_cases h with ⟨written, -⟩ | ⟨written, -⟩
        · rw [written, raw]
          exact value.symm
        · rw [written, Json.substitute_of_references_eq_nil _ (references_of_tokenIn? h)]
      unfold Json.operand
      rw [resolved, ← resolved_operand (pathsOf trees c) rt]
      rfl
    · have used : o ∈ t.uses := by
        rcases writtenIn_cases h with ⟨written, -⟩ | ⟨written, plain⟩
        · rwa [written, raw] at ho
        · rw [Json.references_eq rt.value none, List.map_eq_nil_iff] at plain
          rw [written, plain] at ho
          cases ho
      refine ⟨_, seen o used, denotes o used, fun asked hasked e he f hf => ?_⟩
      exact fits_of_settledType compatible (type.symm.trans hasked) used e he f hf

/-! ## Resolved values without braces -/

theorem exists_token?_of_mem_declared (parsed : ∀ t ∈ trees, t.Parsed) {t : FlatToken}
    (h : t ∈ declared (flatten trees) c) :
    ∃ tree ∈ trees, ∃ token, tree.token? t.path = some token ∧ t.value = token.value := by
  have kept := (keyed_flatten trees).get?_of_mem_declared h
  obtain ⟨f, hf, ht⟩ := Option.bind_eq_some_iff.1 kept
  obtain ⟨-, rfl⟩ := get?_flatten_eq_some_iff.1 hf
  obtain ⟨-, merged⟩ := (get?_ofTrees_eq_some_iff (wellNamed_treesOf parsed) t.path).1 ht
  obtain ⟨last, hlast, same⟩ := Option.map_eq_some_iff.1 merged
  obtain ⟨tree, htree, htoken⟩ := List.mem_filterMap.1 (List.mem_of_getLast? hlast)
  exact ⟨tree, (List.mem_filter.1 htree).1, last, htoken, by rw [← same]⟩

theorem exact_of_mem_declared (parsed : ∀ t ∈ trees, t.Parsed)
    (exact : ∀ t ∈ trees, ∀ path token, t.token? path = some token → token.value.Exact)
    {t : FlatToken} (h : t ∈ declared (flatten trees) c) : t.value.Exact := by
  obtain ⟨tree, htree, token, found, value⟩ := exists_token?_of_mem_declared parsed h
  exact value ▸ exact tree htree _ _ found

theorem exact_of_entries {t : Tree} (parsed : t.Parsed)
    (h : (t.entries.all fun | .token u => decide u.value.Exact | .group .. => true) = true) :
    ∀ path token, t.token? path = some token → token.value.Exact := by
  intro path token found
  have mem : token ∈ tokensOf t.entries path := by
    rw [tokensOf_entries parsed.wellNamed, found]
    exact List.mem_singleton.2 rfl
  exact of_decide_eq_true (List.all_eq_true.1 h _ (mem_tokensOf.1 mem).1)

/-- **All strings in what a token denotes are of one kind**, if those that stay in the values of tokens are. -/
theorem allStrings_of_denotes {P Q : String → Prop}
    (stays : ∀ s, P s → Reference.parse? s = none → Q s) {all : Contexts Flat} {view : Context}
    (own : ∀ t ∈ visible all view, t.value.AllStrings P) {t : FlatToken} (ht : t ∈ visible all view)
    {R : Resolved} (h : Denotes all view t R) : R.value.AllStrings Q := by
  induction h with
  | intro target found seen _ _ ih =>
    exact (own _ ht).substitute stays none fun o ho => ih o ho (mem_visible_of_lookup? (seen o ho))

theorem plain_of_denotes {all : Contexts Flat} {view : Context}
    (exact : ∀ t ∈ visible all view, t.value.Exact) {t : FlatToken} (ht : t ∈ visible all view)
    {R : Resolved} (h : Denotes all view t R) : R.value.Plain :=
  allStrings_of_denotes (fun _ => Json.Exact.braceFree) exact ht h

section Exact

variable (parsed : ∀ t ∈ trees, t.Parsed)
  (exact : ∀ t ∈ trees, ∀ path token, t.token? path = some token → token.value.Exact)

include parsed exact

theorem exact_of_mem_visible {t : FlatToken} (h : t ∈ visible (flatten trees) c) :
    t.value.Exact :=
  (List.mem_append.1 h).elim (exact_of_mem_declared parsed exact) (exact_of_mem_declared parsed exact)

/-- **No brace is left in a resolved value.** -/
theorem plain_of_tokenIn? (h : tokenIn? trees c path = some rt) : rt.value.Plain := by
  obtain ⟨t, ht, -, -, denotes⟩ := denotes_of_token? (keyed_flatten trees) h
  exact plain_of_denotes (fun _ => exact_of_mem_visible parsed exact) (List.mem_append_left _ ht)
    denotes

theorem exact_writtenIn (h : tokenIn? trees c path = some rt) : (writtenIn trees c rt).Exact := by
  obtain ⟨t, ht, -, token, denotes⟩ := denotes_of_token? (keyed_flatten trees) h
  unfold writtenIn operand
  split
  · rw [raw_of_token token]
    exact exact_of_mem_declared parsed exact ht
  · exact allStrings_of_denotes (fun _ exact _ => exact) (fun _ => exact_of_mem_visible parsed exact)
      (List.mem_append_left _ ht) denotes

end Exact

/-! ## Converted tokens -/

/-- The tokens of a context as they are converted. -/
structure Converted (transforms : Transforms) (trees : List Tree) (c : Context)
    (list : List CssToken) : Prop where
  mem : ∀ ct, ct ∈ list ↔ ∃ rt, tokenIn? trees c ct.path = some rt ∧
    convertToken? transforms (errorsOf trees c) (pathsOf trees c) rt = .ok (some ct)
  declared : ∀ path rt, tokenIn? trees c path = some rt → isDeclared (errorsOf trees c) rt = true →
    ∃ ct ∈ list, convertToken? transforms (errorsOf trees c) (pathsOf trees c) rt = .ok (some ct)

theorem converted_of_convertContext {transforms : Transforms} {tokens : Table String ResolvedToken}
    (found : (resolveAll (flatten trees)).contexts.get? c = some tokens) {list : List CssToken}
    (conv : convertContext transforms (errorsOf trees c) (pathsOf trees c) tokens = .ok list) :
    Converted transforms trees c list := by
  obtain ⟨all, mem⟩ := filterMapM_eq_ok conv
  refine ⟨fun ct => ?_, fun path rt hrt declared => ?_⟩
  · rw [mem ct]
    constructor
    · rintro ⟨rt, hrt, hct⟩
      rw [(convertToken?_eq_some hct).1]
      exact ⟨rt, (mem_values_iff_tokenIn? found).1 hrt, hct⟩
    · rintro ⟨rt, hrt, hct⟩
      exact ⟨rt, (mem_values_iff_tokenIn? found).2 (path_of_tokenIn? hrt ▸ hrt), hct⟩
  · have hrt := (mem_values_iff_tokenIn? found).2 (path_of_tokenIn? hrt ▸ hrt)
    obtain ⟨o, ho⟩ := all rt hrt
    obtain ⟨ct, rfl⟩ := convertToken?_of_isDeclared ho declared
    exact ⟨ct, (mem ct).2 ⟨rt, hrt, ho⟩, ho⟩

theorem convertContext_of_compile {modifiers : List Modifier} {settings : Settings} {out : Compiled}
    (h : compile trees modifiers settings = .ok out) {own : List CssToken}
    (hl : out.tokens.get? c = some own) :
    ∃ tokens, (resolveAll (flatten trees)).contexts.get? c = some tokens ∧
      convertContext settings.transforms (errorsOf trees c) (pathsOf trees c) tokens = .ok own := by
  obtain ⟨diagnostics, converted, -⟩ := compile_eq_ok h
  rw [diagnostics] at converted
  rcases convertAll_eq_ok converted c with ⟨-, none⟩ | ⟨tokens, own', found, hl', conv⟩
  · cases none.symm.trans hl
  · obtain rfl : own' = own := Option.some.inj (hl'.symm.trans hl)
    refine ⟨tokens, found, ?_⟩
    unfold pathsOf
    rw [found]
    exact conv

/-- **The tokens of a context that a compilation converts.** -/
theorem converted_of_compile {modifiers : List Modifier} {settings : Settings} {out : Compiled}
    (h : compile trees modifiers settings = .ok out) {list : List CssToken}
    (hl : out.tokens.get? c = some list) : Converted settings.transforms trees c list := by
  obtain ⟨tokens, found, conv⟩ := convertContext_of_compile h hl
  exact converted_of_convertContext found conv

end Trees

end DesignTokens
