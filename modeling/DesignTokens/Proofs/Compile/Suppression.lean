import DesignTokens.Proofs.Compile.Findings
import DesignTokens.Proofs.Resolution.Bounded

/-!
# What is left out of stylesheets

A token can be lost at four stages: the trees contradict each other, a reference fails, an error is
found in its value, or its type has no form in stylesheets. Nothing is lost without one of these, and
no token is lost through another one.

* `convertToken?_eq_some_iff`: what a token is converted to; `convertToken?_of_isDeclared`: conversion leaves
  out faulty tokens, and no others of a known type;
* `convertAll_eq_ok`, `compile_eq_ok`: what a conversion and a compilation without failure are made of;
* **`compile_covers`**: every token of a tree is converted, or covered by an error, or without a known
  type; and with a known type it is left out exactly if an error was found in it.
-/

namespace DesignTokens

/-! ## Conversion -/

theorem isSome_convert? {transforms : Transforms} {path : String} {type : TokenType} {o : Operand}
    {v : Option CssValue} (h : convert? transforms path type o = .ok v) (known : type.isKnown = true) :
    v.isSome = true := by
  unfold convert? at h
  cases hr : Reference.ofJson? o.raw with
  | some r =>
    rw [hr] at h
    cases type <;> cases h <;> rfl
  | none =>
    rw [hr] at h
    cases type with
    | unknown name => cases known
    | color | fluidDimension | typography | shadow | border | gradient =>
      obtain ⟨_, -, rfl⟩ := map_eq_ok.1 h
      rfl
    | dimension | duration | cubicBezier | number | fontFamily | fontWeight | transition
      | strokeStyle =>
      cases h
      rfl

section Convert

variable {transforms : Transforms} {errors : List Diagnostic} {paths : List String}

/-- **What a token is converted to.** -/
theorem convertToken?_eq_some_iff {t : ResolvedToken} {ct : CssToken} :
    convertToken? transforms errors paths t = .ok (some ct) ↔
      isFaulty errors t.path = false ∧ t.type = some ct.type ∧
        convert? transforms t.path ct.type (operand paths t) = .ok (some ct.value) ∧
          ct.path = t.path ∧ ct.origin = t.token.origin := by
  unfold convertToken?
  cases faulty : isFaulty errors t.path with
  | true => simp
  | false =>
    cases t.type with
    | none => simp
    | some type =>
      rw [if_neg Bool.false_ne_true]
      show (convert? transforms t.path type (operand paths t) >>= _) = _ ↔ _
      rw [bind_eq_ok]
      constructor
      · rintro ⟨v, hv, h⟩
        obtain ⟨v, rfl, rfl⟩ := Option.map_eq_some_iff.1 (Except.ok.inj h)
        exact ⟨rfl, rfl, hv, rfl, rfl⟩
      · rintro ⟨-, same, hv, path, origin⟩
        obtain rfl := Option.some.inj same
        refine ⟨_, hv, ?_⟩
        cases ct
        cases path
        cases origin
        rfl

theorem convertToken?_eq_some {t : ResolvedToken} {ct : CssToken}
    (h : convertToken? transforms errors paths t = .ok (some ct)) :
    ct.path = t.path ∧ isFaulty errors t.path = false := by
  obtain ⟨fine, -, -, own, -⟩ := convertToken?_eq_some_iff.1 h
  exact ⟨own, fine⟩

theorem convertToken?_of_isDeclared {t : ResolvedToken} {r : Option CssToken}
    (h : convertToken? transforms errors paths t = .ok r) (decl : isDeclared errors t = true) :
    ∃ ct, r = some ct := by
  unfold isDeclared at decl
  obtain ⟨faulty, known⟩ := Bool.and_eq_true_iff.1 decl
  unfold convertToken? at h
  rw [Bool.not_eq_eq_eq_not.1 faulty] at h
  cases ht : t.type with
  | none => rw [ht] at known; cases known
  | some type =>
    rw [ht] at h known
    obtain ⟨v, hv, h⟩ := bind_eq_ok.1 h
    obtain ⟨v, rfl⟩ := Option.isSome_iff_exists.1 (isSome_convert? hv known)
    exact ⟨_, (Except.ok.inj h).symm⟩

variable {tokens : Table String ResolvedToken} {converted : List CssToken}
  (h : convertContext transforms errors paths tokens = .ok converted)

include h

theorem not_faulty_of_mem_convertContext {ct : CssToken} (hct : ct ∈ converted) :
    isFaulty errors ct.path = false := by
  obtain ⟨t, -, ht⟩ := ((filterMapM_eq_ok h).2 ct).1 hct
  obtain ⟨path, fine⟩ := convertToken?_eq_some ht
  rw [path, fine]

theorem mem_convertContext_of_isDeclared {t : ResolvedToken} (ht : t ∈ tokens.values)
    (decl : isDeclared errors t = true) : ∃ ct ∈ converted, ct.path = t.path := by
  obtain ⟨all, mem⟩ := filterMapM_eq_ok h
  obtain ⟨r, hr⟩ := all t ht
  obtain ⟨ct, rfl⟩ := convertToken?_of_isDeclared hr decl
  exact ⟨ct, (mem ct).2 ⟨t, ht, hr⟩, (convertToken?_eq_some hr).1⟩

end Convert

/-- The paths of the base whose tokens become custom properties. -/
def declaredInBase (diagnostics : List Diagnostic) (r : Resolution) : List String :=
  match r.contexts.get? .base with
  | some tokens => declaredPaths (errorsIn diagnostics .base) tokens
  | none => []

theorem convertAll_eq_ok {transforms : Transforms} {diagnostics : List Diagnostic} {r : Resolution}
    {converted : Contexts (List CssToken)} (h : convertAll transforms diagnostics r = .ok converted)
    (c : Context) :
    r.contexts.get? c = none ∧ converted.get? c = none ∨
      ∃ tokens list, r.contexts.get? c = some tokens ∧ converted.get? c = some list ∧
        convertContext transforms (errorsIn diagnostics c)
          (available (declaredInBase diagnostics r) (errorsIn diagnostics c) c tokens) tokens =
            .ok list := by
  unfold convertAll at h
  obtain ⟨entries, he, h⟩ := bind_eq_ok.1 h
  cases h
  have each := mapM_eq_ok.1 he
  rcases Table.find?_of_forall₂ (fun hab => by
      obtain ⟨list, -, same⟩ := bind_eq_ok.1 hab
      cases same
      rfl) each c with none | ⟨tokens, list, ht, hl, hc⟩
  · exact .inl none
  · obtain ⟨list', hc, same⟩ := bind_eq_ok.1 hc
    cases same
    exact .inr ⟨tokens, list, ht, hl, hc⟩

/-! ## Whole compilations -/

theorem compile_of_fault?_eq_none {trees : List Tree} {modifiers : List Modifier}
    {settings : Settings} (fine : settings.fault? = none) :
    compile trees modifiers settings = do
      let diagnostics := diagnose (flatten trees) (resolveAll (flatten trees))
      let tokens ← (convertAll settings.transforms diagnostics (resolveAll (flatten trees))).mapError
        CompileError.convert
      return ⟨generate modifiers settings.output tokens, diagnostics, modifiers, tokens⟩ := by
  unfold compile
  rw [fine]

theorem compile_of_convertAll {trees : List Tree} {modifiers : List Modifier} {settings : Settings}
    (fine : settings.fault? = none) {diagnostics : List Diagnostic}
    (found : diagnose (flatten trees) (resolveAll (flatten trees)) = diagnostics)
    {tokens : Contexts (List CssToken)}
    (converted : convertAll settings.transforms diagnostics (resolveAll (flatten trees)) = .ok tokens) :
    compile trees modifiers settings =
      .ok ⟨generate modifiers settings.output tokens, diagnostics, modifiers, tokens⟩ := by
  rw [compile_of_fault?_eq_none fine, found]
  show (convertAll _ _ _).mapError _ >>= _ = _
  rw [converted]
  rfl

theorem compile_eq_ok {trees : List Tree} {modifiers : List Modifier} {settings : Settings}
    {out : Compiled} (h : compile trees modifiers settings = .ok out) :
    out.diagnostics = diagnose (flatten trees) (resolveAll (flatten trees)) ∧
      convertAll settings.transforms out.diagnostics (resolveAll (flatten trees)) = .ok out.tokens ∧
      out.files = generate modifiers settings.output out.tokens ∧ out.modifiers = modifiers := by
  cases hf : settings.fault? with
  | some fault =>
    unfold compile at h
    rw [hf] at h
    cases h
  | none =>
    rw [compile_of_fault?_eq_none hf] at h
    obtain ⟨tokens, ht, h⟩ := bind_eq_ok.1 h
    cases h
    exact ⟨rfl, mapError_eq_ok.1 ht, rfl, rfl⟩

/-- The token of a context at a path is converted. -/
def Compiled.converts (out : Compiled) (c : Context) (path : String) : Prop :=
  ∃ list, out.tokens.get? c = some list ∧ ∃ ct ∈ list, ct.path = path

/-- An error of a context covers the token at a path. -/
def Compiled.reports (out : Compiled) (c : Context) (path : String) : Prop :=
  ∃ d ∈ out.diagnostics, d.isError = true ∧ d.origin.context = c ∧ d.covers path = true

section Compile

variable {trees : List Tree} {modifiers : List Modifier} {settings : Settings} {out : Compiled}
  (h : compile trees modifiers settings = .ok out) {c : Context} {path : String}

include h

theorem reports_iff : out.reports c path ↔
    isFaulty (errorsIn (diagnose (flatten trees) (resolveAll (flatten trees))) c) path = true := by
  rw [← (compile_eq_ok h).1]
  exact isFaulty_iff.symm

theorem not_reports_of_converts (conv : out.converts c path) : ¬ out.reports c path := by
  obtain ⟨list, hl, ct, hct, rfl⟩ := conv
  obtain ⟨diagnostics, converted, -⟩ := compile_eq_ok h
  rw [reports_iff h, ← diagnostics]
  rcases convertAll_eq_ok converted c with ⟨-, none⟩ | ⟨_, list', -, hl', hc⟩
  · rw [none] at hl
    cases hl
  · obtain rfl : list' = list := Option.some.inj (hl'.symm.trans hl)
    rw [not_faulty_of_mem_convertContext hc hct]
    exact Bool.false_ne_true

theorem converts_of_not_reports (parsed : ∀ t ∈ trees, t.Parsed) {rt : ResolvedToken}
    (hrt : (resolveAll (flatten trees)).token? c path = some rt) {type : TokenType}
    (ht : rt.type = some type) (known : type.isKnown = true) (fine : ¬ out.reports c path) :
    out.converts c path := by
  obtain ⟨diagnostics, converted, -⟩ := compile_eq_ok h
  rw [reports_iff h, ← diagnostics, Bool.not_eq_true] at fine
  obtain ⟨tokens, htokens, hget⟩ := Option.bind_eq_some_iff.1 hrt
  obtain ⟨own, -, -⟩ := mergeable_of_token? parsed hrt
  have decl : isDeclared (errorsIn out.diagnostics c) rt = true := by
    simp [isDeclared, own, fine, ht, known]
  rcases convertAll_eq_ok converted c with ⟨none, -⟩ | ⟨tokens', list, ht', hl, hc⟩
  · rw [none] at htokens
    cases htokens
  · obtain rfl : tokens' = tokens := Option.some.inj (ht'.symm.trans htokens)
    obtain ⟨ct, hct, path'⟩ :=
      mem_convertContext_of_isDeclared hc (Table.mem_values_of_get?_eq_some hget) decl
    exact ⟨list, hl, ct, hct, path'.trans own⟩

theorem token?_or_reports (parsed : ∀ t ∈ trees, t.Parsed) {t : Tree} (ht : t ∈ trees)
    (token : (t.token? path).isSome) :
    (∃ rt, (resolveAll (flatten trees)).token? t.context path = some rt) ∨
      out.reports t.context path := by
  rw [reports_iff h]
  have some : tokensAt (treesOf trees t.context) path ≠ [] := by
    obtain ⟨u, hu⟩ := Option.isSome_iff_exists.1 token
    exact List.ne_nil_of_mem (List.mem_filterMap.2 ⟨t, List.mem_filter.2 ⟨ht, by simp⟩, hu⟩)
  by_cases mergeable : Mergeable (treesOf trees t.context) path
  · exact token?_or_isFaulty parsed mergeable
  · exact .inr (isFaulty_of_not_mergeable parsed some mergeable)

end Compile

/-- **No token is lost in silence.** In trees of documents, every token of a tree is converted without
an error that covers it, or it is covered by an error, or it has a value without a known type. And **no
token is lost through another one**: with a value of a known type it is left out exactly if an error
was found in that value. -/
theorem compile_covers {trees : List Tree} (parsed : ∀ t ∈ trees, t.Parsed)
    {modifiers : List Modifier} {settings : Settings} {out : Compiled}
    (h : compile trees modifiers settings = .ok out) (c : Context) (path : String) :
    ((∃ t ∈ trees, t.context = c ∧ (t.token? path).isSome) →
      (out.converts c path ∧ ¬ out.reports c path) ∨ out.reports c path ∨
        ∃ rt, (resolveAll (flatten trees)).token? c path = some rt ∧
          (rt.type = none ∨ ∃ name, rt.type = some (.unknown name))) ∧
    ∀ rt, (resolveAll (flatten trees)).token? c path = some rt →
      ∀ type, rt.type = some type → type.isKnown = true →
        (¬ out.converts c path ↔ ∃ d ∈ lintToken Rule.all rt, d.isError = true) := by
  refine ⟨?_, fun rt hrt type ht known => ?_⟩
  · rintro ⟨t, htrees, rfl, token⟩
    by_cases bad : out.reports t.context path
    · exact .inr (.inl bad)
    rcases token?_or_reports h parsed htrees token with ⟨rt, hrt⟩ | bad'
    · cases ht : rt.type with
      | none => exact .inr (.inr ⟨rt, hrt, .inl ht⟩)
      | some type =>
        cases type with
        | unknown name => exact .inr (.inr ⟨rt, hrt, .inr ⟨name, ht⟩⟩)
        | _ => exact .inl ⟨converts_of_not_reports h parsed hrt ht rfl bad, bad⟩
    · exact absurd bad' bad
  · rw [← isFaulty_iff_lintToken parsed hrt, ← reports_iff h]
    constructor
    · intro not
      by_contra fine
      exact not (converts_of_not_reports h parsed hrt ht known fine)
    · exact fun bad conv => not_reports_of_converts h conv bad

/-! ## Two colors -/

/-- A color that can be converted and one that cannot. -/
def paintTree : Tree where
  context := .base
  tokens := ⟨.empty, [
    ("bg", .token ⟨.str "#fff", some .color, none, none, some ⟨"paint.json"⟩⟩),
    ("rim", .token ⟨.str "#ff", some .color, none, none, some ⟨"paint.json"⟩⟩)]⟩
  file := ⟨"paint.json"⟩

/-- The document of these colors. -/
def paintDocument : Json := .obj [
  ("bg", .obj [("$type", .str "color"), ("$value", .str "#fff")]),
  ("rim", .obj [("$type", .str "color"), ("$value", .str "#ff")])]

theorem parsed_paintTree : paintTree.Parsed := by
  refine ⟨⟨"paint.json"⟩, paintDocument, ?_, rfl⟩
  simp [paintDocument, Json.Distinct, Json.MembersDistinct]

/-- A merged color. -/
def paintToken (path value : String) : FlatToken :=
  ⟨path, [path], .str value, some .color, none, none, ⟨⟨"paint.json"⟩, .base⟩⟩

theorem resolveAll_paintTree : resolveAll (flatten [paintTree]) =
    ⟨⟨[(.base, ⟨[("bg", ⟨paintToken "bg" "#fff", .str "#fff"⟩),
      ("rim", ⟨paintToken "rim" "#ff", .str "#ff"⟩)]⟩)]⟩, []⟩ :=
  resolveAll_of_within 1 rfl

/-- The first color is converted and the second one is left out. -/
theorem compile_paintTree : (∀ t ∈ [paintTree], t.Parsed) ∧
    ∃ out, compile [paintTree] [] .standard = .ok out ∧
      out.converts .base "bg" ∧ ¬ out.converts .base "rim" := by
  have parsed : ∀ t ∈ [paintTree], t.Parsed := by simpa using parsed_paintTree
  have bg : (resolveAll (flatten [paintTree])).token? .base "bg" =
      some ⟨paintToken "bg" "#fff", .str "#fff"⟩ := by rw [resolveAll_paintTree]; rfl
  have rim : (resolveAll (flatten [paintTree])).token? .base "rim" =
      some ⟨paintToken "rim" "#ff", .str "#ff"⟩ := by rw [resolveAll_paintTree]; rfl
  obtain ⟨out, h⟩ : ∃ out, compile [paintTree] [] .standard = .ok out := by
    rw [compile_of_fault?_eq_none (by decide), resolveAll_paintTree]
    exact ⟨_, rfl⟩
  refine ⟨parsed, out, h, ?_, ?_⟩
  · refine Classical.not_not.1 (mt ((compile_covers parsed h .base "bg").2 _ bg .color rfl rfl).1 ?_)
    decide
  · refine ((compile_covers parsed h .base "rim").2 _ rim .color rfl rfl).2 ?_
    decide

end DesignTokens
