import DesignTokens.Proofs.Compile.Suppression
import DesignTokens.Proofs.Css.Failures
import DesignTokens.Proofs.Resolution.Origins

/-!
# Failed compilations

Tokens with an error are left out before the conversion, and it goes through the others: what it still
fails on is a color space, never the shape of a value.

* `exists_operand_eq`: what is converted of a token is a value with references and what they are
  replaced by; `accepted_of_not_faulty`: no rule finds an error in a token that is not left out;
* `avoids_convertToken?`, `avoids_convertAll`: the conversion of one token, and of all contexts;
* **`compile_fails_only`**: how a compilation can fail, and that the conversion of an accepted value
  does not fail in another way.
-/

namespace DesignTokens

variable {trees : List Tree} {c : Context} {rt : ResolvedToken}

/-! ## Tokens that are converted -/

theorem exists_substitute_of_token? {path : String}
    (h : (resolveAll (flatten trees)).token? c path = some rt) :
    ∃ σ, rt.value = rt.raw.substitute σ := by
  obtain ⟨t, -, -, token, denotes⟩ := denotes_of_token? (keyed_flatten trees) h
  have raw : rt.raw = t.value := by
    unfold ResolvedToken.raw
    rw [token]
  generalize hR : (⟨rt.value, rt.type⟩ : Resolved) = R at denotes
  cases denotes with
  | intro target found _ _ _ =>
    exact ⟨fun r => (found r).value, raw ▸ congrArg Resolved.value hR⟩

/-- What is converted of a token is a value with references and what they are replaced by: the value as
written, or the final one, of which nothing is replaced any more. -/
theorem exists_operand_eq {σ : Reference → Json} (h : rt.value = rt.raw.substitute σ)
    (paths : List String) :
    ∃ (j : Json) (τ : Reference → Json), operand paths rt = j.operand τ ∧ j.substitute τ = rt.value := by
  unfold operand
  split
  · exact ⟨rt.raw, σ, congrArg (Operand.mk rt.raw) h, h.symm⟩
  · have same := Json.substitute_text rt.value
    exact ⟨rt.value, _, congrArg (Operand.mk rt.value) same.symm, same⟩

/-- **An error in a token keeps it from being converted**: what is not left out is accepted. -/
theorem accepted_of_not_faulty (h : (resolveAll (flatten trees)).token? c rt.path = some rt)
    (fine : isFaulty (errorsIn (diagnose (flatten trees) (resolveAll (flatten trees))) c) rt.path =
      false) {type : TokenType} (ht : rt.type = some type) : Accepted type rt.value := by
  rw [accepted_iff_lintToken ht]
  rintro ⟨d, hd, error⟩
  obtain ⟨inside, origin⟩ := inside_of_mem_lintToken hd
  have found := mem_diagnose.2 (.inr (.inr ⟨c, rt, h, hd⟩))
  have context : d.origin.context = c := origin ▸ (context_of_token? h).2
  rw [isFaulty_iff.2 ⟨d, found, error, context, covers_iff_inside.2 inside⟩] at fine
  cases fine

/-! ## The conversion -/

variable {transforms : Transforms}

theorem avoids_convertToken? (h : (resolveAll (flatten trees)).token? c rt.path = some rt)
    (paths : List String) :
    AvoidsInvalid (convertToken? transforms
      (errorsIn (diagnose (flatten trees) (resolveAll (flatten trees))) c) paths rt) := by
  unfold convertToken?
  split
  · exact avoids_ok none
  · rename_i fine
    cases ht : rt.type with
    | none => exact avoids_ok none
    | some type =>
      have accepted := accepted_of_not_faulty h (Bool.not_eq_true _ ▸ fine) ht
      obtain ⟨σ, hσ⟩ := exists_substitute_of_token? h
      obtain ⟨j, τ, operands, resolved⟩ := exists_operand_eq hσ paths
      rw [operands]
      exact (avoids_convert? (resolved ▸ accepted)).bind fun _ _ => avoids_ok _

/-- **All contexts.** -/
theorem avoids_convertAll (trees : List Tree) (transforms : Transforms) :
    AvoidsInvalid (convertAll transforms (diagnose (flatten trees) (resolveAll (flatten trees)))
      (resolveAll (flatten trees))) := by
  have keyed := keyed_flatten trees
  unfold convertAll
  refine Avoids.bind (avoids_mapM fun (c, tokens) hc => ?_) fun _ _ => avoids_ok _
  refine Avoids.bind (avoids_filterMapM fun rt hrt => ?_) fun _ _ => avoids_ok _
  have nodup := keys_resolveAll keyed ▸ keyed.contexts
  have get := (Table.get?_eq_some_iff nodup).2 hc
  exact avoids_convertToken? (token?_of_mem_values keyed get hrt) _

/-! ## Whole compilations -/

theorem compile_eq_error {modifiers : List Modifier} {settings : Settings} {e : CompileError}
    (h : compile trees modifiers settings = .error e) :
    (∃ fault, settings.fault? = some fault ∧ e = .settings fault) ∨
      ∃ cause, convertAll settings.transforms (diagnose (flatten trees) (resolveAll (flatten trees)))
        (resolveAll (flatten trees)) = .error cause ∧ e = .convert cause := by
  cases hf : settings.fault? with
  | some fault =>
    unfold compile at h
    rw [hf] at h
    cases h
    exact .inl ⟨fault, rfl, rfl⟩
  | none =>
    rw [compile_of_fault?_eq_none hf] at h
    dsimp only at h
    cases hc : convertAll settings.transforms
        (diagnose (flatten trees) (resolveAll (flatten trees))) (resolveAll (flatten trees)) with
    | ok tokens =>
      rw [hc] at h
      cases h
    | error cause =>
      rw [hc] at h
      cases h
      exact .inr ⟨cause, rfl, rfl⟩

/-- **How a compilation fails.** The settings are at fault, or a color has an unknown color space or
lacks its stand-in. A value never turns out to have the wrong shape: where no rule finds an error in the
value of a token, its conversion does not fail that way, whatever of the value is written as a
reference. -/
theorem compile_fails_only (trees : List Tree) (modifiers : List Modifier) (settings : Settings) :
    (∀ e, compile trees modifiers settings = .error e →
      (∃ fault, settings.fault? = some fault ∧ e = .settings fault) ∨
        ∃ path space, e = .convert (.unsupportedColorSpace path space) ∨
          e = .convert (.missingHexFallback path space)) ∧
    ∀ (t : ResolvedToken) (type : TokenType) (raw : Json) (σ : Reference → Json),
      t.type = some type → t.value = raw.substitute σ →
        (∀ d ∈ lintToken Rule.all t, d.isError = false) →
          ∀ transforms path at' name message,
            convert? transforms path type ⟨raw, t.value⟩ ≠
              .error (.invalidValue at' name message) := by
  constructor
  · intro e h
    rcases compile_eq_error h with fault | ⟨cause, hc, rfl⟩
    · exact .inl fault
    · have avoids := avoids_convertAll trees settings.transforms cause hc
      cases cause with
      | invalidValue path type message => exact absurd trivial avoids
      | unsupportedColorSpace path space => exact .inr ⟨path, space, .inl rfl⟩
      | missingHexFallback path space => exact .inr ⟨path, space, .inr rfl⟩
  · intro t type raw σ ht value fine transforms path at' name message h
    have accepted : Accepted type t.value := by
      rw [accepted_iff_lintToken ht]
      rintro ⟨d, hd, error⟩
      exact Bool.false_ne_true ((fine d hd).symm.trans error)
    rw [value] at accepted h
    exact avoids_convert? accepted _ h trivial

/-! ## A color and an edge -/

/-- A color in a color space that is unknown. -/
def tint : Json := .obj [("colorSpace", .str "lab"),
  ("components", .arr [.num (.integer 1), .num (.integer 2), .num (.integer 3)])]

/-- A tree with this color. -/
def tintTree : Tree where
  context := .base
  tokens := ⟨.empty, [("tint", .token ⟨tint, some .color, none, none, some ⟨"tint.json"⟩⟩)]⟩
  file := ⟨"tint.json"⟩

/-- The color as merged. -/
def tintToken : FlatToken :=
  ⟨"tint", ["tint"], tint, some .color, none, none, ⟨⟨"tint.json"⟩, .base⟩⟩

/-- A border of a color. -/
def edge (color : Json) : Json := .obj [("color", color),
  ("width", .obj [("value", .num (.integer 1)), ("unit", .str "px")]), ("style", .str "solid")]

/-- A border in the color of another token. -/
def edgeToken : ResolvedToken :=
  ⟨⟨"edge", ["edge"], edge (.str "\x7bink\x7d"), some .border, none, none, ⟨⟨"tint.json"⟩, .base⟩⟩,
    edge (.str "#000")⟩

theorem resolveAll_tintTree :
    resolveAll (flatten [tintTree]) = ⟨⟨[(.base, ⟨[("tint", ⟨tintToken, tint⟩)]⟩)]⟩, []⟩ :=
  resolveAll_of_within 1 rfl

/-- The color has no form, and the border has one. -/
theorem compile_tintTree : ∃ e, compile [tintTree] [] .standard = .error e ∧
    (∃ path space, e = .convert (.unsupportedColorSpace path space) ∨
      e = .convert (.missingHexFallback path space)) ∧
    ∀ at' name message, convert? .standard "edge" .border ⟨edgeToken.raw, edgeToken.value⟩ ≠
      .error (.invalidValue at' name message) := by
  obtain ⟨e, h⟩ : ∃ e, compile [tintTree] [] .standard = .error e := by
    rw [compile_of_fault?_eq_none (by decide), resolveAll_tintTree]
    exact ⟨_, rfl⟩
  refine ⟨e, h, ?_, ?_⟩
  · rcases (compile_fails_only [tintTree] [] .standard).1 e h with ⟨fault, hf, -⟩ | space
    · exact absurd (hf.symm.trans (by decide : Settings.standard.fault? = none)) (by simp)
    · exact space
  · exact (compile_fails_only [tintTree] [] .standard).2 edgeToken .border _
      (fun _ => .str "#000") rfl rfl (by decide) .standard "edge"

end DesignTokens
