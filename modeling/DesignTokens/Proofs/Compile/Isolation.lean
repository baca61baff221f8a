import DesignTokens.Proofs.Compile.Overlays
import DesignTokens.Proofs.Resolution.Isolation
import DesignTokens.Proofs.Resolution.Origins

/-!
# Overlays by themselves

Two compilations of trees that have the same base and the same overlay, in any order and between any
other overlays. The walk shares one memo between all contexts, the findings of all contexts are in one
list, and what a context may refer to depends on the base: none of this lets another overlay through.

* `sameView_flatten`: the same trees are merged to the same tokens;
* `Compiled.diagnosticsIn`, **`filter_diagnose`**: the findings of a context are read off its own
  tokens and outcomes;
* `get?_tokens_congr`: so are its custom properties, given the paths that the base declares;
* **`compile_isolated`**: no overlay has a share in the base or in another overlay.
-/

namespace DesignTokens

/-! ## The same trees -/

section Trees

variable {trees trees' : List Tree} {c : Context}

theorem mem_contextsOf_iff : c ∈ contextsOf trees ↔ c = .base ∨ treesOf trees c ≠ [] := by
  unfold contextsOf treesOf
  rw [List.mem_eraseDups, List.mem_cons, List.mem_map, ne_eq, List.filter_eq_nil_iff]
  simp

theorem get?_flatten_congr (same : treesOf trees c = treesOf trees' c) :
    (flatten trees).get? c = (flatten trees').get? c := by
  ext f
  rw [get?_flatten_eq_some_iff, get?_flatten_eq_some_iff, mem_contextsOf_iff, mem_contextsOf_iff, same]
  show _ ∧ f = Flat.ofTrees (treesOf trees c) ↔ _ ∧ f = Flat.ofTrees (treesOf trees' c)
  rw [same]

/-- **The same trees of a context and of the base** are merged to the same tokens in view. -/
theorem sameView_flatten (base : treesOf trees .base = treesOf trees' .base)
    (own : treesOf trees c = treesOf trees' c) : SameView (flatten trees) (flatten trees') c :=
  ⟨get?_flatten_congr own, get?_flatten_congr base⟩

theorem get?_resolveAll_flatten : (resolveAll (flatten trees)).contexts.get? c =
    ((flatten trees).get? c).map fun _ => (resolveContext (flatten trees) c .empty).tokens := by
  rw [resolveAll_eq (keyed_flatten trees).contexts]
  exact Table.find?_map (fun c _ => (resolveContext (flatten trees) c .empty).tokens) c
    (flatten trees).entries

theorem get?_resolveAll_congr (same : SameView (flatten trees) (flatten trees') c) :
    (resolveAll (flatten trees)).contexts.get? c = (resolveAll (flatten trees')).contexts.get? c := by
  rw [get?_resolveAll_flatten, get?_resolveAll_flatten, same.own,
    (resolveContext_eq same fun _ => rfl).1]

end Trees

/-! ## Findings -/

/-- The findings about tokens of a context. -/
def Compiled.diagnosticsIn (out : Compiled) (c : Context) : List Diagnostic :=
  out.diagnostics.filter (·.origin.context = c)

section Findings

variable {trees trees' : List Tree} {c : Context}

theorem filter_mergeDiagnostics : (mergeDiagnostics (flatten trees)).filter (·.origin.context = c) =
    (((flatten trees).get? c).map fun f => f.errors.map (mergeDiagnostic c)).getD [] := by
  unfold mergeDiagnostics
  refine Table.filter_flatMap_entries (keyed_flatten trees).contexts (fun e _ d hd => ?_) c
  obtain ⟨error, -, rfl⟩ := List.mem_map.1 hd
  exact context_mergeDiagnostic e.1 error

theorem filter_resolutionDiagnostics :
    ((resolveAll (flatten trees)).errors.map resolutionDiagnostic).filter (·.origin.context = c) =
      (((flatten trees).get? c).map fun _ =>
        (resolveContext (flatten trees) c .empty).errors.map resolutionDiagnostic).getD [] := by
  rw [resolveAll_eq (keyed_flatten trees).contexts, List.map_flatMap]
  refine Table.filter_flatMap_entries (keyed_flatten trees).contexts (fun e _ d hd => ?_) c
  obtain ⟨error, he, rfl⟩ := List.mem_map.1 hd
  exact context_of_mem_errors he

theorem filter_lint :
    (lint Rule.all (resolveAll (flatten trees))).filter (·.origin.context = c) =
      (((flatten trees).get? c).map fun _ => (resolveContext (flatten trees) c .empty).tokens.values.flatMap
        (lintToken Rule.all)).getD [] := by
  have keyed := keyed_flatten trees
  have found : ∀ e ∈ (flatten trees).entries, (resolveAll (flatten trees)).contexts.get? e.1 =
      some (resolveContext (flatten trees) e.1 .empty).tokens := by
    intro e he
    rw [get?_resolveAll_flatten, (Table.get?_eq_some_iff keyed.contexts).2 he]
    rfl
  have own : ∀ e ∈ (flatten trees).entries,
      ∀ d ∈ (resolveContext (flatten trees) e.1 .empty).tokens.values.flatMap (lintToken Rule.all),
        d.origin.context = e.1 := by
    intro e he d hd
    obtain ⟨rt, hrt, hd⟩ := List.mem_flatMap.1 hd
    rw [(inside_of_mem_lintToken hd).2]
    exact (context_of_token? (token?_of_mem_values keyed (found e he) hrt)).2
  rw [← Table.filter_flatMap_entries keyed.contexts own c, resolveAll_eq keyed.contexts]
  unfold lint Table.values
  rw [List.map_map, List.flatMap_map]
  rfl

/-- **The findings of a context** are about its own trees, its own outcomes and its own values. -/
theorem filter_diagnose : (diagnose (flatten trees) (resolveAll (flatten trees))).filter
    (·.origin.context = c) = (((flatten trees).get? c).map fun f =>
      f.errors.map (mergeDiagnostic c) ++
      (resolveContext (flatten trees) c .empty).errors.map resolutionDiagnostic ++
      (resolveContext (flatten trees) c .empty).tokens.values.flatMap (lintToken Rule.all)).getD [] := by
  unfold diagnose
  rw [List.filter_append, List.filter_append, filter_mergeDiagnostics, filter_resolutionDiagnostics,
    filter_lint]
  cases (flatten trees).get? c <;> rfl

theorem filter_diagnose_congr (same : SameView (flatten trees) (flatten trees') c) :
    (diagnose (flatten trees) (resolveAll (flatten trees))).filter (·.origin.context = c) =
      (diagnose (flatten trees') (resolveAll (flatten trees'))).filter (·.origin.context = c) := by
  obtain ⟨tokens, errors, -⟩ := resolveContext_eq same fun (_ : String) =>
    (rfl : (Table.empty : Memo).get? (c, _) = _)
  rw [filter_diagnose, filter_diagnose, same.own, tokens, errors]

end Findings

/-! ## Custom properties -/

theorem errorsIn_eq (diagnostics : List Diagnostic) (c : Context) : errorsIn diagnostics c =
    (diagnostics.filter (·.origin.context = c)).filter (·.isError) := by
  unfold errorsIn
  rw [List.filter_filter]

section Compile

variable {trees trees' : List Tree} {modifiers modifiers' : List Modifier} {settings : Settings}
  {out out' : Compiled} (h : compile trees modifiers settings = .ok out)
  (h' : compile trees' modifiers' settings = .ok out') {c : Context}

include h h'

theorem diagnosticsIn_congr (same : SameView (flatten trees) (flatten trees') c) :
    out.diagnosticsIn c = out'.diagnosticsIn c := by
  unfold Compiled.diagnosticsIn
  rw [(compile_eq_ok h).1, (compile_eq_ok h').1]
  exact filter_diagnose_congr same

theorem errorsIn_congr (same : SameView (flatten trees) (flatten trees') c) :
    errorsIn out.diagnostics c = errorsIn out'.diagnostics c := by
  rw [errorsIn_eq, errorsIn_eq]
  exact congrArg _ (diagnosticsIn_congr h h' same)

theorem declaredInBase_congr (same : SameView (flatten trees) (flatten trees') .base) :
    declaredInBase out.diagnostics (resolveAll (flatten trees)) =
      declaredInBase out'.diagnostics (resolveAll (flatten trees')) := by
  unfold declaredInBase
  rw [get?_resolveAll_congr same, errorsIn_congr h h' same]

/-- **The custom properties of a context** depend on its own tokens and on what the base declares. -/
theorem get?_tokens_congr (base : SameView (flatten trees) (flatten trees') .base)
    (same : SameView (flatten trees) (flatten trees') c) : out.tokens.get? c = out'.tokens.get? c := by
  have contexts := get?_resolveAll_congr same
  have converted := convertAll_eq_ok (compile_eq_ok h).2.1 c
  have converted' := convertAll_eq_ok (compile_eq_ok h').2.1 c
  rw [← contexts, ← errorsIn_congr h h' same, ← declaredInBase_congr h h' base] at converted'
  rcases converted with ⟨none, out⟩ | ⟨tokens, list, ht, hl, hc⟩
  · rcases converted' with ⟨-, out'⟩ | ⟨_, _, ht', -, -⟩
    · rw [out, out']
    · rw [none] at ht'
      cases ht'
  · rcases converted' with ⟨none, -⟩ | ⟨_, list', ht', hl', hc'⟩
    · rw [ht] at none
      cases none
    · obtain rfl := Option.some.inj (ht.symm.trans ht')
      obtain rfl : list = list' := Except.ok.inj (hc.symm.trans hc')
      rw [hl, hl']

end Compile

/-- **No overlay has a share in the base or in another overlay.** Two lists of trees with the same
trees of the base and the same trees of `c`, whatever other trees there are and wherever they stand:
merged tokens, resolved tokens, findings and custom properties of the base and of `c` are the same. -/
theorem compile_isolated {trees trees' : List Tree} {c : Context}
    (base : treesOf trees .base = treesOf trees' .base) (own : treesOf trees c = treesOf trees' c)
    {modifiers modifiers' : List Modifier} {settings : Settings} {out out' : Compiled}
    (h : compile trees modifiers settings = .ok out)
    (h' : compile trees' modifiers' settings = .ok out') :
    ∀ d, d = .base ∨ d = c →
      (flatten trees).get? d = (flatten trees').get? d ∧
      (resolveAll (flatten trees)).contexts.get? d = (resolveAll (flatten trees')).contexts.get? d ∧
      out.diagnosticsIn d = out'.diagnosticsIn d ∧
      out.tokens.get? d = out'.tokens.get? d := by
  have ofBase := sameView_flatten base base
  intro d hd
  have view : SameView (flatten trees) (flatten trees') d := by
    rcases hd with rfl | rfl
    · exact ofBase
    · exact sameView_flatten base own
  exact ⟨view.own, get?_resolveAll_congr view, diagnosticsIn_congr h h' view,
    get?_tokens_congr h h' ofBase view⟩

/-! ## Ink by day -/

/-- An overlay besides that of the night. -/
def dayContext : Context := .variant none "day"

/-- By day the color is that of the text, which is an alias of the color. -/
def dayTree : Tree where
  context := dayContext
  tokens := ⟨.empty, [("ink", .token ⟨.str "\x7btext\x7d", some .color, none, none, some ⟨"day.json"⟩⟩)]⟩
  file := ⟨"day.json"⟩

/-- The trees of base and night behind that of the day. -/
def dayTrees : List Tree := dayTree :: inkTrees (some .color)

/-- The error of the color by day. -/
def dayError : ResolutionError := .circular "ink" ["ink", "text", "ink"] ⟨⟨"day.json"⟩, dayContext⟩

theorem resolveAll_dayTrees : resolveAll (flatten dayTrees) = ⟨⟨[
    inkTokens .base "base.json"
      [("ink", some .color, "#000", "#000"), ("text", some .color, "\x7bink\x7d", "#000")],
    inkTokens dayContext "day.json" [],
    inkTokens nightContext "night.json"
      [("ink", some .color, "#fff", "#fff"), ("title", some .color, "\x7btext\x7d", "#fff")]]⟩,
    [dayError]⟩ :=
  resolveAll_of_within 3 rfl

theorem compile_dayTrees : ∃ out, compile dayTrees [] .standard = .ok out := by
  rw [compile_of_fault?_eq_none (by decide), resolveAll_dayTrees]
  exact ⟨_, rfl⟩

/-- A cycle through the base by day changes nothing at night. -/
theorem compile_isolated_dayTrees :
    treesOf (inkTrees (some .color)) .base = treesOf dayTrees .base ∧
    treesOf (inkTrees (some .color)) nightContext = treesOf dayTrees nightContext ∧
    ∃ out out', compile (inkTrees (some .color)) [] .standard = .ok out ∧
      compile dayTrees [] .standard = .ok out' ∧
      (∃ d ∈ out'.diagnosticsIn dayContext, d.isError = true) ∧
      out.diagnosticsIn nightContext = out'.diagnosticsIn nightContext ∧
      out.tokens.get? nightContext = out'.tokens.get? nightContext := by
  have base : treesOf (inkTrees (some .color)) .base = treesOf dayTrees .base := rfl
  have night : treesOf (inkTrees (some .color)) nightContext = treesOf dayTrees nightContext := rfl
  have h := compile_inkTrees (some .color) (by simp [inkTypes])
  obtain ⟨out', h'⟩ := compile_dayTrees
  obtain ⟨-, -, findings, properties⟩ := compile_isolated base night h h' nightContext (.inr rfl)
  have error : resolutionDiagnostic dayError ∈ out'.diagnostics := by
    rw [(compile_eq_ok h').1, mem_diagnose, resolveAll_dayTrees]
    exact .inr (.inl ⟨_, List.mem_singleton.2 rfl, rfl⟩)
  exact ⟨base, night, _, out', h, h', ⟨_, List.mem_filter.2 ⟨error, by decide⟩, rfl⟩, findings,
    properties⟩

end DesignTokens
