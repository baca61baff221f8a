import DesignTokens.Proofs.Resolution.Bounded
import DesignTokens.Proofs.Resolution.Outcomes
import DesignTokens.Proofs.Resolution.References

/-!
# Resolving once more

The value of a token has no reference at any depth. If the tokens with values are declared with them
and resolved again, nothing is looked up: all of them come out as they are.

* `Denotes.references_eq_nil`: the value of a token has no reference;
* `denotes_of_references_eq_nil`: a token without references has its value as written;
* `resolveAll_of_no_references`: contexts in which no token has a reference;
* `keyed_settled`: the tokens with values are keyed;
* **`resolveAll_settled`**: resolving them once more changes nothing.
-/

namespace DesignTokens

variable {all : Contexts Flat} {c view : Context}

/-! ## Values without references -/

/-- **The value of a token has no reference.** -/
theorem Denotes.references_eq_nil {t : FlatToken} {R : Resolved} (h : Denotes all view t R) :
    R.value.references = [] := by
  induction h with
  | @intro t target found seen _ _ ih =>
    -- what is left of references is inside the values that replaced them
    refine Json.references_substitute fun r hr => ?_
    rw [Json.references_eq t.value none] at hr
    obtain ⟨o, ho, rfl⟩ := List.mem_map.1 hr
    exact ih o ho

theorem FlatToken.uses_eq_nil {t : FlatToken} (h : t.value.references = []) : t.uses = [] := by
  rwa [Json.references_eq t.value none, List.map_eq_nil_iff] at h

theorem denotes_of_references_eq_nil {t : FlatToken} (h : t.value.references = []) :
    Denotes all view t ⟨t.value, t.type⟩ := by
  have uses := FlatToken.uses_eq_nil h
  have type : settledType t (fun _ => ⟨.null, none⟩) = t.type := by
    unfold settledType
    cases hr : Reference.ofJson? t.value with
    | none => rfl
    | some r =>
      rw [FlatToken.uses_of_alias hr] at uses
      cases uses
  have denotes : Denotes all view t
      ⟨t.value.substitute fun _ => .null, settledType t fun _ => ⟨.null, none⟩⟩ :=
    .intro (fun _ => t) (fun _ => ⟨.null, none⟩) (by simp [uses]) (by simp [uses]) (by simp [uses])
  rwa [Json.substitute_of_references_eq_nil _ h, type] at denotes

/-! ## Contexts without references -/

theorem Justified.of_references_eq_nil {t : FlatToken} {o : Outcome} (h : Justified all c t o)
    (none : t.value.references = []) : o = .ok ⟨t.value, t.type⟩ := by
  have denotes : Denotes all c t ⟨t.value, t.type⟩ := denotes_of_references_eq_nil none
  cases o with
  | ok R =>
    have value : Denotes all c t R := h
    rw [value.unique denotes]
  | error e =>
    have failed : Fails all c t e := h
    exact absurd denotes.sound failed.unsound

/-- **Contexts without references**: every token has its value as written. -/
theorem resolveAll_of_no_references (keyed : all.Keyed)
    (plain : ∀ c, ∀ t ∈ declared all c, t.value.references = []) :
    resolveAll all = ⟨all.mapValues fun f => f.tokens.mapValues fun t => ⟨t, t.value⟩, []⟩ := by
  obtain ⟨out, result, justified⟩ := resolveAll_eq_assemble keyed
  have runs : ∀ e ∈ all.entries,
      runOf out e = e.2.tokens.values.map fun t => (t, .ok ⟨t.value, t.type⟩) := by
    refine fun e he => List.map_congr_left fun t ht => ?_
    rw [← declared_of_mem_entries keyed he] at ht
    rw [(justified e.1 t ht).of_references_eq_nil (plain e.1 t ht)]
  rw [result]
  unfold assemble
  congr 1
  · refine congrArg Table.mk (List.map_congr_left fun e he => ?_)
    rw [runs e he, Table.values, List.map_map, List.filterMap_map]
    refine congrArg (Prod.mk e.1) (congrArg Table.mk ?_)
    show _ = e.2.tokens.entries.map _
    rw [← List.filterMap_eq_map]
    refine List.filterMap_congr fun p hp => ?_
    have own := keyed.own e.2 (List.mem_map.2 ⟨e, he, rfl⟩) p hp
    exact congrArg (fun path => some (path, ResolvedToken.mk p.2 p.2.value)) own
  · refine List.flatMap_eq_nil_iff.2 fun e he => ?_
    rw [runs e he]
    simp [List.filterMap_map, failure?]

/-! ## Once more -/

theorem mem_values_resolveAll (keyed : all.Keyed) {tokens : Table String ResolvedToken}
    (h : tokens ∈ (resolveAll all).contexts.values) :
    ∃ c, (resolveAll all).contexts.get? c = some tokens := by
  obtain ⟨⟨c, tokens⟩, he, rfl⟩ := List.mem_map.1 h
  exact ⟨c, (Table.get?_eq_some_iff (keys_resolveAll keyed ▸ keyed.contexts)).2 he⟩

theorem keyed_settled (keyed : all.Keyed) : (resolveAll all).settled.Keyed where
  contexts := by
    have : (resolveAll all).settled.keys = (resolveAll all).contexts.keys := by
      simp [Resolution.settled, Table.keys, Table.mapValues, Function.comp_def]
    rw [this, keys_resolveAll keyed]
    exact keyed.contexts
  paths f hf := by
    obtain ⟨e, he, rfl⟩ := List.mem_map.1 hf
    obtain ⟨e', he', rfl⟩ := List.mem_map.1 he
    obtain ⟨c, hc⟩ := mem_values_resolveAll keyed (List.mem_map.2 ⟨e', he', rfl⟩)
    simpa [Table.keys, Table.mapValues, Function.comp_def] using (keyed_of_get?_resolveAll keyed hc).1
  own f hf p hp := by
    obtain ⟨e, he, rfl⟩ := List.mem_map.1 hf
    obtain ⟨e', he', rfl⟩ := List.mem_map.1 he
    obtain ⟨c, hc⟩ := mem_values_resolveAll keyed (List.mem_map.2 ⟨e', he', rfl⟩)
    obtain ⟨p', hp', rfl⟩ := List.mem_map.1 hp
    exact (keyed_of_get?_resolveAll keyed hc).2 p' hp'

theorem references_eq_nil_of_mem_values (keyed : all.Keyed) {tokens : Table String ResolvedToken}
    (h : tokens ∈ (resolveAll all).contexts.values) {rt : ResolvedToken} (hrt : rt ∈ tokens.values) :
    rt.value.references = [] := by
  obtain ⟨c, hc⟩ := mem_values_resolveAll keyed h
  obtain ⟨t, -, -, -, denotes⟩ := denotes_of_token? keyed (token?_of_mem_values keyed hc hrt)
  exact denotes.references_eq_nil

/-- **Resolving once more changes nothing.** No string inside a value is a reference; and the tokens
with values, declared with them, come out in the same contexts and in the same order, with the same
values and types, and without errors. -/
theorem resolveAll_settled (keyed : all.Keyed) :
    (∀ tokens ∈ (resolveAll all).contexts.values, ∀ rt ∈ tokens.values, ∀ s, rt.value.Holds s →
      Reference.parse? s = none) ∧
    (resolveAll (resolveAll all).settled).errors = [] ∧
    (resolveAll (resolveAll all).settled).contexts =
      (resolveAll all).contexts.mapValues fun tokens => tokens.mapValues fun rt =>
        ⟨rt.settled, rt.value⟩ := by
  constructor
  · intro tokens h rt hrt s hs
    refine Option.eq_none_iff_forall_not_mem.2 fun r hr => ?_
    have := hs.mem_references hr
    rw [references_eq_nil_of_mem_values keyed h hrt] at this
    cases this
  · have plain : ∀ c, ∀ t ∈ declared (resolveAll all).settled c, t.value.references = [] := by
      intro c t ht
      obtain ⟨f, hf, ht⟩ := mem_declared_iff.1 ht
      obtain ⟨e, he, h⟩ := List.mem_map.1 (Table.mem_of_find?_eq_some hf)
      cases h
      obtain ⟨p, hp, rfl⟩ := List.mem_map.1 ht
      obtain ⟨q, hq, rfl⟩ := List.mem_map.1 hp
      exact references_eq_nil_of_mem_values keyed (List.mem_map.2 ⟨e, he, rfl⟩)
        (List.mem_map.2 ⟨q, hq, rfl⟩)
    rw [resolveAll_of_no_references (keyed_settled keyed) plain]
    refine ⟨rfl, ?_⟩
    simp [Resolution.settled, Table.mapValues, Function.comp_def, ResolvedToken.settled]

/-- The resolved token of a name, with the text and the value of its color. -/
def nightColor (c : Context) (file path text value : String) : String × ResolvedToken :=
  (path, ⟨nightToken path text (some .color) ⟨⟨file⟩, c⟩, .str value⟩)

theorem resolveAll_nightTrees : resolveAll (flatten nightTrees) =
    ⟨⟨[(.base, ⟨[nightColor .base "base.json" "bg" "#fff" "#fff",
        nightColor .base "base.json" "fg" "\x7bbg\x7d" "#fff"]⟩),
      (nightContext, ⟨[nightColor nightContext "night.json" "bg" "#000" "#000",
        nightColor nightContext "night.json" "panel" "\x7bfg\x7d" "#000"]⟩)]⟩, []⟩ :=
  resolveAll_of_within 3 rfl

/-- The color at night, resolved through two references and then once more. -/
theorem resolveAll_settled_nightTrees : (flatten nightTrees).Keyed ∧
    (resolveAll (resolveAll (flatten nightTrees)).settled).errors = [] ∧
    ∃ rt, (resolveAll (resolveAll (flatten nightTrees)).settled).token? nightContext "panel" = some rt ∧
      rt.raw = .str "#000" ∧ rt.value = .str "#000" ∧ rt.type = some .color := by
  obtain ⟨-, errors, contexts⟩ := resolveAll_settled (keyed_flatten nightTrees)
  refine ⟨keyed_flatten nightTrees, errors, ?_⟩
  unfold Resolution.token?
  rw [contexts, resolveAll_nightTrees]
  exact ⟨_, rfl, rfl, rfl, rfl⟩

end DesignTokens
