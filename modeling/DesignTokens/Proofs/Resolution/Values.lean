import DesignTokens.Proofs.Resolution.Walk
import DesignTokens.Proofs.Tables

/-!
# Values of all tokens

The contexts are resolved one after the other with one memo. What comes out for a token depends on
the graph alone.

* `Resolution.token?`: the resolved token of a context at a path;
* `withValue?`, `failure?`: what an outcome adds to the tokens and to the errors;
* `IsRun`: a justified outcome for every token of a context, in order;
* `resolveAll_runs`: all tokens and all errors are read off such runs;
* `denotes_of_token?`, `token?_or_error`, `unsound_of_mem_errors`: every token has a value or an error,
  and rightly so;
* **`isSome_token?_iff_sound`**: a token has a value exactly if it is sound, and then the value and
  the type that the graph gives it.
-/

namespace DesignTokens

/-- The resolved token of a context at a path. -/
def Resolution.token? (r : Resolution) (c : Context) (path : String) : Option ResolvedToken :=
  (r.contexts.get? c).bind (·.get? path)

/-- The entry of a token with a value. -/
def withValue? : FlatToken × Outcome → Option (String × ResolvedToken)
  | (t, .ok R) => some (t.path, ⟨{ t with type := R.type }, R.value⟩)
  | (_, .error _) => none

/-- The error of a token without a value. -/
def failure? : FlatToken × Outcome → Option ResolutionError
  | (_, .ok _) => none
  | (_, .error e) => some e

/-- A justified outcome for every token of a context, in order. -/
structure IsRun (all : Contexts Flat) (c : Context) (run : List (FlatToken × Outcome)) : Prop where
  tokens : run.map Prod.fst = declared all c
  justified : ∀ r ∈ run, Justified all c r.1 r.2

variable {all : Contexts Flat} {c : Context}

/-! ## Declared tokens -/

theorem mem_declared_iff {t : FlatToken} :
    t ∈ declared all c ↔ ∃ f, all.get? c = some f ∧ t ∈ f.tokens.values := by
  unfold declared
  cases all.get? c <;> simp

theorem Contexts.Keyed.get?_of_mem_declared (keyed : all.Keyed) {t : FlatToken}
    (h : t ∈ declared all c) : (all.get? c).bind (·.tokens.get? t.path) = some t := by
  obtain ⟨f, hf, ht⟩ := mem_declared_iff.1 h
  obtain ⟨⟨path, _⟩, he, rfl⟩ := List.mem_map.1 ht
  have hfv := Table.mem_values_of_get?_eq_some hf
  have own : _ = path := keyed.own f hfv _ he
  rw [hf, Option.bind_some, own]
  exact (Table.get?_eq_some_iff (keyed.paths f hfv)).2 he

theorem Contexts.Keyed.eq_of_path (keyed : all.Keyed) {t u : FlatToken} (ht : t ∈ declared all c)
    (hu : u ∈ declared all c) (path : u.path = t.path) : u = t :=
  Option.some.inj
    ((keyed.get?_of_mem_declared hu).symm.trans (path ▸ keyed.get?_of_mem_declared ht))

theorem Contexts.Keyed.lookup?_of_mem_declared (keyed : all.Keyed) {t : FlatToken}
    (h : t ∈ declared all c) : lookup? all c t.path = some t := by
  unfold lookup?
  rw [keyed.get?_of_mem_declared h]

theorem Contexts.Keyed.nodup_paths (keyed : all.Keyed) :
    ((declared all c).map FlatToken.path).Nodup := by
  unfold declared
  cases hf : all.get? c with
  | none => simp
  | some f =>
    have hfv := Table.mem_values_of_get?_eq_some hf
    have : f.tokens.values.map FlatToken.path = f.tokens.keys := by
      rw [Table.values, List.map_map, Table.keys]
      exact List.map_congr_left fun e he => keyed.own f hfv e he
    simpa [this] using keyed.paths f hfv

/-! ## Runs -/

theorem resolveTokens_run (keyed : all.Keyed) : ∀ (ts : List FlatToken)
    (seen : ∀ t ∈ ts, t ∈ visible all c) (p : Progress),
    (∀ t ∈ ts, lookup? all c t.path = some t) → Memo.Justified all p.memo →
    (p.tokens.keys ++ ts.map FlatToken.path).Nodup →
    ∃ run : List (FlatToken × Outcome), run.map Prod.fst = ts ∧
      (∀ r ∈ run, Justified all c r.1 r.2) ∧
      Memo.Justified all (resolveTokens all c ts seen p).memo ∧
      (resolveTokens all c ts seen p).tokens.entries =
        p.tokens.entries ++ run.filterMap withValue? ∧
      (resolveTokens all c ts seen p).errors = p.errors ++ run.filterMap failure?
  | [], _, p, _, good, _ => ⟨[], rfl, by simp, good, by simp [resolveTokens], by simp [resolveTokens]⟩
  | t :: rest, seen, p, own, good, nodup => by
    have walk := resolve_justified keyed [] t (seen t (by simp)) (by simp) p.memo
      (own t (by simp)) Trail.nil good
    rw [resolveTokens]
    generalize resolve all c [] t (seen t (by simp)) (by simp) p.memo = result at walk ⊢
    obtain ⟨outcome, memo⟩ := result
    obtain ⟨justified, good⟩ : Justified all c t outcome ∧ Memo.Justified all memo := walk
    have fresh : t.path ∉ p.tokens.keys := fun h =>
      (List.nodup_append.1 nodup).2.2 _ h t.path (by simp) rfl
    have keys : ((p.add t outcome memo).tokens.keys ++ rest.map FlatToken.path).Nodup := by
      cases outcome with
      | ok R => simpa [Progress.add, Table.keys_insert, fresh] using nodup
      | error e => exact nodup.sublist (by simp [Progress.add])
    obtain ⟨run, tokens, outcomes, good', entries, errors⟩ := resolveTokens_run keyed rest
      (fun u hu => seen u (by simp [hu])) (p.add t outcome memo) (fun u hu => own u (by simp [hu]))
      (by cases outcome <;> exact good) keys
    refine ⟨(t, outcome) :: run, by simp [tokens], ?_, good', ?_, ?_⟩
    · intro r hr
      rcases List.mem_cons.1 hr with rfl | hr
      · exact justified
      · exact outcomes r hr
    · rw [entries]
      cases outcome with
      | ok R =>
        simp [Progress.add, withValue?, Table.entries_insert_of_notMem fresh]
      | error e => simp [Progress.add, List.filterMap_cons, withValue?]
    · rw [errors]
      cases outcome <;> simp [Progress.add, List.filterMap_cons, failure?]

theorem resolveContext_run (keyed : all.Keyed) (memo : Memo) (good : Memo.Justified all memo) :
    ∃ run, IsRun all c run ∧ Memo.Justified all (resolveContext all c memo).memo ∧
      (resolveContext all c memo).tokens = ⟨run.filterMap withValue?⟩ ∧
      (resolveContext all c memo).errors = run.filterMap failure? := by
  obtain ⟨run, tokens, outcomes, good', entries, errors⟩ := resolveTokens_run (c := c) keyed
    (declared all c) (fun _ h => List.mem_append_left _ h) ⟨.empty, [], memo⟩
    (fun _ h => keyed.lookup?_of_mem_declared h) good (by simpa [Table.keys, Table.empty] using
      keyed.nodup_paths)
  refine ⟨run, ⟨tokens, outcomes⟩, good', ?_, ?_⟩
  · exact congrArg Table.mk (by simpa [resolveContext, Table.empty] using entries)
  · simpa [resolveContext] using errors

theorem resolveContexts_runs (keyed : all.Keyed) : ∀ (cs : List Context) (memo : Memo),
    Memo.Justified all memo →
    ∃ runs : List (Context × List (FlatToken × Outcome)), runs.map Prod.fst = cs ∧
      (∀ r ∈ runs, IsRun all r.1 r.2) ∧
      resolveContexts all memo cs =
        (runs.map fun r => (r.1, ⟨r.2.filterMap withValue?⟩),
          runs.flatMap fun r => r.2.filterMap failure?)
  | [], _, _ => ⟨[], rfl, by simp, rfl⟩
  | c :: rest, memo, good => by
    obtain ⟨run, isRun, good, tokens, errors⟩ := resolveContext_run (c := c) keyed memo good
    obtain ⟨runs, contexts, areRuns, result⟩ := resolveContexts_runs keyed rest _ good
    refine ⟨(c, run) :: runs, by simp [contexts], ?_, ?_⟩
    · intro r hr
      rcases List.mem_cons.1 hr with rfl | hr
      · exact isRun
      · exact areRuns r hr
    · simp [resolveContexts, result, tokens, errors]

/-- **All tokens with values, and all errors, come from runs.** -/
theorem resolveAll_runs (keyed : all.Keyed) :
    ∃ runs : List (Context × List (FlatToken × Outcome)), runs.map Prod.fst = all.keys ∧
      (∀ r ∈ runs, IsRun all r.1 r.2) ∧
      resolveAll all = ⟨⟨runs.map fun r => (r.1, ⟨r.2.filterMap withValue?⟩)⟩,
        runs.flatMap fun r => r.2.filterMap failure?⟩ := by
  obtain ⟨runs, contexts, areRuns, result⟩ := resolveContexts_runs keyed all.keys .empty
    Memo.justified_empty
  exact ⟨runs, contexts, areRuns, by simp [resolveAll, result]⟩

/-! ## Tokens with values -/

theorem mem_filterMap_withValue? {run : List (FlatToken × Outcome)} {path : String}
    {rt : ResolvedToken} (h : (path, rt) ∈ run.filterMap withValue?) :
    ∃ t R, (t, .ok R) ∈ run ∧ t.path = path ∧ rt = ⟨{ t with type := R.type }, R.value⟩ := by
  obtain ⟨⟨t, outcome⟩, hr, he⟩ := List.mem_filterMap.1 h
  cases outcome with
  | ok R => simp [withValue?] at he; exact ⟨t, R, hr, he.1, he.2.symm⟩
  | error e => simp [withValue?] at he

theorem sublist_filterMap_withValue? (run : List (FlatToken × Outcome)) :
    List.Sublist ((run.filterMap withValue?).map Prod.fst) ((run.map Prod.fst).map FlatToken.path) := by
  induction run with
  | nil => exact .slnil
  | cons r rest ih =>
    obtain ⟨t, outcome⟩ := r
    cases outcome with
    | ok R => simpa [List.filterMap_cons, withValue?] using ih
    | error e => simpa [List.filterMap_cons, withValue?] using ih.cons _

theorem IsRun.nodup_keys (keyed : all.Keyed) {run : List (FlatToken × Outcome)}
    (h : IsRun all c run) : ((run.filterMap withValue?).map Prod.fst).Nodup :=
  (h.tokens ▸ keyed.nodup_paths (c := c)).sublist (sublist_filterMap_withValue? run)

theorem declared_of_notMem (hc : c ∉ all.keys) : declared all c = [] := by
  unfold declared
  rw [Table.get?_eq_none_iff.2 hc]

theorem keys_resolveAll (keyed : all.Keyed) : (resolveAll all).contexts.keys = all.keys := by
  obtain ⟨runs, contexts, -, result⟩ := resolveAll_runs keyed
  rw [result, ← contexts]
  simp [Table.keys, Function.comp_def]

theorem keyed_of_get?_resolveAll (keyed : all.Keyed) {tokens : Table String ResolvedToken}
    (h : (resolveAll all).contexts.get? c = some tokens) :
    tokens.keys.Nodup ∧ ∀ e ∈ tokens.entries, e.2.path = e.1 := by
  obtain ⟨runs, -, areRuns, result⟩ := resolveAll_runs keyed
  rw [result] at h
  obtain ⟨⟨c', run⟩, hr, he⟩ := List.mem_map.1 (Table.mem_of_find?_eq_some h)
  cases he
  refine ⟨(areRuns _ hr).nodup_keys keyed, fun e he => ?_⟩
  obtain ⟨t, R, -, path, token⟩ := mem_filterMap_withValue? he
  rw [token, ← path]
  rfl

theorem token?_of_mem_values (keyed : all.Keyed) {tokens : Table String ResolvedToken}
    (h : (resolveAll all).contexts.get? c = some tokens) {rt : ResolvedToken}
    (hrt : rt ∈ tokens.values) : (resolveAll all).token? c rt.path = some rt := by
  obtain ⟨nodup, own⟩ := keyed_of_get?_resolveAll keyed h
  obtain ⟨⟨path, rt⟩, he, rfl⟩ := List.mem_map.1 hrt
  unfold Resolution.token?
  rw [h, Option.bind_some, own _ he]
  exact (Table.get?_eq_some_iff nodup).2 he

theorem resolveAll_run (keyed : all.Keyed) (c : Context) :
    ∃ run, IsRun all c run ∧
      (∀ path rt, (resolveAll all).token? c path = some rt ↔
        ∃ t R, (t, .ok R) ∈ run ∧ t.path = path ∧ rt = ⟨{ t with type := R.type }, R.value⟩) ∧
      ∀ t e, (t, .error e) ∈ run → e ∈ (resolveAll all).errors := by
  have keys := keys_resolveAll keyed
  obtain ⟨runs, contexts, areRuns, result⟩ := resolveAll_runs keyed
  unfold Resolution.token?
  by_cases hc : c ∈ all.keys
  · obtain ⟨⟨c, run⟩, hr, rfl⟩ := List.mem_map.1 (contexts ▸ hc)
    have found : (resolveAll all).contexts.get? c = some ⟨run.filterMap withValue?⟩ := by
      rw [Table.get?_eq_some_iff (keys ▸ keyed.contexts), result]
      exact List.mem_map.2 ⟨(c, run), hr, rfl⟩
    have isRun : IsRun all c run := areRuns _ hr
    refine ⟨run, isRun, fun path rt => ?_, fun t e he => ?_⟩
    · rw [found, Option.bind_some, Table.get?_eq_some_iff (isRun.nodup_keys keyed)]
      constructor
      · exact mem_filterMap_withValue?
      · rintro ⟨t, R, ht, rfl, rfl⟩
        exact List.mem_filterMap.2 ⟨(t, .ok R), ht, rfl⟩
    · rw [result]
      exact List.mem_flatMap.2 ⟨(c, run), hr, List.mem_filterMap.2 ⟨_, he, rfl⟩⟩
  · refine ⟨[], ⟨(declared_of_notMem hc).symm, by simp⟩, fun path rt => ?_, by simp⟩
    rw [Table.get?_eq_none_iff.2 (keys ▸ hc)]
    simp

theorem denotes_of_token? (keyed : all.Keyed) {path : String} {rt : ResolvedToken}
    (h : (resolveAll all).token? c path = some rt) :
    ∃ t ∈ declared all c, t.path = path ∧ rt.token = { t with type := rt.type } ∧
      Denotes all c t ⟨rt.value, rt.type⟩ := by
  obtain ⟨run, isRun, tokens, -⟩ := resolveAll_run keyed c
  obtain ⟨t, R, ht, rfl, rfl⟩ := (tokens _ _).1 h
  exact ⟨t, isRun.tokens ▸ List.mem_map.2 ⟨(t, .ok R), ht, rfl⟩, rfl, rfl, isRun.justified _ ht⟩

theorem denotes_of_mem_declared (keyed : all.Keyed) {t : FlatToken} (ht : t ∈ declared all c)
    {rt : ResolvedToken} (h : (resolveAll all).token? c t.path = some rt) :
    rt.token = { t with type := rt.type } ∧ Denotes all c t ⟨rt.value, rt.type⟩ := by
  obtain ⟨u, hu, path, token, denotes⟩ := denotes_of_token? keyed h
  obtain rfl : u = t := keyed.eq_of_path ht hu path
  exact ⟨token, denotes⟩

theorem token?_or_error (keyed : all.Keyed) {t : FlatToken} (ht : t ∈ declared all c) :
    (∃ rt, (resolveAll all).token? c t.path = some rt) ∨
      ¬ Sound all c t ∧ ∃ e ∈ (resolveAll all).errors, e.path = t.path ∧ e.origin = t.origin := by
  obtain ⟨run, isRun, tokens, errors⟩ := resolveAll_run keyed c
  obtain ⟨⟨u, outcome⟩, hr, rfl⟩ := List.mem_map.1 (isRun.tokens ▸ ht)
  cases outcome with
  | ok R => exact .inl ⟨_, (tokens _ _).2 ⟨u, R, hr, rfl, rfl⟩⟩
  | error e =>
    have failed : Fails all c u e := isRun.justified _ hr
    exact .inr ⟨failed.unsound, e, errors u e hr, failed.path, failed.origin⟩

theorem unsound_of_mem_errors (keyed : all.Keyed) {e : ResolutionError}
    (h : e ∈ (resolveAll all).errors) :
    ∃ c, ∃ t ∈ declared all c, ¬ Sound all c t ∧ e.path = t.path ∧ e.origin = t.origin := by
  obtain ⟨runs, -, areRuns, result⟩ := resolveAll_runs keyed
  rw [result] at h
  obtain ⟨⟨c, run⟩, hr, he⟩ := List.mem_flatMap.1 h
  obtain ⟨⟨t, outcome⟩, ht, he⟩ := List.mem_filterMap.1 he
  have isRun : IsRun all c run := areRuns _ hr
  cases outcome with
  | ok R => cases he
  | error e' =>
    cases he
    have failed : Fails all c t e := isRun.justified _ ht
    exact ⟨c, t, isRun.tokens ▸ List.mem_map.2 ⟨_, ht, rfl⟩, failed.unsound, failed.path,
      failed.origin⟩

/-- **A token has a value exactly if it is sound.** The value and the type are then those that the
graph gives it: its value as written with the value of its target, as seen from the same context, in
place of every reference. -/
theorem isSome_token?_iff_sound (keyed : all.Keyed) {t : FlatToken} (ht : t ∈ declared all c) :
    (((resolveAll all).token? c t.path).isSome ↔ Sound all c t) ∧
      ∀ rt, (resolveAll all).token? c t.path = some rt →
        rt.token = { t with type := rt.type } ∧ Denotes all c t ⟨rt.value, rt.type⟩ := by
  refine ⟨⟨fun h => ?_, fun sound => ?_⟩, fun rt => denotes_of_mem_declared keyed ht⟩
  · obtain ⟨rt, hrt⟩ := Option.isSome_iff_exists.1 h
    exact (denotes_of_mem_declared keyed ht hrt).2.sound
  · rcases token?_or_error keyed ht with ⟨rt, hrt⟩ | ⟨unsound, -⟩
    · exact Option.isSome_iff_exists.2 ⟨rt, hrt⟩
    · exact absurd sound unsound

/-! ## A color at night -/

/-- A context over the base. -/
def nightContext : Context := .variant none "night"

/-- A color in the base and one that refers to it; at night, the first once more and a third one that
refers to the second. -/
def nightTrees : List Tree :=
  [⟨.base, ⟨.empty, [
      ("bg", .token ⟨.str "#fff", some .color, none, none, none⟩),
      ("fg", .token ⟨.str "\x7bbg\x7d", none, none, none, none⟩)]⟩, ⟨"base.json"⟩⟩,
    ⟨nightContext, ⟨.empty, [
      ("bg", .token ⟨.str "#000", some .color, none, none, none⟩),
      ("panel", .token ⟨.str "\x7bfg\x7d", none, none, none, none⟩)]⟩, ⟨"night.json"⟩⟩]

/-- A merged token of these trees. -/
def nightToken (path value : String) (type : Option TokenType) (origin : Origin) : FlatToken :=
  ⟨path, [path], .str value, type, none, none, origin⟩

/-- The color that is there at night. -/
def nightBg : FlatToken := nightToken "bg" "#000" (some .color) ⟨⟨"night.json"⟩, nightContext⟩

/-- The color that refers to it through the base. -/
def nightPanel : FlatToken := nightToken "panel" "\x7bfg\x7d" none ⟨⟨"night.json"⟩, nightContext⟩

theorem denotes_nightPanel :
    Denotes (flatten nightTrees) nightContext nightPanel ⟨.str "#000", some .color⟩ := by
  have plain : nightBg.uses = [] := rfl
  have bg : Denotes (flatten nightTrees) nightContext nightBg ⟨.str "#000", some .color⟩ :=
    .intro (fun _ => nightBg) (fun _ => ⟨.null, none⟩) (by simp [plain]) (by simp [plain])
      (by simp [plain])
  have fg : Denotes (flatten nightTrees) nightContext
      (nightToken "fg" "\x7bbg\x7d" none ⟨⟨"base.json"⟩, .base⟩) ⟨.str "#000", some .color⟩ :=
    bg.of_alias (r := ⟨"bg"⟩) rfl rfl rfl
  exact fg.of_alias (r := ⟨"fg"⟩) rfl rfl rfl

/-- The panel has the color that the base refers to, as it is at night. -/
theorem token?_nightPanel : (flatten nightTrees).Keyed ∧
    nightPanel ∈ declared (flatten nightTrees) nightContext ∧
    ∃ rt, (resolveAll (flatten nightTrees)).token? nightContext "panel" = some rt ∧
      rt.value = .str "#000" ∧ rt.type = some .color := by
  have declared : nightPanel ∈ declared (flatten nightTrees) nightContext :=
    List.mem_cons_of_mem nightBg List.mem_cons_self
  obtain ⟨sound, value⟩ := isSome_token?_iff_sound (keyed_flatten nightTrees) declared
  obtain ⟨rt, hrt⟩ := Option.isSome_iff_exists.1 (sound.2 denotes_nightPanel.sound)
  have same := (value rt hrt).2.unique denotes_nightPanel
  exact ⟨keyed_flatten nightTrees, declared, rt, hrt, congrArg Resolved.value same,
    congrArg Resolved.type same⟩

end DesignTokens
