import DesignTokens.Proofs.Resolution.Order

/-!
# What the errors report

An error is made where the walk stops, kept in the memo and given to every token on the way back. What
it says can be checked without the walk: the references of its chain are written in the tokens that are
visible on it, the missing path is written in a token that the failing one reaches, and so is the
reference to a token of another type.

* `Mentions`: a reference from what is visible at one path to another path;
* `Truthful`: what an error says is there; **`Fails.truthful`**;
* `ErrorOf`: an error that stands for a token; `failing`: the tokens without values in order;
* **`resolveAll_reports`**: the errors report the failing tokens, one by one.
-/

namespace DesignTokens

open Relation

section Reports

variable (all : Contexts Flat) (view : Context)

/-! ## What an error says -/

/-- The token that is visible at `x` has a reference to `y`. -/
def Mentions (x y : String) : Prop :=
  ∃ w, lookup? all view x = some w ∧ ∃ property, ⟨⟨y⟩, property⟩ ∈ w.uses

/-- What is reported for a token is there. -/
inductive Truthful (t : FlatToken) : ResolutionError → Prop
  /-- The chain leads along references back to its beginning, without another repetition, and the
  token reaches it. -/
  | circular {path first : String} {rest : List String} {origin : Origin} {u : FlatToken}
    (seen : lookup? all view first = some u) (reaches : Reaches all view t u)
    (nodup : (first :: rest).Nodup) (steps : List.IsChain (Mentions all view) (first :: rest ++ [first])) :
    Truthful t (.circular path (first :: rest ++ [first]) origin)
  /-- The path is written in a token that is reached, and nothing is visible there. -/
  | missing {path reference : String} {property : Option String} {origin : Origin} {w : FlatToken}
    (reaches : Reaches all view t w) (written : ⟨⟨reference⟩, property⟩ ∈ w.uses)
    (absent : lookup? all view reference = none) :
    Truthful t (.missing path reference property origin)
  /-- The reference is written in a token that is reached, and the types do not fit. -/
  | typeMismatch {path reference : String} {property : Option String} {expected found : TokenType}
    {origin : Origin} {w u : FlatToken} {R : Resolved} (reaches : Reaches all view t w)
    (written : ⟨⟨reference⟩, property⟩ ∈ w.uses) (expects : expectedType? w property = some expected)
    (seen : lookup? all view reference = some u) (denotes : Denotes all view u R)
    (finds : R.type = some found) (misfit : found.fits expected = false) :
    Truthful t (.typeMismatch path reference property expected found origin)

variable {all view} {t u w : FlatToken} {e : ResolutionError}

theorem reaches_of_leads (leads : ReflTransGen (Blames all view) t u) : Reaches all view t u :=
  ReflTransGen.mono (fun _ _ => Blames.refers) _ _ leads

theorem Blames.own (keyed : all.Keyed) (h : Blames all view t u) :
    lookup? all view u.path = some u := by
  obtain ⟨o, -, seen, -⟩ := h
  rw [keyed.path_of_lookup? seen]
  exact seen

theorem Blames.mentions (keyed : all.Keyed) (own : lookup? all view t.path = some t)
    (h : Blames all view t u) : Mentions all view t.path u.path := by
  obtain ⟨o, first, seen, -⟩ := h
  refine ⟨t, own, o.property, ?_⟩
  rw [keyed.path_of_lookup? seen]
  exact first.mem_uses

theorem own_of_mem_cycle (keyed : all.Keyed) {C : Cycle FlatToken} (chain : C.Chain (Blames all view))
    (ht : t ∈ C) : lookup? all view t.path = some t := by
  have cycle : C.Chain (TransGen (Blames all view)) := chain.imp fun _ _ => TransGen.single
  obtain ⟨w, -, blames⟩ := TransGen.tail'_iff.1 (Cycle.chain_iff_pairwise.1 cycle t ht t ht)
  exact blames.own keyed

/-- **The chain of a cycle.** -/
theorem truthful_of_cycle (keyed : all.Keyed) {rest : List FlatToken} (reaches : Reaches all view t u)
    (chain : Cycle.Chain (Blames all view) (u :: rest : List FlatToken)) (nodup : (u :: rest).Nodup)
    (path : String) (origin : Origin) :
    Truthful all view t (.circular path ((u :: rest).map FlatToken.path ++ [u.path]) origin) := by
  have own : ∀ w ∈ u :: rest, lookup? all view w.path = some w := fun w hw =>
    own_of_mem_cycle keyed chain (Cycle.mem_coe_iff.2 hw)
  have paths : ((u :: rest).map FlatToken.path).Nodup :=
    nodup.map_on fun x hx y hy same =>
      Option.some.inj ((own x hx).symm.trans (same ▸ own y hy))
  refine .circular (own u List.mem_cons_self) reaches paths ?_
  rw [Cycle.chain_coe_cons, ← List.cons_append] at chain
  have steps : List.IsChain (fun x y => Mentions all view x.path y.path) (u :: rest ++ [u]) :=
    chain.imp_of_mem_imp fun x y hx _ blames => blames.mentions keyed (own x (by simpa [or_comm] using hx))
  have mapped := List.isChain_map_of_isChain FlatToken.path (fun _ _ h => h) steps
  simpa using mapped

/-- **The error of a token reports what is there.** -/
theorem Fails.truthful (keyed : all.Keyed) (h : Fails all view t e) : Truthful all view t e := by
  cases h with
  | missing leads first absent =>
    exact .missing (reaches_of_leads leads) first.mem_uses absent
  | @mismatch w u o R expected found leads first seen denotes expects finds =>
    refine .typeMismatch (reaches_of_leads leads) first.mem_uses expects seen denotes finds ?_
    -- a type that fits would make the reference fine
    obtain ⟨before, after, -, -, fault⟩ := first
    refine Bool.eq_false_iff.2 fun fits => fault ⟨u, R, seen, denotes, fun e he f hf => ?_⟩
    rw [expects, Option.mem_some_iff] at he
    rw [finds, Option.mem_some_iff] at hf
    rw [← he, ← hf]
    exact fits
  | circular leads chain nodup => exact truthful_of_cycle keyed (reaches_of_leads leads) chain nodup _ _

/-! ## The errors of all contexts -/

variable (all) in
/-- The token has no value among those that come out. -/
def isFailing (c : Context) (t : FlatToken) : Bool := ((resolveAll all).token? c t.path).isNone

variable (all) in
/-- The tokens without a value, context by context in the order of the declarations. -/
def failing : List (Context × FlatToken) :=
  all.keys.flatMap fun c => ((declared all c).filter (isFailing all c)).map (c, ·)

variable (all) in
/-- The error of a token: with its path and its origin, and with a fault that is there as seen from
the context. -/
structure ErrorOf (f : Context × FlatToken) (e : ResolutionError) : Prop where
  path : e.path = f.2.path
  origin : e.origin = f.2.origin
  truthful : Truthful all f.1 f.2 e

theorem isFailing_iff (keyed : all.Keyed) {c : Context} (ht : t ∈ declared all c) {o : Outcome}
    (justified : Justified all c t o) : isFailing all c t = true ↔ ∃ e, o = .error e := by
  unfold isFailing
  cases o with
  | ok R =>
    have denotes : Denotes all c t R := justified
    rcases token?_or_error keyed ht with ⟨rt, hrt⟩ | ⟨unsound, -⟩
    · simp [hrt]
    · exact absurd denotes.sound unsound
  | error e =>
    have failed : Fails all c t e := justified
    refine ⟨fun _ => ⟨e, rfl⟩, fun _ => Option.isNone_iff_eq_none.2 ?_⟩
    refine Option.eq_none_iff_forall_ne_some.2 fun rt hrt => failed.unsound ?_
    exact (denotes_of_mem_declared keyed ht hrt).2.sound

theorem forall₂_failure? (keyed : all.Keyed) {c : Context} {out : String → Outcome}
    {ts : List FlatToken} (declared : ∀ t ∈ ts, t ∈ declared all c)
    (justified : ∀ t ∈ ts, Justified all c t (out t.path)) :
    List.Forall₂ (ErrorOf all) ((ts.filter (isFailing all c)).map (c, ·))
      ((ts.map fun t => (t, out t.path)).filterMap failure?) := by
  induction ts with
  | nil => exact .nil
  | cons t ts ih =>
    obtain ⟨ht, hts⟩ := List.forall_mem_cons.1 declared
    obtain ⟨justifiedT, justifiedTs⟩ := List.forall_mem_cons.1 justified
    have rest := ih hts justifiedTs
    have iff := isFailing_iff keyed ht justifiedT
    rw [List.map_cons]
    cases ho : out t.path with
    | ok R =>
      have some : ¬ isFailing all c t = true := by simp [iff, ho]
      rw [List.filter_cons_of_neg some, List.filterMap_cons_none rfl]
      exact rest
    | error e =>
      have none : isFailing all c t = true := iff.2 ⟨e, ho⟩
      rw [ho] at justifiedT
      have failed : Fails all c t e := justifiedT
      have found : failure? (t, .error e) = some e := rfl
      rw [List.filter_cons_of_pos none, List.filterMap_cons_some found, List.map_cons]
      exact .cons ⟨failed.path, failed.origin, failed.truthful keyed⟩ rest

/-- **The errors report the failing tokens, one by one**: each token without a value has one error, in
the order of the declarations, with its own path and origin and with a fault that is there. -/
theorem resolveAll_reports (keyed : all.Keyed) :
    List.Forall₂ (ErrorOf all) (failing all) (resolveAll all).errors := by
  obtain ⟨out, result, justified⟩ := resolveAll_eq_assemble keyed
  have errors : (resolveAll all).errors =
      all.entries.flatMap fun e => (runOf out e).filterMap failure? := by rw [result]; rfl
  rw [errors, failing, Table.keys, List.flatMap_map]
  have same : List.Forall₂ (fun e e' => e = e' ∧ e ∈ all.entries) all.entries all.entries :=
    List.forall₂_same.2 fun e he => ⟨rfl, he⟩
  refine List.rel_flatMap same ?_
  rintro e _ ⟨rfl, he⟩
  have own := declared_of_mem_entries keyed he
  beta_reduce
  rw [own, runOf]
  exact forall₂_failure? keyed (fun t ht => own ▸ ht) fun t ht => justified e.1 t (own ▸ ht)

end Reports

/-! ## A cycle at night -/

/-- A token without a type of its own. -/
def untyped (path value : String) : String × Node :=
  (path, .token ⟨.str value, none, none, none, none⟩)

/-- A color and one that refers to it; at night, the first refers back, and a third one to the first. -/
def turningTrees : List Tree :=
  [⟨.base, ⟨.empty, [untyped "a" "\x7bb\x7d", untyped "b" "#000"]⟩, ⟨"base.json"⟩⟩,
    ⟨nightContext, ⟨.empty, [untyped "b" "\x7ba\x7d", untyped "c" "\x7bb\x7d"]⟩, ⟨"night.json"⟩⟩]

/-- The cycle of a token at night. -/
def nightError (path : String) : ResolutionError :=
  .circular path ["b", "a", "b"] ⟨⟨"night.json"⟩, nightContext⟩

theorem errors_turningTrees :
    (resolveAll (flatten turningTrees)).errors = [nightError "b", nightError "c"] :=
  errors_of_within 3 rfl

/-- The third color fails with the cycle of the first, under its own path. -/
theorem resolveAll_reports_turningTrees : (flatten turningTrees).Keyed ∧
    List.Forall₂ (ErrorOf (flatten turningTrees)) (failing (flatten turningTrees))
      [nightError "b", nightError "c"] := by
  have reports := resolveAll_reports (keyed_flatten turningTrees)
  rw [errors_turningTrees] at reports
  exact ⟨keyed_flatten turningTrees, reports⟩

end DesignTokens
