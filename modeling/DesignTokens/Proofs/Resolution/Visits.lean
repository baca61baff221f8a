import DesignTokens.Proofs.Resolution.Order
import DesignTokens.Proofs.Resolution.Reports
import DesignTokens.Proofs.Resolution.Walker
import Mathlib.Data.Finset.Card
import Mathlib.Data.Finset.Dedup

/-!
# Visits while others are under way

Whatever a visit ends with, the stack is afterwards what it was before. On it stand the paths under way, each
with a reference to the next one, and the visits nested in a visit have one more path on the stack.

* `offStack`: the visible paths that are not on the stack;
* `Visit.Orderly`: what is to hold of a visit;
* `MayFollow`: references that the last path mentions; `Task.Ready`: where a procedure is run;
* **`Runs.orderly`**: the visits of a run are orderly, at any depth;
* `Walks`, `WalksAll`: the tokens of a context, and of all contexts, visited one after the other;
* **`resolveAll_visits`**: all tokens can be visited, their values come of the visits, and the visits are
  orderly.
-/

namespace DesignTokens

/-- The memo has all that another one has. -/
def Memo.Keeps (memo memo' : Memo) : Prop := ∀ key o, memo.get? key = some o → memo'.get? key = some o

theorem Memo.Keeps.refl {memo : Memo} : memo.Keeps memo := fun _ _ h => h

theorem Memo.Keeps.trans {memo memo' memo'' : Memo} (h : memo.Keeps memo') (h' : memo'.Keeps memo'') :
    memo.Keeps memo'' := fun key o known => h' key o (h key o known)

theorem Extends.keeps {view : Context} {w w' : Walker} (h : Extends view w w') : w.memo.Keeps w'.memo := by
  obtain ⟨-, added, entries, -⟩ := h
  intro key o known
  unfold Table.get? at known ⊢
  rw [entries, Table.find?_append, known]
  rfl

theorem keeps_finish {view : Context} {w w' : Walker} {t : FlatToken} {o : Outcome}
    (fresh : t.path ∉ w.visiting) (new : w.memo.get? (view, t.path) = none)
    (h : Extends view (w.enter t.path) w') : w'.memo.Keeps (w'.finish view t o).memo := by
  intro key other known
  have apart : key ≠ (view, t.path) := by
    rintro rfl
    rw [Table.get?_eq_none_iff.2 (notMem_keys fresh new h)] at known
    cases known
  exact (Table.get?_insert_of_ne apart _ _).trans known

section Orderly

variable (all : Contexts Flat) (view : Context)

/-- The paths that a context sees and that are not on the stack. -/
def offStack (stack : List String) : Finset String :=
  ((visible all view).map FlatToken.path).toFinset.filter (· ∉ stack)

/-- **An orderly visit.** -/
structure Visit.Orderly (v : Visit) : Prop where
  /-- The token is visible. -/
  seen : v.token ∈ visible all view
  /-- It is not under way already. -/
  fresh : v.token.path ∉ v.before.visiting
  /-- The paths under way refer to one another, and the last one to the token. -/
  linked : all.Keyed → (v.before.visiting ++ [v.token.path]).IsChain (Mentions all view)
  /-- The stack is what it was. -/
  stack : v.after.visiting = v.before.visiting
  /-- What was known is known still. -/
  kept : v.before.memo.Keeps v.after.memo
  /-- It was known on the way, and so is afterwards what became known on the way. -/
  keptOnWay : ∀ u ∈ v.nested, v.before.memo.Keeps u.before.memo ∧ u.after.memo.Keeps v.after.memo
  /-- The visits that it leads to have its path on the stack besides, so that fewer are off it. -/
  nested : ∀ u ∈ v.nested, u.before.visiting = v.before.visiting ++ [v.token.path] ∧
    (offStack all view u.before.visiting).card < (offStack all view v.before.visiting).card
  /-- The outcome and the memo are those of the walk. -/
  found : ∀ seen fresh, resolve all view v.before.visiting v.token seen fresh v.before.memo =
    (v.outcome, v.after.memo)

/-- Each of the references may be followed: the last path on the stack mentions it. -/
def MayFollow (stack : List String) (os : List Use) : Prop :=
  ∀ o ∈ os, (stack ++ [o.reference.path]).IsChain (Mentions all view)

/-- Where a procedure is run: a token is visible, not under way, and mentioned by the last path that is; the
references in a value are mentioned by it. -/
def Task.Ready (w : Walker) : Task → Prop
  | .token t => t ∈ visible all view ∧ t.path ∉ w.visiting ∧
    (all.Keyed → lookup? all view t.path = some t ∧ (w.visiting ++ [t.path]).IsChain (Mentions all view))
  | .reference _ r property => all.Keyed → MayFollow all view w.visiting [⟨r, property⟩]
  | .value _ property j => all.Keyed → MayFollow all view w.visiting (j.uses property)
  | .items _ property js => all.Keyed → MayFollow all view w.visiting (Json.itemUses property js)
  | .members _ ms => all.Keyed → MayFollow all view w.visiting (Json.memberUses ms)

/-- The stack of the visits that a procedure leads to. -/
def Task.under (w : Walker) : Task → List String
  | .token t => w.visiting ++ [t.path]
  | _ => w.visiting

end Orderly

section Nested

variable {all : Contexts Flat} {view : Context} {w w' : Walker} {t : FlatToken}

theorem offStack_card_lt {stack : List String} (seen : t ∈ visible all view) (fresh : t.path ∉ stack) :
    (offStack all view (stack ++ [t.path])).card < (offStack all view stack).card := by
  refine Finset.card_lt_card (Finset.ssubset_iff_subset_ne.2 ⟨?_, ?_⟩)
  · intro path h
    simp only [offStack, Finset.mem_filter, List.mem_append, not_or] at h ⊢
    exact ⟨h.1, h.2.1⟩
  · intro same
    have mem : t.path ∈ offStack all view stack := by
      simp only [offStack, Finset.mem_filter, List.mem_toFinset]
      exact ⟨List.mem_map_of_mem seen, fresh⟩
    rw [← same] at mem
    simp [offStack] at mem

/-- **The visits on the way** all have the same stack, and are made between the two states. -/
theorem Runs.nested {task : Task} {answer : Except ResolutionError task.Answer} {visits : List Visit}
    (h : Runs all view task w answer w' visits) (free : task.Free w) : ∀ v ∈ visits,
      v.before.visiting = task.under w ∧ w.memo.Keeps v.before.memo ∧ v.after.memo.Keeps w'.memo := by
  induction h with
  | known | missing | circular | kept | itemsEnd | membersEnd => simp
  | whole new _ h ih | plain new _ h ih =>
    intro v hv
    obtain ⟨stack, before, after⟩ := ih trivial v hv
    exact ⟨stack.trans (visiting_enter free), before,
      after.trans (keeps_finish free new (h.extends trivial))⟩
  | target =>
    intro v hv
    obtain rfl := List.mem_singleton.1 hv
    exact ⟨rfl, .refl, .refl⟩
  | text _ _ ih | arr _ ih | obj _ ih | itemsFail _ ih | membersFail _ ih => exact ih trivial
  | itemsNext h h' ih ih' | membersNext h h' ih ih' =>
    have first := h.extends trivial
    have rest := h'.extends trivial
    intro v hv
    rcases List.mem_append.1 hv with hv | hv
    · obtain ⟨stack, before, after⟩ := ih trivial v hv
      exact ⟨stack, before, after.trans rest.keeps⟩
    · obtain ⟨stack, before, after⟩ := ih' trivial v hv
      exact ⟨stack.trans first.stack, first.keeps.trans before, after⟩

theorem Visit.orderly_of_nested {o : Outcome} {visits : List Visit}
    (h : Runs all view (.token t) w o w' visits) (ready : Task.Ready all view w (.token t))
    (inner : ∀ v ∈ visits, ∀ u : Visit, u.Within v → u.Orderly all view) :
    ∀ u : Visit, u.Within ⟨w, t, o, w', visits⟩ → u.Orderly all view := by
  obtain ⟨seen, fresh, linked⟩ := ready
  have extends' := h.extends fresh
  have nested := h.nested fresh
  intro u hu
  cases hu with
  | nested hu hv => exact inner _ hv u hu
  | self =>
    refine ⟨seen, fresh, fun keyed => (linked keyed).2, extends'.stack, extends'.keeps, ?_, ?_, h.agrees⟩
    · exact fun v hv => (nested v hv).2
    · intro v hv
      have stack := (nested v hv).1
      exact ⟨stack, stack.symm ▸ offStack_card_lt seen fresh⟩

theorem mayFollow_of_linked (own : lookup? all view t.path = some t)
    (chain : (w.visiting ++ [t.path]).IsChain (Mentions all view)) :
    MayFollow all view (w.visiting ++ [t.path]) t.uses := by
  intro o ho
  rw [List.isChain_append]
  refine ⟨chain, .singleton _, fun x hx y hy => ?_⟩
  obtain rfl : t.path = x := by simpa using hx
  obtain rfl : o.reference.path = y := by simpa using hy
  exact ⟨t, own, o.property, ho⟩

/-- **The visits of a run are orderly**, at any depth. -/
theorem Runs.orderly {task : Task} {answer : Except ResolutionError task.Answer} {visits : List Visit}
    (h : Runs all view task w answer w' visits) (ready : task.Ready all view w) :
    ∀ v ∈ visits, ∀ u : Visit, u.Within v → u.Orderly all view := by
  induction h with
  | known | missing | circular | kept | itemsEnd | membersEnd => simp
  | whole _ refers _ ih =>
    obtain ⟨-, fresh, linked⟩ := ready
    refine ih fun keyed => ?_
    obtain ⟨own, chain⟩ := linked keyed
    rw [visiting_enter fresh, ← FlatToken.uses_of_alias refers]
    exact mayFollow_of_linked own chain
  | plain _ _ _ ih =>
    obtain ⟨-, fresh, linked⟩ := ready
    refine ih fun keyed => ?_
    obtain ⟨own, chain⟩ := linked keyed
    rw [visiting_enter fresh]
    exact mayFollow_of_linked own chain
  | @target _ target _ _ w _ _ _ seen offStack h ih =>
    have ready' : Task.Ready all view w (.token target) := by
      refine ⟨mem_visible_of_lookup? seen, offStack, fun keyed => ?_⟩
      -- The path of the reference is mentioned; the token that is found there has it as its own.
      rw [keyed.path_of_lookup? seen]
      exact ⟨seen, ready keyed _ List.mem_cons_self⟩
    intro v hv
    obtain rfl := List.mem_singleton.1 hv
    exact Visit.orderly_of_nested h ready' (ih ready')
  | text refers _ ih =>
    refine ih fun keyed => ?_
    have here := ready keyed
    rwa [Json.uses, refers] at here
  | arr _ ih | obj _ ih => exact ih ready
  | itemsFail _ ih | membersFail _ ih => exact ih fun keyed => (List.forall_mem_append.1 (ready keyed)).1
  | itemsNext h _ ih ih' | membersNext h _ ih ih' =>
    -- The rest is run on the same stack, for the first part has left it as it was.
    have first := ih fun keyed => (List.forall_mem_append.1 (ready keyed)).1
    have rest := ih' fun keyed => (h.extends trivial).stack ▸ (List.forall_mem_append.1 (ready keyed)).2
    exact List.forall_mem_append.2 ⟨first, rest⟩

end Nested

/-! ## All tokens -/

section Walks

variable (all : Contexts Flat)

/-- Tokens are visited one after the other, as one context sees them. -/
inductive Walks (view : Context) : List FlatToken → Walker → List Visit → Walker → Prop
  | nil {w : Walker} : Walks view [] w [] w
  | cons {t : FlatToken} {ts : List FlatToken} {w w' w'' : Walker} {o : Outcome} {nested visits : List Visit}
    (h : Runs all view (.token t) w o w' nested) (h' : Walks view ts w' visits w'') :
    Walks view (t :: ts) w (⟨w, t, o, w', nested⟩ :: visits) w''

/-- The tokens that the contexts declare are visited, one context after the other. -/
inductive WalksAll : List Context → Walker → List (Context × List Visit) → Walker → Prop
  | nil {w : Walker} : WalksAll [] w [] w
  | cons {c : Context} {cs : List Context} {w w' w'' : Walker} {visits : List Visit}
    {runs : List (Context × List Visit)} (h : Walks all c (declared all c) w visits w')
    (h' : WalksAll cs w' runs w'') : WalksAll (c :: cs) w ((c, visits) :: runs) w''

/-- What comes of visits, after what came of others. -/
def Progress.addVisits (p : Progress) (visits : List Visit) : Progress :=
  visits.foldl (fun p v => p.add v.token v.outcome v.after.memo) p

/-- What comes of the visits for all contexts. -/
def Resolution.ofRuns (runs : List (Context × List Visit)) : Resolution :=
  ⟨⟨runs.map fun run => (run.1, (Progress.addVisits ⟨.empty, [], .empty⟩ run.2).tokens)⟩,
    runs.flatMap fun run => (Progress.addVisits ⟨.empty, [], .empty⟩ run.2).errors⟩

variable {all} {c : Context} {ts : List FlatToken} {cs : List Context} {w w' : Walker} {visits : List Visit}
  {runs : List (Context × List Visit)}

theorem memo_add (p : Progress) (t : FlatToken) (o : Outcome) (memo : Memo) :
    (p.add t o memo).memo = memo := by cases o <;> rfl

theorem Progress.addVisits_congr {p q : Progress} (tokens : p.tokens = q.tokens)
    (errors : p.errors = q.errors) (visits : List Visit) :
    (p.addVisits visits).tokens = (q.addVisits visits).tokens ∧
      (p.addVisits visits).errors = (q.addVisits visits).errors := by
  induction visits generalizing p q with
  | nil => exact ⟨tokens, errors⟩
  | cons v visits ih =>
    refine ih ?_ ?_ <;> cases ho : v.outcome <;> simp [Progress.add, ho, tokens, errors]

theorem Walks.stack (h : Walks all c ts w visits w') (stack : w.visiting = []) : w'.visiting = [] := by
  induction h with
  | nil => exact stack
  | cons run _ ih => exact ih ((run.extends (by simp [Task.Free, stack])).stack.trans stack)

theorem Walks.resolveTokens_eq (h : Walks all c ts w visits w') (stack : w.visiting = [])
    (seen : ∀ t ∈ ts, t ∈ visible all c) {p : Progress} (hp : p.memo = w.memo) :
    resolveTokens all c ts seen p = p.addVisits visits ∧ (p.addVisits visits).memo = w'.memo := by
  induction h generalizing p with
  | nil => exact ⟨rfl, hp⟩
  | @cons t ts w w' w'' o nested visits run _ ih =>
    have fresh : t.path ∉ w.visiting := by simp [stack]
    have found := run.agrees (seen t List.mem_cons_self) fresh
    have found' : resolve all c [] t (seen t (by simp)) (by simp) p.memo = (o, w'.memo) := by
      rw [hp]
      simpa only [stack] using found
    rw [resolveTokens, found']
    exact ih ((run.extends fresh).stack.trans stack) _ (memo_add ..)

/-- **The contexts are resolved as their tokens are visited.** -/
theorem WalksAll.resolveContexts_eq (h : WalksAll all cs w runs w') (stack : w.visiting = []) :
    resolveContexts all w.memo cs =
      ((Resolution.ofRuns runs).contexts.entries, (Resolution.ofRuns runs).errors) := by
  induction h with
  | nil => rfl
  | @cons c cs w w' w'' visits runs walk _ ih =>
    obtain ⟨context, memo⟩ := walk.resolveTokens_eq stack (fun _ h => List.mem_append_left _ h)
      (p := ⟨.empty, [], w.memo⟩) rfl
    obtain ⟨tokens, errors⟩ := Progress.addVisits_congr (p := ⟨.empty, [], w.memo⟩)
      (q := ⟨.empty, [], .empty⟩) rfl rfl visits
    rw [resolveContexts, resolveContext, context]
    simp only [memo, ih (walk.stack stack), tokens, errors]
    rfl

theorem exists_walks (stack : w.visiting = []) (seen : ∀ t ∈ ts, t ∈ visible all c) :
    ∃ visits w', Walks all c ts w visits w' := by
  induction ts generalizing w with
  | nil => exact ⟨_, _, .nil⟩
  | cons t ts ih =>
    have fresh : t.path ∉ w.visiting := by simp [stack]
    obtain ⟨o, w', nested, run⟩ := visitsEnd all c _ t (seen t List.mem_cons_self) fresh w rfl
    obtain ⟨_, _, walk⟩ := ih ((run.extends fresh).stack.trans stack) fun u hu =>
      seen u (List.mem_cons_of_mem _ hu)
    exact ⟨_, _, .cons run walk⟩

theorem exists_walksAll (stack : w.visiting = []) : ∃ runs w', WalksAll all cs w runs w' := by
  induction cs generalizing w with
  | nil => exact ⟨_, _, .nil⟩
  | cons c cs ih =>
    have seen : ∀ t ∈ declared all c, t ∈ visible all c := fun _ h => List.mem_append_left _ h
    obtain ⟨_, _, walk⟩ := exists_walks stack seen
    obtain ⟨_, _, more⟩ := ih (walk.stack stack)
    exact ⟨_, _, .cons walk more⟩

theorem Walks.orderly (h : Walks all c ts w visits w') (stack : w.visiting = [])
    (seen : ∀ t ∈ ts, t ∈ declared all c) :
    ∀ v ∈ visits, ∀ u : Visit, u.Within v → u.Orderly all c := by
  induction h with
  | nil => simp
  | @cons t ts w w' w'' o nested visits run _ ih =>
    have fresh : t.path ∉ w.visiting := by simp [stack]
    have here := seen t List.mem_cons_self
    have ready : Task.Ready all c w (.token t) := by
      refine ⟨List.mem_append_left _ here, fresh, fun keyed => ?_⟩
      rw [stack]
      exact ⟨keyed.lookup?_of_mem_declared here, .singleton _⟩
    refine List.forall_mem_cons.2 ⟨Visit.orderly_of_nested run ready (run.orderly ready), ?_⟩
    exact ih ((run.extends fresh).stack.trans stack) fun u hu => seen u (List.mem_cons_of_mem _ hu)

theorem WalksAll.orderly (h : WalksAll all cs w runs w') (stack : w.visiting = []) :
    ∀ run ∈ runs, ∀ v ∈ run.2, ∀ u : Visit, u.Within v → u.Orderly all run.1 := by
  induction h with
  | nil => simp
  | cons walk _ ih =>
    exact List.forall_mem_cons.2 ⟨walk.orderly stack fun _ h => h, ih (walk.stack stack)⟩

end Walks

/-- **All tokens can be visited**, and however they are: what is resolved comes of the visits, and every
visit is orderly, at any depth and whatever its outcome. -/
theorem resolveAll_visits (all : Contexts Flat) :
    (∃ runs w, WalksAll all all.keys .start runs w) ∧
      ∀ runs w, WalksAll all all.keys .start runs w →
        resolveAll all = Resolution.ofRuns runs ∧
          ∀ run ∈ runs, ∀ v ∈ run.2, ∀ u : Visit, u.Within v → u.Orderly all run.1 := by
  refine ⟨exists_walksAll rfl, fun runs w walk => ⟨?_, walk.orderly rfl⟩⟩
  rw [resolveAll, show Table.empty = Walker.start.memo from rfl, walk.resolveContexts_eq rfl]

/-! ## Two tokens in a cycle -/

/-- The error of a token in a cycle of two, as an outcome. -/
def turningOutcome (path : String) : Outcome := .error (turningError path ["a", "b", "a"])

/-- The first token is under way, and nothing is known. -/
def turningBelow : Walker := ⟨.empty, ["a"]⟩

/-- The second token has been visited below the first one. -/
def turningBetween : Walker := ⟨⟨[((.base, "b"), turningOutcome "b")]⟩, ["a"]⟩

/-- Both have been visited. -/
def turningBehind : Walker :=
  ⟨⟨[((.base, "b"), turningOutcome "b"), ((.base, "a"), turningOutcome "a")]⟩, []⟩

/-- The visit of the second token below the first one. -/
def turningNested : Visit :=
  ⟨turningBelow, (turning "b" "\x7ba\x7d").2, turningOutcome "b", turningBetween, []⟩

/-- The visits of the two tokens; the outcome of the second one is known when its turn comes. -/
def turningVisits : List Visit :=
  [⟨.start, (turning "a" "\x7bb\x7d").2, turningOutcome "a", turningBehind, [turningNested]⟩,
    ⟨turningBehind, (turning "b" "\x7ba\x7d").2, turningOutcome "b", turningBehind, []⟩]

theorem walksAll_turningVisits :
    WalksAll turningAround turningAround.keys .start [(.base, turningVisits)] turningBehind := by
  obtain ⟨a, b⟩ := parse?_turning
  have seen : lookup? turningAround .base "a" = some (turning "a" "\x7bb\x7d").2 := rfl
  have onStack : "a" ∈ (turningBelow.enter "b").visiting := by decide
  have circular : Runs turningAround .base (.reference (turning "b" "\x7ba\x7d").2 ⟨"a"⟩ none)
      (turningBelow.enter "b") (turningOutcome "b") (turningBelow.enter "b") [] :=
    .circular (t := (turning "b" "\x7ba\x7d").2) (r := ⟨"a"⟩) seen onStack
  have nested : Runs turningAround .base (.token (turning "b" "\x7ba\x7d").2) turningBelow
      (turningOutcome "b") turningBetween [] :=
    .whole (t := (turning "b" "\x7ba\x7d").2) rfl a circular
  have target : Runs turningAround .base (.reference (turning "a" "\x7bb\x7d").2 ⟨"b"⟩ none) turningBelow
      (turningOutcome "a") turningBetween [turningNested] := .target rfl (by decide) nested
  have first := Runs.whole (t := (turning "a" "\x7bb\x7d").2) (w := .start) rfl b target
  exact .cons (.cons first (.cons (.known rfl) .nil)) .nil

/-- In a cycle of two the second token is visited below the first one, whose path is on the stack. -/
theorem resolveAll_visits_turningVisits :
    WalksAll turningAround turningAround.keys .start [(.base, turningVisits)] turningBehind ∧
      resolveAll turningAround = Resolution.ofRuns [(.base, turningVisits)] ∧
      turningNested.Orderly turningAround .base ∧ turningNested.before.visiting = ["a"] := by
  obtain ⟨resolved, orderly⟩ := (resolveAll_visits turningAround).2 _ _ walksAll_turningVisits
  refine ⟨walksAll_turningVisits, resolved, ?_, rfl⟩
  exact orderly _ List.mem_cons_self _ List.mem_cons_self _ (.nested .self List.mem_cons_self)

end DesignTokens
