import DesignTokens.Proofs.Resolution.Walk
import DesignTokens.Proofs.Tables

/-!
# The walk with a stack that changes

The walk can be run on one stack that all visits share: a visit puts its path on it and takes it off again,
also where something below has failed. A run is written down with the visits that are nested in each visit.

* `Walker`, `Walker.enter`, `Walker.leave`, `Walker.record`: what a walk changes;
* `Task`, `Visit`, `Runs`: the procedures of the walk, run to their ends;
* `Extends`, **`Runs.extends`**: a run leaves the stack as it was, and adds to the memo what was not known;
* **`Runs.agrees`**: the outcome and the memo are those of the walk whose stack is an argument;
* `Ends`, `VisitsEnd`, **`visitsEnd`**: every visit of a visible token ends.
-/

namespace DesignTokens

/-- What a walk along references changes. -/
structure Walker where
  memo : Memo
  /-- The paths under way, in the order in which they were reached. -/
  visiting : List String

namespace Walker

/-- Nothing is known and nothing under way. -/
def start : Walker := ⟨.empty, []⟩

/-- A path put on the stack, unless it is there. -/
def enter (w : Walker) (path : String) : Walker :=
  { w with visiting := if path ∈ w.visiting then w.visiting else w.visiting ++ [path] }

/-- A path taken off the stack, wherever it is. -/
def leave (w : Walker) (path : String) : Walker := { w with visiting := w.visiting.erase path }

/-- One more outcome known. -/
def record (w : Walker) (key : Context × String) (o : Outcome) : Walker :=
  { w with memo := w.memo.insert key o }

/-- The state behind the visit of a token. -/
def finish (w : Walker) (view : Context) (t : FlatToken) (o : Outcome) : Walker :=
  (w.leave t.path).record (view, t.path) o

end Walker

/-- A procedure of the walk, with what it is given; `t` is always the token that is visited. -/
inductive Task where
  | token (t : FlatToken)
  | reference (t : FlatToken) (r : Reference) (property : Option String)
  | value (t : FlatToken) (property : Option String) (j : Json)
  | items (t : FlatToken) (property : Option String) (items : List Json)
  | members (t : FlatToken) (members : List (String × Json))

/-- What a procedure finds. -/
abbrev Task.Answer : Task → Type
  | .token _ => Resolved
  | .reference _ _ _ => Resolved
  | .value _ _ _ => Json
  | .items _ _ _ => List Json
  | .members _ _ => List (String × Json)

/-- A visit of a token that has ended. -/
structure Visit where
  before : Walker
  token : FlatToken
  outcome : Outcome
  after : Walker
  /-- The visits of tokens that this one led to. -/
  nested : List Visit

/-- A visit, or one nested in it at any depth. -/
inductive Visit.Within : Visit → Visit → Prop
  | self {v : Visit} : Within v v
  | nested {u v w : Visit} (h : Within u v) (hv : v ∈ w.nested) : Within u w

/-- Whether the value is kept as it is. -/
def Json.isKept : Json → Bool
  | .null | .bool _ | .num _ => true
  | .str s => (Reference.parse? s).isNone
  | .arr _ | .obj _ => false

section Runs

variable (all : Contexts Flat) (view : Context)

/-- A procedure begins in one state and ends in another, with an answer or a failure and the visits on the
way. -/
inductive Runs : (task : Task) → Walker → Except ResolutionError task.Answer → Walker →
    List Visit → Prop
  /-- The outcome is known. -/
  | known {t : FlatToken} {w : Walker} {done : Outcome} (known : w.memo.get? (view, t.path) = some done) :
    Runs (.token t) w done w []
  /-- The token is nothing but a reference. -/
  | whole {t : FlatToken} {r : Reference} {w w' : Walker} {found : Outcome} {visits : List Visit}
    (new : w.memo.get? (view, t.path) = none) (refers : Reference.ofJson? t.value = some r)
    (h : Runs (.reference t r none) (w.enter t.path) found w' visits) :
    Runs (.token t) w (found.map fun target => ⟨target.value, t.type <|> target.type⟩)
      (w'.finish view t (found.map fun target => ⟨target.value, t.type <|> target.type⟩)) visits
  /-- The token is more than a reference. -/
  | plain {t : FlatToken} {w w' : Walker} {found : Except ResolutionError Json} {visits : List Visit}
    (new : w.memo.get? (view, t.path) = none) (plain : Reference.ofJson? t.value = none)
    (h : Runs (.value t none t.value) (w.enter t.path) found w' visits) :
    Runs (.token t) w (found.map fun v => ⟨v, t.type⟩)
      (w'.finish view t (found.map fun v => ⟨v, t.type⟩)) visits
  | missing {t : FlatToken} {r : Reference} {property : Option String} {w : Walker}
    (none : lookup? all view r.path = none) :
    Runs (.reference t r property) w (.error (.missing t.path r.path property t.origin)) w []
  | circular {t target : FlatToken} {r : Reference} {property : Option String} {w : Walker}
    (seen : lookup? all view r.path = some target) (onStack : target.path ∈ w.visiting) :
    Runs (.reference t r property) w
      (.error (.circular t.path (w.visiting.dropWhile (· ≠ target.path) ++ [target.path]) t.origin)) w []
  /-- The token at the reference is visited. -/
  | target {t target : FlatToken} {r : Reference} {property : Option String} {w w' : Walker}
    {outcome : Outcome} {visits : List Visit} (seen : lookup? all view r.path = some target)
    (offStack : target.path ∉ w.visiting) (h : Runs (.token target) w outcome w' visits) :
    Runs (.reference t r property) w (passOn t r property outcome) w' [⟨w, target, outcome, w', visits⟩]
  | kept {t : FlatToken} {property : Option String} {j : Json} {w : Walker} (kept : j.isKept = true) :
    Runs (.value t property j) w (.ok j) w []
  | text {t : FlatToken} {property : Option String} {s : String} {r : Reference} {w w' : Walker}
    {found : Outcome} {visits : List Visit} (refers : Reference.parse? s = some r)
    (h : Runs (.reference t r property) w found w' visits) :
    Runs (.value t property (.str s)) w (found.map (·.value)) w' visits
  | arr {t : FlatToken} {property : Option String} {items : List Json} {w w' : Walker}
    {values : Except ResolutionError (List Json)} {visits : List Visit}
    (h : Runs (.items t property items) w values w' visits) :
    Runs (.value t property (.arr items)) w (values.map .arr) w' visits
  | obj {t : FlatToken} {property : Option String} {members : List (String × Json)} {w w' : Walker}
    {values : Except ResolutionError (List (String × Json))} {visits : List Visit}
    (h : Runs (.members t members) w values w' visits) :
    Runs (.value t property (.obj members)) w (values.map .obj) w' visits
  | itemsEnd {t : FlatToken} {property : Option String} {w : Walker} :
    Runs (.items t property []) w (.ok []) w []
  | itemsFail {t : FlatToken} {property : Option String} {j : Json} {rest : List Json} {w w' : Walker}
    {e : ResolutionError} {visits : List Visit} (h : Runs (.value t property j) w (.error e) w' visits) :
    Runs (.items t property (j :: rest)) w (.error e) w' visits
  | itemsNext {t : FlatToken} {property : Option String} {j v : Json} {rest : List Json}
    {w w' w'' : Walker} {values : Except ResolutionError (List Json)} {visits more : List Visit}
    (h : Runs (.value t property j) w (.ok v) w' visits)
    (h' : Runs (.items t property rest) w' values w'' more) :
    Runs (.items t property (j :: rest)) w (values.map (v :: ·)) w'' (visits ++ more)
  | membersEnd {t : FlatToken} {w : Walker} : Runs (.members t []) w (.ok []) w []
  | membersFail {t : FlatToken} {key : String} {j : Json} {rest : List (String × Json)} {w w' : Walker}
    {e : ResolutionError} {visits : List Visit} (h : Runs (.value t (some key) j) w (.error e) w' visits) :
    Runs (.members t ((key, j) :: rest)) w (.error e) w' visits
  | membersNext {t : FlatToken} {key : String} {j v : Json} {rest : List (String × Json)}
    {w w' w'' : Walker} {values : Except ResolutionError (List (String × Json))}
    {visits more : List Visit} (h : Runs (.value t (some key) j) w (.ok v) w' visits)
    (h' : Runs (.members t rest) w' values w'' more) :
    Runs (.members t ((key, j) :: rest)) w (values.map ((key, v) :: ·)) w'' (visits ++ more)

end Runs

/-! ## What a run changes -/

/-- Nothing of the stack is changed, and what is added to the memo was not known and is off the stack. -/
structure Extends (view : Context) (w w' : Walker) : Prop where
  stack : w'.visiting = w.visiting
  memo : ∃ added, w'.memo.entries = w.memo.entries ++ added ∧
    ∀ e ∈ added, e.1.1 = view ∧ e.1.2 ∉ w.visiting

/-- A token can be visited if its path is not on the stack, and any other procedure can run. -/
def Task.Free (w : Walker) : Task → Prop
  | .token t => t.path ∉ w.visiting
  | _ => True

section Extends

variable {all : Contexts Flat} {view : Context} {w w' w'' : Walker} {t : FlatToken}

theorem Extends.refl : Extends view w w := ⟨rfl, [], by simp, by simp⟩

theorem Extends.trans (h : Extends view w w') (h' : Extends view w' w'') : Extends view w w'' := by
  obtain ⟨stack, added, entries, off⟩ := h
  obtain ⟨stack', added', entries', off'⟩ := h'
  refine ⟨stack'.trans stack, added ++ added', by simp [entries, entries'], fun e he => ?_⟩
  rcases List.mem_append.1 he with he | he
  · exact off e he
  · exact stack ▸ off' e he

theorem visiting_enter (fresh : t.path ∉ w.visiting) :
    (w.enter t.path).visiting = w.visiting ++ [t.path] := if_neg fresh

theorem notMem_keys (fresh : t.path ∉ w.visiting) (new : w.memo.get? (view, t.path) = none)
    (h : Extends view (w.enter t.path) w') : (view, t.path) ∉ w'.memo.keys := by
  obtain ⟨-, added, entries, off⟩ := h
  rw [visiting_enter fresh] at off
  unfold Table.keys
  rw [entries, List.map_append, List.mem_append, not_or]
  refine ⟨Table.get?_eq_none_iff.1 new, fun mem => ?_⟩
  obtain ⟨e, he, same⟩ := List.mem_map.1 mem
  exact (off e he).2 (by simp [same])

/-- **One visit**: the path is taken off the stack, and the outcome is added to the memo. -/
theorem Extends.finish {o : Outcome} (fresh : t.path ∉ w.visiting)
    (new : w.memo.get? (view, t.path) = none) (h : Extends view (w.enter t.path) w') :
    Extends view w (w'.finish view t o) := by
  have absent := notMem_keys fresh new h
  obtain ⟨stack, added, entries, off⟩ := h
  rw [visiting_enter fresh] at stack off
  refine ⟨?_, added ++ [((view, t.path), o)], ?_, fun e he => ?_⟩
  · show w'.visiting.erase t.path = w.visiting
    rw [stack, List.erase_append_right _ fresh]
    simp
  · show (w'.memo.insert (view, t.path) o).entries = _
    rw [Table.entries_insert_of_notMem absent, entries, List.append_assoc]
    rfl
  · rcases List.mem_append.1 he with he | he
    · have := off e he
      simp only [List.mem_append, not_or] at this
      exact ⟨this.1, this.2.1⟩
    · rw [List.mem_singleton.1 he]
      exact ⟨rfl, fresh⟩

/-- **A run leaves the stack as it was**, whatever it ends with, and changes nothing that was known. -/
theorem Runs.extends {task : Task} {answer : Except ResolutionError task.Answer} {visits : List Visit}
    (h : Runs all view task w answer w' visits) (free : task.Free w) : Extends view w w' := by
  induction h with
  | known | missing | circular | kept | itemsEnd | membersEnd => exact .refl
  | whole new _ _ ih => exact (ih trivial).finish free new
  | plain new _ _ ih => exact (ih trivial).finish free new
  | target _ offStack _ ih => exact ih offStack
  | text _ _ ih | arr _ ih | obj _ ih | itemsFail _ ih | membersFail _ ih => exact ih trivial
  | itemsNext _ _ ih ih' | membersNext _ _ ih ih' => exact (ih trivial).trans (ih' trivial)

end Extends

/-! ## What a run finds -/

section Steps

variable {all : Contexts Flat} {view : Context} {stack : List String} {memo memo' memo'' : Memo}
  {t : FlatToken} {r : Reference} {property : Option String} {e : ResolutionError}

theorem resolve_whole {seen : t ∈ visible all view} {fresh : t.path ∉ stack} {found : Outcome}
    (new : memo.get? (view, t.path) = none) (refers : Reference.ofJson? t.value = some r)
    (h : resolveReference all view (stack ++ [t.path]) t r none memo = (found, memo')) :
    let o := found.map fun target => ⟨target.value, t.type <|> target.type⟩
    resolve all view stack t seen fresh memo = (o, memo'.insert (view, t.path) o) := by
  rw [resolve_of_get?_eq_none new, resolveNew, refers]
  simp only [h]

theorem resolve_plain {seen : t ∈ visible all view} {fresh : t.path ∉ stack}
    {found : Except ResolutionError Json}
    (new : memo.get? (view, t.path) = none) (plain : Reference.ofJson? t.value = none)
    (h : resolveValue all view (stack ++ [t.path]) t none t.value memo = (found, memo')) :
    let o := found.map fun v => ⟨v, t.type⟩
    resolve all view stack t seen fresh memo = (o, memo'.insert (view, t.path) o) := by
  rw [resolve_of_get?_eq_none new, resolveNew, plain]
  simp only [h]

theorem resolveValue_kept {j : Json} (kept : j.isKept = true) :
    resolveValue all view stack t property j memo = (.ok j, memo) := by
  unfold resolveValue
  cases j with
  | str s =>
    rw [Json.isKept, Option.isNone_iff_eq_none] at kept
    simp only [kept]
  | null | bool _ | num _ => rfl
  | arr _ | obj _ => cases kept

theorem resolveValue_text {s : String} {found : Outcome} (refers : Reference.parse? s = some r)
    (h : resolveReference all view stack t r property memo = (found, memo')) :
    resolveValue all view stack t property (.str s) memo = (found.map (·.value), memo') := by
  rw [resolveValue, refers]
  simp only [h]

theorem resolveValue_arr {js : List Json} {values : Except ResolutionError (List Json)}
    (h : resolveItems all view stack t property js memo = (values, memo')) :
    resolveValue all view stack t property (.arr js) memo = (values.map .arr, memo') := by
  rw [resolveValue, h]

theorem resolveValue_obj {ms : List (String × Json)}
    {values : Except ResolutionError (List (String × Json))}
    (h : resolveMembers all view stack t ms memo = (values, memo')) :
    resolveValue all view stack t property (.obj ms) memo = (values.map .obj, memo') := by
  rw [resolveValue, h]

theorem resolveItems_fail {j : Json} {rest : List Json}
    (h : resolveValue all view stack t property j memo = (.error e, memo')) :
    resolveItems all view stack t property (j :: rest) memo = (.error e, memo') := by
  rw [resolveItems, h]

theorem resolveItems_next {j v : Json} {rest : List Json} {values : Except ResolutionError (List Json)}
    (h : resolveValue all view stack t property j memo = (.ok v, memo'))
    (h' : resolveItems all view stack t property rest memo' = (values, memo'')) :
    resolveItems all view stack t property (j :: rest) memo = (values.map (v :: ·), memo'') := by
  rw [resolveItems, h]
  simp only [h']

theorem resolveMembers_fail {key : String} {j : Json} {rest : List (String × Json)}
    (h : resolveValue all view stack t (some key) j memo = (.error e, memo')) :
    resolveMembers all view stack t ((key, j) :: rest) memo = (.error e, memo') := by
  rw [resolveMembers, h]

theorem resolveMembers_next {key : String} {j v : Json} {rest : List (String × Json)}
    {values : Except ResolutionError (List (String × Json))}
    (h : resolveValue all view stack t (some key) j memo = (.ok v, memo'))
    (h' : resolveMembers all view stack t rest memo' = (values, memo'')) :
    resolveMembers all view stack t ((key, j) :: rest) memo = (values.map ((key, v) :: ·), memo'') := by
  rw [resolveMembers, h]
  simp only [h']

end Steps

/-- An answer and a memo are those of the procedure whose stack is an argument. -/
def Task.Agrees (all : Contexts Flat) (view : Context) (w w' : Walker) :
    (task : Task) → Except ResolutionError task.Answer → Prop
  | .token t, answer => ∀ (seen : t ∈ visible all view) (fresh : t.path ∉ w.visiting),
    resolve all view w.visiting t seen fresh w.memo = (answer, w'.memo)
  | .reference t r property, answer =>
    resolveReference all view w.visiting t r property w.memo = (answer, w'.memo)
  | .value t property j, answer => resolveValue all view w.visiting t property j w.memo = (answer, w'.memo)
  | .items t property js, answer =>
    resolveItems all view w.visiting t property js w.memo = (answer, w'.memo)
  | .members t ms, answer => resolveMembers all view w.visiting t ms w.memo = (answer, w'.memo)

section Agrees

variable {all : Contexts Flat} {view : Context} {w w' : Walker}

/-- **A run finds what the walk finds** whose stack is an argument. -/
theorem Runs.agrees {task : Task} {answer : Except ResolutionError task.Answer} {visits : List Visit}
    (h : Runs all view task w answer w' visits) : task.Agrees all view w w' answer := by
  induction h with
  | known known => exact fun _ _ => resolve_of_get?_eq_some known
  | whole new refers _ ih => exact fun _ fresh => resolve_whole new refers (visiting_enter fresh ▸ ih)
  | plain new plain _ ih => exact fun _ fresh => resolve_plain new plain (visiting_enter fresh ▸ ih)
  | missing none => exact resolveReference_of_absent none
  | circular seen onStack => exact resolveReference_of_onStack seen onStack
  | target seen offStack _ ih => exact resolveReference_of_fresh seen offStack (ih _ offStack)
  | kept kept => exact resolveValue_kept kept
  | text refers _ ih => exact resolveValue_text refers ih
  | arr _ ih => exact resolveValue_arr ih
  | obj _ ih => exact resolveValue_obj ih
  | itemsEnd => exact resolveItems.eq_1 ..
  | itemsFail _ ih => exact resolveItems_fail ih
  | itemsNext h _ ih ih' => exact resolveItems_next ih ((h.extends trivial).stack ▸ ih')
  | membersEnd => exact resolveMembers.eq_1 ..
  | membersFail _ ih => exact resolveMembers_fail ih
  | membersNext h _ ih ih' => exact resolveMembers_next ih ((h.extends trivial).stack ▸ ih')

end Agrees

/-! ## Every run ends -/

section Ends

variable {all : Contexts Flat} {view : Context} {stack : List String} {t : FlatToken}

/-- The procedure runs to an end from a state. -/
def Ends (all : Contexts Flat) (view : Context) (task : Task) (w : Walker) : Prop :=
  ∃ answer w' visits, Runs all view task w answer w' visits

/-- Every visit above the stack ends. -/
def VisitsEnd (all : Contexts Flat) (view : Context) (stack : List String) : Prop :=
  ∀ t ∈ visible all view, t.path ∉ stack → ∀ w : Walker, w.visiting = stack →
    Ends all view (.token t) w

theorem VisitsEnd.reference (h : VisitsEnd all view stack) (r : Reference) (property : Option String)
    {w : Walker} (hw : w.visiting = stack) : Ends all view (.reference t r property) w := by
  cases found : lookup? all view r.path with
  | none => exact ⟨_, _, _, .missing found⟩
  | some target =>
    by_cases onStack : target.path ∈ w.visiting
    · exact ⟨_, _, _, .circular found onStack⟩
    · obtain ⟨_, _, _, run⟩ := h target (mem_visible_of_lookup? found) (hw ▸ onStack) w hw
      exact ⟨_, _, _, .target found onStack run⟩

mutual

theorem VisitsEnd.value (h : VisitsEnd all view stack) : ∀ (property : Option String) (j : Json)
    (w : Walker), w.visiting = stack → Ends all view (.value t property j) w
  | property, .str s, w, hw => by
    cases hs : Reference.parse? s with
    | none => exact ⟨_, _, _, .kept (Option.isNone_iff_eq_none.2 hs)⟩
    | some r =>
      obtain ⟨_, _, _, run⟩ := h.reference r property hw
      exact ⟨_, _, _, .text hs run⟩
  | property, .arr js, w, hw =>
    have ⟨_, _, _, run⟩ := h.items property js w hw
    ⟨_, _, _, .arr run⟩
  | _, .obj ms, w, hw =>
    have ⟨_, _, _, run⟩ := h.members ms w hw
    ⟨_, _, _, .obj run⟩
  | _, .null, _, _ => ⟨_, _, _, .kept rfl⟩
  | _, .bool _, _, _ => ⟨_, _, _, .kept rfl⟩
  | _, .num _, _, _ => ⟨_, _, _, .kept rfl⟩

theorem VisitsEnd.items (h : VisitsEnd all view stack) : ∀ (property : Option String)
    (js : List Json) (w : Walker), w.visiting = stack → Ends all view (.items t property js) w
  | _, [], _, _ => ⟨_, _, _, .itemsEnd⟩
  | property, j :: rest, w, hw => by
    obtain ⟨answer, w', _, run⟩ := h.value property j w hw
    cases answer with
    | error e => exact ⟨_, _, _, .itemsFail run⟩
    | ok v =>
      obtain ⟨_, _, _, run'⟩ := h.items property rest w' ((run.extends trivial).stack.trans hw)
      exact ⟨_, _, _, .itemsNext run run'⟩

theorem VisitsEnd.members (h : VisitsEnd all view stack) : ∀ (ms : List (String × Json))
    (w : Walker), w.visiting = stack → Ends all view (.members t ms) w
  | [], _, _ => ⟨_, _, _, .membersEnd⟩
  | (key, j) :: rest, w, hw => by
    obtain ⟨answer, w', _, run⟩ := h.value (some key) j w hw
    cases answer with
    | error e => exact ⟨_, _, _, .membersFail run⟩
    | ok v =>
      obtain ⟨_, _, _, run'⟩ := h.members rest w' ((run.extends trivial).stack.trans hw)
      exact ⟨_, _, _, .membersNext run run'⟩

end

/-- **Every visit ends**: the visits it leads to have a longer stack, with fewer visible tokens off it. -/
theorem visitsEnd (all : Contexts Flat) (view : Context) (stack : List String) :
    VisitsEnd all view stack := by
  induction hn : unvisited all view stack using Nat.strongRecOn generalizing stack with
  | ind n ih =>
    intro t seen fresh w hw
    cases hm : w.memo.get? (view, t.path) with
    | some done => exact ⟨_, _, _, .known hm⟩
    | none =>
      -- What is visited below has this path on its stack besides.
      have nested : VisitsEnd all view (stack ++ [t.path]) := ih _ (hn ▸ unvisited_lt seen fresh) _ rfl
      have entered : (w.enter t.path).visiting = stack ++ [t.path] := hw ▸ visiting_enter (hw ▸ fresh)
      cases hr : Reference.ofJson? t.value with
      | some r =>
        obtain ⟨_, _, _, run⟩ := nested.reference r none entered
        exact ⟨_, _, _, .whole hm hr run⟩
      | none =>
        obtain ⟨_, _, _, run⟩ := nested.value none t.value _ entered
        exact ⟨_, _, _, .plain hm hr run⟩

end Ends

end DesignTokens
