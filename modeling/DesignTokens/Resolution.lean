import DesignTokens.Reference
import DesignTokens.Resolution.Error

/-!
# Resolving references

Every reference in the tokens of a context is replaced by the value of the token it refers to, as
seen from that context: its own tokens first, then those of the base.

* `lookup?`, `visible`, `unvisited`: the tokens that a context sees, and those not on the stack;
* `Resolved`, `Outcome`, `Memo`: values, or why there are none, by viewing context and path;
* `resolve`, `resolveReference`, `resolveValue`: a depth-first walk along references. The stack holds
  the paths under way; a reference to one of them is a cycle, and every other step leaves fewer
  visible tokens off the stack;
* `ResolvedToken`, `Resolution`, `resolveAll`: the tokens of all contexts;
* `Resolution.settled`: the same tokens with their values in place of references.
-/

namespace DesignTokens

/-- The tokens that a context declares. -/
def declared (all : Contexts Flat) (c : Context) : List FlatToken :=
  match all.get? c with
  | some f => f.tokens.values
  | none => []

/-- The tokens that a context sees. -/
def visible (all : Contexts Flat) (view : Context) : List FlatToken :=
  declared all view ++ declared all .base

/-- The token at a path as seen from a context: declared there, else in the base. -/
def lookup? (all : Contexts Flat) (view : Context) (path : String) : Option FlatToken :=
  match (all.get? view).bind (·.tokens.get? path) with
  | some t => some t
  | none => (all.get? .base).bind (·.tokens.get? path)

theorem mem_declared {all : Contexts Flat} {c : Context} {path : String} {t : FlatToken}
    (h : (all.get? c).bind (·.tokens.get? path) = some t) : t ∈ declared all c := by
  obtain ⟨f, hf, ht⟩ := Option.bind_eq_some_iff.1 h
  simpa [declared, hf] using Table.mem_values_of_get?_eq_some ht

theorem mem_visible_of_lookup? {all : Contexts Flat} {view : Context} {path : String}
    {t : FlatToken} (h : lookup? all view path = some t) : t ∈ visible all view := by
  unfold lookup? at h
  split at h
  · rename_i t' h'
    cases h
    exact List.mem_append_left _ (mem_declared h')
  · exact List.mem_append_right _ (mem_declared h)

/-- The number of visible tokens whose paths are not on the stack. -/
def unvisited (all : Contexts Flat) (view : Context) (stack : List String) : Nat :=
  ((visible all view).filter fun t => t.path ∉ stack).length

theorem unvisited_lt {all : Contexts Flat} {view : Context} {stack : List String} {t : FlatToken}
    (ht : t ∈ visible all view) (hs : t.path ∉ stack) :
    unvisited all view (stack ++ [t.path]) < unvisited all view stack := by
  have h : (visible all view).filter (fun u => u.path ∉ stack ++ [t.path]) =
      ((visible all view).filter fun u => u.path ∉ stack).filter fun u => u.path ≠ t.path := by
    rw [List.filter_filter]
    congr 1
    funext u
    simp [and_comm]
  unfold unvisited
  rw [h, List.length_filter_lt_length_iff_exists]
  exact ⟨t, by simp [ht, hs], by simp⟩

/-! ## The walk -/

/-- A value without references, and its type. -/
structure Resolved where
  value : Json
  type : Option TokenType

/-- A value, or why there is none. -/
abbrev Outcome := Except ResolutionError Resolved

/-- The outcomes so far, by viewing context and path. -/
abbrev Memo := Table (Context × String) Outcome

/-- The type that a reference must fit: that of the token, or of its property around the reference. -/
def expectedType? (t : FlatToken) : Option String → Option TokenType
  | some property => t.type.bind (·.property? property)
  | none => t.type

/-- A value found at a reference, if its type fits. -/
def checkType (t : FlatToken) (r : Reference) (property : Option String) (found : Resolved) :
    Outcome :=
  match expectedType? t property, found.type with
  | some expected, some type =>
    if type.fits expected then .ok found
    else .error (.typeMismatch t.path r.path property expected type t.origin)
  | _, _ => .ok found

mutual

/-- The value of a token as seen from `view`, and the outcomes known afterwards. A token that is
nothing but a reference takes the type of its target unless it has one of its own. -/
def resolve (all : Contexts Flat) (view : Context) (stack : List String) (t : FlatToken)
    (seen : t ∈ visible all view) (fresh : t.path ∉ stack) (memo : Memo) : Outcome × Memo :=
  match memo.get? (view, t.path) with
  | some done => (done, memo)
  | none =>
    have : unvisited all view (stack ++ [t.path]) < unvisited all view stack :=
      unvisited_lt seen fresh
    let (outcome, memo) : Outcome × Memo := match Reference.ofJson? t.value with
      | some r =>
        let (found, memo) := resolveReference all view (stack ++ [t.path]) t r none memo
        (found.map fun target => ⟨target.value, t.type <|> target.type⟩, memo)
      | none =>
        let (value, memo) := resolveValue all view (stack ++ [t.path]) t none t.value memo
        (value.map fun v => ⟨v, t.type⟩, memo)
    (outcome, memo.insert (view, t.path) outcome)
termination_by (unvisited all view stack, 0)

/-- The value that a reference in token `t` stands for. -/
def resolveReference (all : Contexts Flat) (view : Context) (stack : List String) (t : FlatToken)
    (r : Reference) (property : Option String) (memo : Memo) : Outcome × Memo :=
  match h : lookup? all view r.path with
  | none => (.error (.missing t.path r.path property t.origin), memo)
  | some target =>
    if fresh : target.path ∉ stack then
      match resolve all view stack target (mem_visible_of_lookup? h) fresh memo with
      | (.error e, memo) => (.error (e.forToken t), memo)
      | (.ok found, memo) => (checkType t r property found, memo)
    else
      let chain := stack.dropWhile (· ≠ target.path) ++ [target.path]
      (.error (.circular t.path chain t.origin), memo)
termination_by (unvisited all view stack, 1)

/-- A part of the value of token `t` with all references replaced; `property` is the innermost object
key around it. -/
def resolveValue (all : Contexts Flat) (view : Context) (stack : List String) (t : FlatToken)
    (property : Option String) (value : Json) (memo : Memo) : Except ResolutionError Json × Memo :=
  match value with
  | .str s =>
    match Reference.parse? s with
    | some r =>
      let (found, memo) := resolveReference all view stack t r property memo
      (found.map (·.value), memo)
    | none => (.ok (.str s), memo)
  | .arr items =>
    let (values, memo) := resolveItems all view stack t property items memo
    (values.map .arr, memo)
  | .obj members =>
    let (values, memo) := resolveMembers all view stack t members memo
    (values.map .obj, memo)
  | .null => (.ok .null, memo)
  | .bool b => (.ok (.bool b), memo)
  | .num n => (.ok (.num n), memo)
termination_by (unvisited all view stack, 2 + sizeOf value)

/-- The items of an array with all references replaced, up to the first failure. -/
def resolveItems (all : Contexts Flat) (view : Context) (stack : List String) (t : FlatToken)
    (property : Option String) (items : List Json) (memo : Memo) :
    Except ResolutionError (List Json) × Memo :=
  match items with
  | [] => (.ok [], memo)
  | j :: rest =>
    match resolveValue all view stack t property j memo with
    | (.error e, memo) => (.error e, memo)
    | (.ok v, memo) =>
      let (values, memo) := resolveItems all view stack t property rest memo
      (values.map (v :: ·), memo)
termination_by (unvisited all view stack, 2 + sizeOf items)

/-- The members of an object with all references replaced, up to the first failure. -/
def resolveMembers (all : Contexts Flat) (view : Context) (stack : List String) (t : FlatToken)
    (members : List (String × Json)) (memo : Memo) :
    Except ResolutionError (List (String × Json)) × Memo :=
  match members with
  | [] => (.ok [], memo)
  | (key, j) :: rest =>
    match resolveValue all view stack t (some key) j memo with
    | (.error e, memo) => (.error e, memo)
    | (.ok v, memo) =>
      let (values, memo) := resolveMembers all view stack t rest memo
      (values.map ((key, v) :: ·), memo)
termination_by (unvisited all view stack, 2 + sizeOf members)

end

/-! ## All tokens -/

/-- A token with its value. -/
structure ResolvedToken where
  /-- The token as merged; its type may come from a reference. -/
  token : FlatToken
  /-- The value with all references replaced. -/
  value : Json

namespace ResolvedToken

/-- The path of the token. -/
def path (t : ResolvedToken) : String := t.token.path

/-- The type of the token. -/
def type (t : ResolvedToken) : Option TokenType := t.token.type

/-- The value as written. -/
def raw (t : ResolvedToken) : Json := t.token.value

/-- Whether the value as written is nothing but a reference. -/
def isAlias (t : ResolvedToken) : Bool := t.raw.isReference

end ResolvedToken

/-- The tokens with values of every context, and the errors of the others. -/
structure Resolution where
  contexts : Contexts (Table String ResolvedToken)
  errors : List ResolutionError

/-- What is resolved in one context so far. -/
structure Progress where
  tokens : Table String ResolvedToken
  errors : List ResolutionError
  memo : Memo

/-- One outcome added. -/
def Progress.add (p : Progress) (t : FlatToken) (outcome : Outcome) (memo : Memo) : Progress :=
  match outcome with
  | .ok r => ⟨p.tokens.insert t.path ⟨{ t with type := r.type }, r.value⟩, p.errors, memo⟩
  | .error e => ⟨p.tokens, p.errors ++ [e], memo⟩

/-- Visible tokens resolved one after the other. -/
def resolveTokens (all : Contexts Flat) (view : Context) :
    (ts : List FlatToken) → (∀ t ∈ ts, t ∈ visible all view) → Progress → Progress
  | [], _, p => p
  | t :: rest, seen, p =>
    let (outcome, memo) := resolve all view [] t (seen t (by simp)) (by simp) p.memo
    resolveTokens all view rest (fun u hu => seen u (by simp [hu])) (p.add t outcome memo)

/-- The tokens that a context declares resolved, after the outcomes of others. -/
def resolveContext (all : Contexts Flat) (c : Context) (memo : Memo) : Progress :=
  resolveTokens all c (declared all c) (fun _ h => List.mem_append_left _ h) ⟨.empty, [], memo⟩

/-- The contexts resolved one after the other. -/
def resolveContexts (all : Contexts Flat) (memo : Memo) :
    List Context → List (Context × Table String ResolvedToken) × List ResolutionError
  | [] => ([], [])
  | c :: rest =>
    let p := resolveContext all c memo
    let (tables, errors) := resolveContexts all p.memo rest
    ((c, p.tokens) :: tables, p.errors ++ errors)

/-- All references of all contexts resolved. -/
def resolveAll (all : Contexts Flat) : Resolution :=
  let (tables, errors) := resolveContexts all .empty all.keys
  ⟨⟨tables⟩, errors⟩

/-! ## Once more -/

/-- The token that is declared with the value that was found. -/
def ResolvedToken.settled (t : ResolvedToken) : FlatToken := { t.token with value := t.value }

/-- The tokens with values, declared with them. -/
def Resolution.settled (r : Resolution) : Contexts Flat :=
  r.contexts.mapValues fun tokens => ⟨tokens.mapValues ResolvedToken.settled, .empty, []⟩

end DesignTokens
