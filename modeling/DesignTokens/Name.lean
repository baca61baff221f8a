import DesignTokens.Reference
import DesignTokens.Table
import DesignTokens.Text.Letter
import DesignTokens.Text.Lower

/-!
# Names of custom properties

* `kebab`: a name in lower case with hyphens between its words;
* `kebabPath`, `customProperty`: a token path as a name, and as a custom property;
* `pieces`, `renderReferences`: a text with every reference in it replaced by `var(…)`;
* `NameCache`: the names converted so far. `NameCache.kebab`, `NameCache.kebabPath`,
  `NameCache.customProperty` and `NameCache.renderReferences` look names up before converting them.
-/

namespace DesignTokens

namespace Name

/-- A character between words. -/
def isSeparator (c : Char) : Bool := c = '_' || c = ' ' || c = '-'

/-- Whether a capital after `before` begins a new word. -/
def endsWord : Option Char → Bool
  | some c => Text.isLower c || c.isDigit
  | none => false

/-- A hyphen put behind what is written, the last character first, unless one is there. -/
def hyphenate (done : List Char) : List Char :=
  if done.head? = some '-' then done else '-' :: done

/-- The characters written after `done`, the last one first; `before` is the preceding character. -/
def kebabChars (before : Option Char) (done : List Char) : List Char → List Char
  | [] => done
  | c :: rest =>
    if isSeparator c then
      kebabChars (some '-') (if done.isEmpty then done else hyphenate done) rest
    else if Text.isUpper c then
      let done := if endsWord before then hyphenate done else done
      kebabChars (some c) ((Text.toLower c).reverse ++ done) rest
    else kebabChars (some c) (c :: done) rest

/-- A name in lower case, its words joined with single hyphens. -/
def kebab (name : String) : String :=
  String.ofList ((kebabChars none [] name.toList).dropWhile (· = '-')).reverse

/-- Every segment of a path as a name, joined with hyphens. -/
def kebabPath (path : String) : String := Text.join "-" ((Text.splitOn '.' path).map kebab)

/-- The custom property of a path. -/
def customProperty (path : String) : String := "--" ++ kebabPath path

/-! ## References inside texts -/

/-- A part of a text: characters as they stand, or a reference. -/
inductive Piece where
  | plain (c : Char)
  | reference (r : Reference)
  deriving DecidableEq, Repr

/-- What stands before the next closing brace, if no other brace and no blank comes first. -/
def braced? : List Char → Option (List Char × List Char)
  | [] => none
  | c :: rest =>
    if c = '}' then some ([], rest)
    else if Reference.isPathChar c then
      (braced? rest).map fun (inner, after) => (c :: inner, after)
    else none

theorem length_braced? {cs inner after : List Char} (h : braced? cs = some (inner, after)) :
    after.length < cs.length := by
  induction cs generalizing inner after with
  | nil => simp [braced?] at h
  | cons c rest ih =>
    unfold braced? at h
    split at h
    · simp at h; simp [← h.2]
    · split at h
      · obtain ⟨⟨i, a⟩, hb, he⟩ := Option.map_eq_some_iff.1 h
        simp at he
        have := ih hb
        simp only [List.length_cons, ← he.2]; omega
      · simp at h

/-- The references of a text, and the characters between them. Braces around no path stay as they
are. -/
def pieces : List Char → List Piece
  | [] => []
  | c :: rest =>
    if c = '{' then
      match h : braced? rest with
      | some (inner, after) =>
        have : after.length < rest.length := length_braced? h
        if Reference.isPath inner then .reference ⟨String.ofList inner⟩ :: pieces after
        else .plain c :: pieces rest
      | none => .plain c :: pieces rest
    else .plain c :: pieces rest
termination_by cs => cs.length

/-- The use of a custom property. -/
def use (property : String) : String := "var(" ++ property ++ ")"

/-- The text of a piece. -/
def Piece.text : Piece → String
  | plain c => String.ofList [c]
  | reference r => Name.use (customProperty r.path)

/-- A text with every reference in it replaced by the use of its custom property. -/
def renderReferences (text : String) : String :=
  String.join ((pieces text.toList).map Piece.text)

end Name

/-! ## Names converted once -/

/-- The names converted so far. -/
structure NameCache where
  names : Table String String
  deriving DecidableEq, Repr

namespace NameCache

/-- No name yet. -/
def empty : NameCache := ⟨.empty⟩

/-- The number of names. -/
def size (c : NameCache) : Nat := c.names.size

/-- A converted name, and the names afterwards. -/
def kebab (c : NameCache) (name : String) : String × NameCache :=
  match c.names.get? name with
  | some done => (done, c)
  | none => (Name.kebab name, ⟨c.names.insert name (Name.kebab name)⟩)

/-- Several converted names. -/
def kebabs (c : NameCache) : List String → List String × NameCache
  | [] => ([], c)
  | name :: rest =>
    let (done, c) := c.kebab name
    let (more, c) := c.kebabs rest
    (done :: more, c)

/-- A converted path. -/
def kebabPath (c : NameCache) (path : String) : String × NameCache :=
  let (segments, c) := c.kebabs (Text.splitOn '.' path)
  (Text.join "-" segments, c)

/-- The custom property of a path. -/
def customProperty (c : NameCache) (path : String) : String × NameCache :=
  let (name, c) := c.kebabPath path
  ("--" ++ name, c)

/-- The texts of pieces. -/
def pieceTexts (c : NameCache) : List Name.Piece → List String × NameCache
  | [] => ([], c)
  | .plain ch :: rest =>
    let (more, c) := c.pieceTexts rest
    (String.ofList [ch] :: more, c)
  | .reference r :: rest =>
    let (property, c) := c.customProperty r.path
    let (more, c) := c.pieceTexts rest
    (Name.use property :: more, c)

/-- A text with every reference in it replaced. -/
def renderReferences (c : NameCache) (text : String) : String × NameCache :=
  let (texts, c) := c.pieceTexts (Name.pieces text.toList)
  (String.join texts, c)

end NameCache

end DesignTokens
