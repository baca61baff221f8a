import DesignTokens.Json.Literal

/-!
# JSON texts

Reading a text by the JSON grammar, in two steps: the grammar first, the values afterwards.

* `Raw`: the tree of a text. Members of an object may repeat; a number without a value and a string
  with half a surrogate pair are kept as `none`;
* `Raw.read`: the tree of a whole text; blanks are space, tab, line feed and carriage return;
* `Raw.value?`: the value of a tree with at most a given depth of arrays and objects. A repeated
  member keeps its first place and its last value;
* `Json.parse?`: both steps, with the depth `Json.maxDepth`.
-/

namespace DesignTokens.Json

/-- The tree of a JSON text. -/
inductive Raw where
  | null
  | bool (value : Bool)
  | num (value : Option Number)
  | str (text : Option String)
  | arr (items : List Raw)
  | obj (members : List (Option String × Raw))
  deriving Inhabited

namespace Raw

/-- What is read from the front of `cs`, and the rest, which is shorter. -/
abbrev Front (α : Type) (cs : List Char) := Option (α × { rest : List Char // rest.length < cs.length })

/-- A blank of the grammar. -/
def isBlank (c : Char) : Bool := c = ' ' || c = '\t' || c = '\n' || c = '\r'

/-- The characters without the blanks in front. -/
def skip (cs : List Char) : List Char := cs.dropWhile isBlank

theorem length_skip_le (cs : List Char) : (skip cs).length ≤ cs.length :=
  (List.dropWhile_suffix _).length_le

/-! ## Strings -/

/-- A part of a string: a character, or an escaped unit of 16 bits. -/
inductive Piece where
  | char (c : Char)
  | unit (n : Nat)

/-- The characters of the pieces: two units of a surrogate pair are one character, half a pair is
none. -/
def Piece.chars? : List Piece → Option (List Char)
  | [] => some []
  | .char c :: rest => (c :: ·) <$> chars? rest
  | .unit n :: .unit m :: rest =>
    if 0xD800 ≤ n ∧ n < 0xDC00 then
      if 0xDC00 ≤ m ∧ m < 0xE000 then
        (Char.ofNat (0x10000 + (n - 0xD800) * 0x400 + (m - 0xDC00)) :: ·) <$> chars? rest
      else none
    else if 0xDC00 ≤ n ∧ n < 0xE000 then none
    else (Char.ofNat n :: ·) <$> chars? (.unit m :: rest)
  | .unit n :: rest =>
    if 0xD800 ≤ n ∧ n < 0xE000 then none else (Char.ofNat n :: ·) <$> chars? rest

/-- The value of a hexadecimal digit. -/
def hexValue? (c : Char) : Option Nat :=
  if '0' ≤ c ∧ c ≤ '9' then some (c.toNat - '0'.toNat)
  else if 'a' ≤ c ∧ c ≤ 'f' then some (c.toNat - 'a'.toNat + 10)
  else if 'A' ≤ c ∧ c ≤ 'F' then some (c.toNat - 'A'.toNat + 10)
  else none

/-- The character of an escape of one letter. -/
def unescape? (c : Char) : Option Char :=
  if c = '"' || c = '\\' || c = '/' then some c
  else if c = 'b' then some '\x08'
  else if c = 'f' then some '\x0c'
  else if c = 'n' then some '\n'
  else if c = 'r' then some '\r'
  else if c = 't' then some '\t'
  else none

/-- The pieces up to the closing quote. -/
def pieces : (cs : List Char) → Front (List Piece) cs
  | [] => none
  | '"' :: rest => some ([], ⟨rest, by simp⟩)
  | '\\' :: 'u' :: a :: b :: c :: d :: rest => do
    let a ← hexValue? a
    let b ← hexValue? b
    let c ← hexValue? c
    let d ← hexValue? d
    let (ps, r) ← pieces rest
    some (.unit (((a * 16 + b) * 16 + c) * 16 + d) :: ps,
      ⟨r.1, by have := r.2; simp only [List.length_cons]; omega⟩)
  | '\\' :: e :: rest => do
    let c ← unescape? e
    let (ps, r) ← pieces rest
    some (.char c :: ps, ⟨r.1, by have := r.2; simp only [List.length_cons]; omega⟩)
  | c :: rest =>
    if c.toNat < 0x20 then none
    else do
      let (ps, r) ← pieces rest
      some (.char c :: ps, ⟨r.1, by have := r.2; simp only [List.length_cons]; omega⟩)

/-- The text up to the closing quote; none inside for half a surrogate pair. -/
def string (cs : List Char) : Front (Option String) cs :=
  (pieces cs).map fun (ps, r) => ((Piece.chars? ps).map String.ofList, r)

/-! ## Numbers -/

/-- The digits in front, and the rest. -/
def digits (cs : List Char) : List Nat × List Char :=
  ((cs.takeWhile Char.isDigit).map fun c => c.toNat - '0'.toNat, cs.dropWhile Char.isDigit)

/-- The digits of a whole number: no zero in front of others. -/
def wholeDigits (cs : List Char) : Option (List Nat × List Char) :=
  match cs with
  | '0' :: rest => some ([0], rest)
  | _ => match digits cs with
    | ([], _) => none
    | (ds, rest) => some (ds, rest)

/-- A point and digits, if there is a point. -/
def fractionDigits (cs : List Char) : Option (Option (List Nat) × List Char) :=
  match cs with
  | '.' :: rest => match digits rest with
    | ([], _) => none
    | (ds, rest) => some (some ds, rest)
  | _ => some (none, cs)

/-- The whole number of a list of digits. -/
def ofDigits (ds : List Nat) : Nat := ds.foldl (fun n d => n * 10 + d) 0

/-- The digits of an exponent, with a sign or without. -/
def signedDigits (cs : List Char) : Option (Int × List Char) :=
  let (negative, cs) := match cs with
    | '-' :: rest => (true, rest)
    | '+' :: rest => (false, rest)
    | _ => (false, cs)
  match digits cs with
  | ([], _) => none
  | (ds, rest) => some (if negative then -(ofDigits ds : Int) else ofDigits ds, rest)

/-- An exponent, if there is one. -/
def exponent (cs : List Char) : Option (Option Int × List Char) :=
  match cs with
  | c :: rest =>
    if c = 'e' || c = 'E' then (signedDigits rest).map fun (e, r) => (some e, r)
    else some (none, cs)
  | [] => some (none, cs)

/-- A number as written, and the rest. -/
def literal (cs : List Char) : Option (Literal × List Char) := do
  let (negative, cs) := match cs with
    | '-' :: rest => (true, rest)
    | _ => (false, cs)
  let (whole, cs) ← wholeDigits cs
  let (fraction, cs) ← fractionDigits cs
  let (exponent, cs) ← exponent cs
  some (⟨negative, whole, fraction.getD [], exponent, fraction.isSome⟩, cs)

/-- A number in front; the rest of a number is always shorter. -/
def number (cs : List Char) : Front (Option Number) cs := do
  let (l, rest) ← literal cs
  if h : rest.length < cs.length then some (l.value?, ⟨rest, h⟩) else none

/-- What follows a given word. -/
def word (w : List Char) (a : α) (cs : List Char) : Front α cs :=
  if h : w <+: cs ∧ w ≠ [] then
    some (a, ⟨cs.drop w.length, by
      have := h.1.length_le
      have := List.length_pos_iff.2 h.2
      simp only [List.length_drop]; omega⟩)
  else none

/-! ## Trees -/

/-- A front read after `cs` has lost its blanks. -/
def Front.afterSkip {α : Type} {cs : List Char} (f : Front α (skip cs)) : Front α cs :=
  f.map fun (a, r) => (a, ⟨r.1, Nat.lt_of_lt_of_le r.2 (length_skip_le cs)⟩)

mutual

/-- A value in front, without blanks before it. -/
def tree : (cs : List Char) → Front Raw cs
  | [] => none
  | '"' :: rest => do
    let (s, r) ← string rest
    some (.str s, ⟨r.1, by have := r.2; simp only [List.length_cons]; omega⟩)
  | '[' :: rest =>
    match h : skip rest with
    | ']' :: rest' => some (.arr [], ⟨rest', by
        have := length_skip_le rest; rw [h] at this; simp only [List.length_cons] at *; omega⟩)
    | _ => do
      let (items, r) ← trees rest
      some (.arr items, ⟨r.1, by have := r.2; simp only [List.length_cons]; omega⟩)
  | '{' :: rest =>
    match h : skip rest with
    | '}' :: rest' => some (.obj [], ⟨rest', by
        have := length_skip_le rest; rw [h] at this; simp only [List.length_cons] at *; omega⟩)
    | _ => do
      let (ms, r) ← members rest
      some (.obj ms, ⟨r.1, by have := r.2; simp only [List.length_cons]; omega⟩)
  | c :: rest =>
    if c = 'n' then word "null".toList .null (c :: rest)
    else if c = 't' then word "true".toList (.bool true) (c :: rest)
    else if c = 'f' then word "false".toList (.bool false) (c :: rest)
    else (number (c :: rest)).map fun (n, r) => (.num n, r)
termination_by cs => (cs.length, 0)

/-- The items of an array up to the closing bracket, at least one. -/
def trees (cs : List Char) : Front (List Raw) cs := do
  let (item, r) ← Front.afterSkip (tree (skip cs))
  match h : skip r.1 with
  | ']' :: rest => some ([item], ⟨rest, by
      have := length_skip_le r.1; have := r.2; rw [h] at *; simp only [List.length_cons] at *; omega⟩)
  | ',' :: rest => do
    have : rest.length < cs.length := by
      have := length_skip_le r.1; have := r.2; rw [h] at *; simp only [List.length_cons] at *; omega
    let (items, r') ← trees rest
    some (item :: items, ⟨r'.1, by have := r'.2; omega⟩)
  | _ => none
termination_by (cs.length, 1)
decreasing_by
  · have := length_skip_le cs
    simp only [Prod.lex_def]; omega
  · simp only [Prod.lex_def]; omega

/-- The members of an object up to the closing brace, at least one. -/
def members (cs : List Char) : Front (List (Option String × Raw)) cs := do
  match h : skip cs with
  | '"' :: rest =>
    let (key, r) ← string rest
    match h' : skip r.1 with
    | ':' :: rest' =>
      have h₁ : rest'.length < cs.length := by
        have := length_skip_le cs; have := length_skip_le r.1; have := r.2
        rw [h] at *; rw [h'] at *; simp only [List.length_cons] at *; omega
      have h₂ : (skip rest').length < cs.length := Nat.lt_of_le_of_lt (length_skip_le rest') h₁
      let (value, s) ← Front.afterSkip (tree (skip rest'))
      match h'' : skip s.1 with
      | '}' :: rest'' => some ([(key, value)], ⟨rest'', by
          have := length_skip_le s.1; have := s.2
          rw [h''] at *; simp only [List.length_cons] at *; omega⟩)
      | ',' :: rest'' =>
        have : rest''.length < cs.length := by
          have := length_skip_le s.1; have := s.2
          rw [h''] at *; simp only [List.length_cons] at *; omega
        let (ms, t) ← members rest''
        some ((key, value) :: ms, ⟨t.1, by have := t.2; omega⟩)
      | _ => none
    | _ => none
  | _ => none
termination_by (cs.length, 1)

end

/-- The tree of a whole text. -/
def read (text : String) : Option Raw := do
  let (t, r) ← tree (skip text.toList)
  if (skip r.1).isEmpty then some t else none

/-! ## Values -/

mutual

/-- The value of a tree with at most `depth` arrays and objects inside each other. -/
def value? (depth : Nat) : Raw → Option Json
  | .null => some .null
  | .bool b => some (.bool b)
  | .num n => n.map .num
  | .str s => s.map .str
  | .arr items =>
    match depth with
    | 0 => none
    | d + 1 => (itemValues? d items).map .arr
  | .obj ms =>
    match depth with
    | 0 => none
    | d + 1 => (memberValues? d ms).map fun es => .obj (Table.ofList es).entries

/-- The values of the items of an array. -/
def itemValues? (depth : Nat) : List Raw → Option (List Json)
  | [] => some []
  | t :: rest => do
    let j ← value? depth t
    let js ← itemValues? depth rest
    some (j :: js)

/-- The keys and values of the members of an object, with repeats. -/
def memberValues? (depth : Nat) : List (Option String × Raw) → Option (List (String × Json))
  | [] => some []
  | (key, t) :: rest => do
    let key ← key
    let j ← value? depth t
    let js ← memberValues? depth rest
    some ((key, j) :: js)

end

mutual

/-- The tree of a value. -/
def ofJson : Json → Raw
  | .null => .null
  | .bool b => .bool b
  | .num n => .num (some n)
  | .str s => .str (some s)
  | .arr items => .arr (ofItems items)
  | .obj ms => .obj (ofMembers ms)

/-- The trees of items. -/
def ofItems : List Json → List Raw
  | [] => []
  | j :: rest => ofJson j :: ofItems rest

/-- The trees of members. -/
def ofMembers : List (String × Json) → List (Option String × Raw)
  | [] => []
  | (key, j) :: rest => (some key, ofJson j) :: ofMembers rest

end

end Raw

/-- The greatest depth of arrays and objects inside each other. -/
def maxDepth : Nat := 127

/-- The value of a JSON text. -/
def parse? (text : String) : Option Json := (Raw.read text).bind (Raw.value? maxDepth)

end DesignTokens.Json
