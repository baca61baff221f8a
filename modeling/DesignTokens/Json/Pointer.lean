import DesignTokens.Json.Basic
import DesignTokens.Text.Split

/-!
# JSON pointers

* `Json.pointer?`: the part of a value that a pointer addresses. The pointer is empty or begins with a
  slash; in a step `~1` stands for a slash and `~0` for a tilde;
* `Json.index?`: a step that counts items: digits, without a zero in front of others.
-/

namespace DesignTokens.Json

/-- A step without its escapes. -/
def unescapeStep (step : List Char) : List Char :=
  Text.replacePair '~' '0' '~' (Text.replacePair '~' '1' '/' step)

/-- The number of an item. -/
def index? (step : List Char) : Option Nat :=
  if step.isEmpty || !step.all Char.isDigit then none
  else if step.head? = some '0' && step.length ≠ 1 then none
  else
    let n := step.foldl (fun n c => n * 10 + (c.toNat - '0'.toNat)) 0
    if n < Nat.pow 2 64 then some n else none

/-- The part that one step leads to. -/
def step? (step : List Char) : Json → Option Json
  | .obj members => Table.find? (String.ofList step) members
  | .arr items => (index? step).bind fun n => items[n]?
  | _ => none

/-- The part that the steps lead to. -/
def follow? : List (List Char) → Json → Option Json
  | [], j => some j
  | s :: rest, j => (step? s j).bind (follow? rest)

/-- The part of a value at a pointer. -/
def pointer? (pointer : String) (j : Json) : Option Json :=
  match pointer.toList with
  | [] => some j
  | '/' :: steps => follow? ((Text.splitChars '/' steps).map unescapeStep) j
  | _ => none

end DesignTokens.Json
