/-!
# Cutting and searching texts

* `splitOn`: the pieces between the occurrences of a character, at least one piece;
* `splitFirst`: a text cut at the first occurrence of a character;
* `strip?`: what follows a given beginning;
* `holds`: whether a text occurs in another;
* `replacePair`: all occurrences of two neighbours replaced, found from the left without overlap;
* `join`: texts with a separator between each two.
-/

namespace DesignTokens.Text

/-- The pieces between the occurrences of `sep`. -/
def splitChars (sep : Char) : List Char → List (List Char)
  | [] => [[]]
  | c :: rest =>
    if c = sep then [] :: splitChars sep rest
    else match splitChars sep rest with
      | [] => [[c]]
      | piece :: pieces => (c :: piece) :: pieces

/-- The pieces of a text between the occurrences of `sep`. -/
def splitOn (sep : Char) (text : String) : List String :=
  (splitChars sep text.toList).map String.ofList

/-- What stands before and after the first `sep`, if there is one. -/
def splitFirst (sep : Char) : List Char → Option (List Char × List Char)
  | [] => none
  | c :: rest =>
    if c = sep then some ([], rest)
    else (splitFirst sep rest).map fun (before, after) => (c :: before, after)

/-- What stands before and after the last `sep`, if there is one. -/
def splitLast (sep : Char) (cs : List Char) : Option (List Char × List Char) :=
  (splitFirst sep cs.reverse).map fun (after, before) => (before.reverse, after.reverse)

/-- What follows `start`, if the characters begin with it. -/
def stripChars? : List Char → List Char → Option (List Char)
  | [], cs => some cs
  | _ :: _, [] => none
  | s :: start, c :: cs => if s = c then stripChars? start cs else none

/-- What follows `start`, if the text begins with it. -/
def strip? (start text : String) : Option String :=
  (stripChars? start.toList text.toList).map String.ofList

/-- Whether the text begins with `start`. -/
def startsWith (start text : String) : Bool := (strip? start text).isSome

/-- What precedes `tail`, if the text ends with it. -/
def stripEnd? (tail text : String) : Option String :=
  (stripChars? tail.toList.reverse text.toList.reverse).map fun r => String.ofList r.reverse

/-- Whether `part` occurs in the characters. -/
def holdsChars (part : List Char) : List Char → Bool
  | [] => part.isEmpty
  | c :: cs => (stripChars? part (c :: cs)).isSome || holdsChars part cs

/-- Whether `part` occurs in the text. -/
def holds (part text : String) : Bool := holdsChars part.toList text.toList

/-- Every two neighbours `a`, `b` replaced by `c`, found from the left. -/
def replacePair (a b c : Char) : List Char → List Char
  | [] => []
  | [x] => [x]
  | x :: y :: rest =>
    if x = a ∧ y = b then c :: replacePair a b c rest else x :: replacePair a b c (y :: rest)

/-- Texts joined with a separator between each two. -/
def join (sep : String) (texts : List String) : String := sep.intercalate texts

end DesignTokens.Text
