import DesignTokens.Table

/-!
# JSON values

* `Number`: a whole number that fits 64 bits, or a finite double;
* `Json`: a value; the members of an object are in order;
* `Json.member?`, `Json.item?`, `Json.hasMember`: parts of a value;
* `Json.string?`, `Json.float?`, … : the content of a value of one kind.
-/

namespace DesignTokens

/-- A number: whole and of 64 bits, signed or unsigned, or a finite double. -/
inductive Number where
  | integer (value : Int)
  | double (value : Float)
  deriving Repr, BEq

/-- The double nearest to the number. -/
def Number.toFloat : Number → Float
  | .integer n =>
    if n < 0 then -(UInt64.ofNat n.natAbs).toFloat else (UInt64.ofNat n.natAbs).toFloat
  | .double x => x

/-- A JSON value. -/
inductive Json where
  | null
  | bool (value : Bool)
  | num (value : Number)
  | str (text : String)
  | arr (items : List Json)
  | obj (members : List (String × Json))
  deriving Repr, BEq, Inhabited

namespace Json

/-! ## Content -/

/-- The text of a string. -/
def string? : Json → Option String
  | .str s => some s
  | _ => none

/-- The double nearest to a number. -/
def float? : Json → Option Float
  | .num n => some n.toFloat
  | _ => none

/-- The truth value of a boolean. -/
def bool? : Json → Option Bool
  | .bool b => some b
  | _ => none

/-- The items of an array. -/
def items? : Json → Option (List Json)
  | .arr items => some items
  | _ => none

/-- The members of an object. -/
def members? : Json → Option (List (String × Json))
  | .obj members => some members
  | _ => none

/-! ## Parts -/

/-- The value of a member of an object. -/
def member? (key : String) : Json → Option Json
  | .obj members => Table.find? key members
  | _ => none

/-- An item of an array, counted from 0. -/
def item? (index : Nat) : Json → Option Json
  | .arr items => items[index]?
  | _ => none

/-- Whether an object has a member. -/
def hasMember (key : String) (j : Json) : Bool := (j.member? key).isSome

end Json

end DesignTokens
