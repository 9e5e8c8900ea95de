import LocalRepair.Decimal.Binary

/-!
# JSON values

Settings, literals, assignments and solutions are exchanged as JSON. Two
things are kept that most readers throw away, because the rules for reading
settings depend on them:

* a number keeps its decimal form and whether it was written as a plain
  integer, so that `1` and `1.0` differ and `-0.0` keeps its sign;
* a string whose escapes leave a surrogate without its partner has no text. It
  is an error only where the text is needed.

## Main definitions

* `Json`, `Json.Number`: the values.
* `Json.natural?`, `Json.integer?`, `Json.float?`, `Json.bool?`: a value read
  as one of the types the settings use.
* `Json.record?`: a value read as a record, by name or by position.
-/

namespace LocalRepair

/-- A number as it was written. `integral` says that it had neither a fraction
nor an exponent. -/
structure Json.Number extends Decimal where
  integral : Bool
  deriving DecidableEq, Repr

/-- A JSON value. Members of an object stand in the order of the text, repeated
keys included. -/
inductive Json where
  | null
  | bool (value : Bool)
  | number (value : Json.Number)
  | string (text : Option String)
  | array (items : List Json)
  | object (members : List (Option String × Json))

namespace Json

/-- A piece of text as a value. -/
def text (s : String) : Json := string (some s)

/-- An integer as a value. -/
def int (i : Int) : Json :=
  number { negative := i < 0, digits := i.natAbs, exponent := 0, integral := true }

/-- An object with the given members, in this order. -/
def ofMembers (members : List (String × Json)) : Json :=
  object (members.map fun (key, value) => (some key, value))

/-- A plain natural number up to `limit`. A minus sign is refused even before
zero: `-0` is a number with a sign, not a natural number. -/
def natural? (limit : Nat) : Json → Option Nat
  | number n => if n.integral && !n.negative && n.digits ≤ limit then some n.digits else none
  | _ => none

/-- A plain integer between `low` and `high`; `-0` is refused. -/
def integer? (low high : Int) : Json → Option Int
  | number n =>
    let value : Int := if n.negative then -n.digits else n.digits
    if n.integral && !(n.negative && n.digits == 0) && low ≤ value && value ≤ high
    then some value else none
  | _ => none

/-- Any number that is not beyond every finite floating-point number. -/
def float? : Json → Option Float
  | number n => n.toFloat?
  | _ => none

/-- A truth value. -/
def bool? : Json → Option Bool
  | bool b => some b
  | _ => none

/-- The items of an array. -/
def items? : Json → Option (List Json)
  | array items => some items
  | _ => none

/-- The members of an object whose key is one of `names`. A key without text is
refused, and so is a second member with the same known key; members with other
keys are skipped, whatever their values are. -/
def knownMembers? (names : List String) :
    List (Option String × Json) → Option (List (String × Json))
  | [] => some []
  | (none, _) :: _ => none
  | (some key, value) :: rest => do
    let known ← knownMembers? names rest
    if !names.contains key then some known
    else if known.any (·.1 == key) then none
    else some ((key, value) :: known)

/-- A record with the fields `names`: an object, or an array of the fields in
the order of `names`, where fields at the end may be absent. -/
def record? (names : List String) : Json → Option (List (String × Json))
  | object members => knownMembers? names members
  | array items => if items.length ≤ names.length then some (names.zip items) else none
  | _ => none

end Json
end LocalRepair
