import LocalRepair.Json.Basic

/-!
# Writing JSON

Two layouts: `Json.compact` has no blanks at all, and `Json.pretty` puts every
item and member on a line of its own, two blanks deeper than its container.
Strings are escaped only where the grammar asks for it: the quotation mark, the
backslash and the control characters.
-/

namespace LocalRepair.Json

/-- A digit from `0` to `f`. -/
def hexDigit (n : Nat) : Char := "0123456789abcdef".toList.getD n '0'

/-- One character inside a string. -/
def escape (c : Char) : String :=
  match c with
  | '"' => "\\\""
  | '\\' => "\\\\"
  | '\x08' => "\\b"
  | '\t' => "\\t"
  | '\n' => "\\n"
  | '\x0c' => "\\f"
  | '\r' => "\\r"
  | c =>
    if c < ' ' then
      "\\u00" ++ String.ofList [hexDigit (c.toNat / 16), hexDigit (c.toNat % 16)]
    else String.ofList [c]

/-- A string with its quotation marks. A string without text has no spelling of
its own and is written empty. -/
def quote (s : Option String) : String :=
  "\"" ++ String.join ((s.getD "").toList.map escape) ++ "\""

/-- A number. An integer is written plainly and any other decimal as its digits
with an exponent, which reads back as the same decimal. -/
def numberText (n : Number) : String :=
  (if n.negative then "-" else "") ++ toString n.digits
    ++ (if n.integral then "" else "e" ++ toString n.exponent)

mutual

/-- A value without blanks. -/
def compact : Json → String
  | null => "null"
  | bool b => if b then "true" else "false"
  | number n => numberText n
  | string s => quote s
  | array items => "[" ++ ",".intercalate (compactItems items) ++ "]"
  | object members => "\x7b" ++ ",".intercalate (compactMembers members) ++ "\x7d"

/-- The items of an array without blanks. -/
def compactItems : List Json → List String
  | [] => []
  | item :: rest => compact item :: compactItems rest

/-- The members of an object without blanks. -/
def compactMembers : List (Option String × Json) → List String
  | [] => []
  | (key, value) :: rest => (quote key ++ ":" ++ compact value) :: compactMembers rest

end

/-- The lines of a container between its brackets; brackets without lines
between them stay together. -/
def block (opening closing : String) (depth : Nat) (lines : List String) : String :=
  let indent (n : Nat) : String := String.ofList (List.replicate (2 * n) ' ')
  if lines.isEmpty then opening ++ closing
  else opening ++ "\n"
    ++ ",\n".intercalate (lines.map fun line => indent (depth + 1) ++ line)
    ++ "\n" ++ indent depth ++ closing

mutual

/-- A value with one item or member a line, inside `depth` containers. -/
def prettyAt (depth : Nat) : Json → String
  | null => "null"
  | bool b => if b then "true" else "false"
  | number n => numberText n
  | string s => quote s
  | array items => block "[" "]" depth (prettyItems (depth + 1) items)
  | object members => block "\x7b" "\x7d" depth (prettyMembers (depth + 1) members)

/-- The items of an array, one text each. -/
def prettyItems (depth : Nat) : List Json → List String
  | [] => []
  | item :: rest => prettyAt depth item :: prettyItems depth rest

/-- The members of an object, one text each. -/
def prettyMembers (depth : Nat) : List (Option String × Json) → List String
  | [] => []
  | (key, value) :: rest => (quote key ++ ": " ++ prettyAt depth value) :: prettyMembers depth rest

end

/-- A value with one item or member a line. -/
def pretty (j : Json) : String := prettyAt 0 j

end LocalRepair.Json
