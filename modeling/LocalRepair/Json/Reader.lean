import LocalRepair.Json.Basic

/-!
# Reading JSON

A strict reader of one value with blanks around it: no comments, no commas
before a closing bracket, no zeros before a number, no control characters in a
string, and nothing after the value.

Each function takes the characters that are left and returns what it read with
the rest, or nothing. Lists and nested values use an amount of fuel that is
counted from the length of the text: every two steps consume a character, so it
never runs out.

## Main definitions

* `Json.parse?`: the value a text stands for.
* `Json.parseBytes?`: the same for bytes, which must be valid UTF-8.
-/

namespace LocalRepair.Json

/-- The characters that may stand between the parts of a value. -/
def isBlank (c : Char) : Bool := c == ' ' || c == '\n' || c == '\t' || c == '\r'

/-- The text after any blanks. -/
def skipBlanks (cs : List Char) : List Char := cs.dropWhile isBlank

/-! ## Numbers -/

/-- The digits at the start of the text, which must be at least one, and the
rest. -/
def digits? (cs : List Char) : Option (List Char × List Char) :=
  match cs.takeWhile Char.isDigit with
  | [] => none
  | ds => some (ds, cs.dropWhile Char.isDigit)

/-- The integer part: a lone zero, or digits that do not start with one. -/
def wholePart? : List Char → Option (List Char × List Char)
  | '0' :: rest => some (['0'], rest)
  | cs => digits? cs

/-- The digits after a point; none at all when there is no point. -/
def fractionPart? : List Char → Option (List Char × List Char)
  | '.' :: rest => digits? rest
  | cs => some ([], cs)

/-- The value that a row of decimal digits stands for. -/
def digitsValue (ds : List Char) : Nat :=
  ds.foldl (fun value d => 10 * value + (d.toNat - '0'.toNat)) 0

/-- The written exponent, if there is one. -/
def exponentPart? : List Char → Option (Option Int × List Char)
  | e :: rest =>
    if e == 'e' || e == 'E' then
      match rest with
      | '-' :: rest => (digits? rest).map fun (ds, rest) => (some (-(digitsValue ds : Int)), rest)
      | '+' :: rest => (digits? rest).map fun (ds, rest) => (some (digitsValue ds : Int), rest)
      | rest => (digits? rest).map fun (ds, rest) => (some (digitsValue ds : Int), rest)
    else some (none, e :: rest)
  | [] => some (none, [])

/-- A number without its sign. -/
def unsignedNumber? (negative : Bool) (cs : List Char) : Option (Number × List Char) := do
  let (whole, rest) ← wholePart? cs
  let (fraction, rest) ← fractionPart? rest
  let (exponent, rest) ← exponentPart? rest
  return ({
    negative
    digits := digitsValue (whole ++ fraction)
    exponent := exponent.getD 0 - fraction.length
    integral := fraction.isEmpty && exponent.isNone }, rest)

/-- A number. -/
def number? : List Char → Option (Number × List Char)
  | '-' :: rest => unsignedNumber? true rest
  | cs => unsignedNumber? false cs

/-! ## Strings -/

/-- What one step through a string yields: a character, or a 16-bit unit that
an escape names by its number. -/
inductive Piece where
  | char (c : Char)
  | unit (code : Nat)

/-- The value of a hexadecimal digit. -/
def hexDigit? (c : Char) : Option Nat :=
  if c.isDigit then some (c.toNat - '0'.toNat)
  else if 'a' ≤ c ∧ c ≤ 'f' then some (c.toNat - 'a'.toNat + 10)
  else if 'A' ≤ c ∧ c ≤ 'F' then some (c.toNat - 'A'.toNat + 10)
  else none

/-- The number that four hexadecimal digits stand for. -/
def unit? (a b c d : Char) : Option Nat := do
  return ((← hexDigit? a) * 16 + (← hexDigit? b)) * 256
    + ((← hexDigit? c) * 16 + (← hexDigit? d))

/-- The character that a backslash and one further character stand for. -/
def escaped? : Char → Option Char
  | '"' => some '"'
  | '\\' => some '\\'
  | '/' => some '/'
  | 'b' => some '\x08'
  | 'f' => some '\x0c'
  | 'n' => some '\n'
  | 'r' => some '\r'
  | 't' => some '\t'
  | _ => none

/-- The pieces up to the closing quotation mark, and the rest after it. -/
def pieces? : List Char → Option (List Piece × List Char)
  | [] => none
  | '"' :: rest => some ([], rest)
  | '\\' :: 'u' :: a :: b :: c :: d :: rest => do
    let code ← unit? a b c d
    let (found, rest) ← pieces? rest
    return (.unit code :: found, rest)
  | '\\' :: e :: rest => do
    let c ← escaped? e
    let (found, rest) ← pieces? rest
    return (.char c :: found, rest)
  | c :: rest =>
    if c < ' ' || c == '\\' then none
    else do
      let (found, rest) ← pieces? rest
      return (.char c :: found, rest)

/-- The characters of a string. A unit from `d800` to `dbff` needs a unit from
`dc00` to `dfff` right after it, and the latter never stands alone. -/
def joinPieces? : List Piece → Option (List Char)
  | [] => some []
  | .char c :: rest => (joinPieces? rest).map (c :: ·)
  | .unit high :: .unit low :: rest =>
    if 0xd800 ≤ high ∧ high < 0xdc00 then
      if 0xdc00 ≤ low ∧ low < 0xe000 then
        (joinPieces? rest).map
          (Char.ofNat (0x10000 + (high - 0xd800) * 0x400 + (low - 0xdc00)) :: ·)
      else none
    else if 0xdc00 ≤ high ∧ high < 0xe000 then none
    else (joinPieces? (.unit low :: rest)).map (Char.ofNat high :: ·)
  | .unit code :: rest =>
    if 0xd800 ≤ code ∧ code < 0xe000 then none
    else (joinPieces? rest).map (Char.ofNat code :: ·)

/-- A string after its opening quotation mark. -/
def stringBody? (cs : List Char) : Option (Option String × List Char) := do
  let (found, rest) ← pieces? cs
  return ((joinPieces? found).map String.ofList, rest)

/-! ## Values -/

mutual

/-- A value, with any blanks before it. -/
def value? : Nat → List Char → Option (Json × List Char)
  | 0, _ => none
  | fuel + 1, cs =>
    match skipBlanks cs with
    | 'n' :: 'u' :: 'l' :: 'l' :: rest => some (null, rest)
    | 't' :: 'r' :: 'u' :: 'e' :: rest => some (bool true, rest)
    | 'f' :: 'a' :: 'l' :: 's' :: 'e' :: rest => some (bool false, rest)
    | '"' :: rest => (stringBody? rest).map fun (s, rest) => (string s, rest)
    | '[' :: rest =>
      match skipBlanks rest with
      | ']' :: rest => some (array [], rest)
      | rest => (elements? fuel rest).map fun (items, rest) => (array items, rest)
    | '\x7b' :: rest =>
      match skipBlanks rest with
      | '\x7d' :: rest => some (object [], rest)
      | rest => (members? fuel rest).map fun (members, rest) => (object members, rest)
    | rest => (number? rest).map fun (n, rest) => (number n, rest)

/-- One or more values with commas between them, and the closing bracket. -/
def elements? : Nat → List Char → Option (List Json × List Char)
  | 0, _ => none
  | fuel + 1, cs => do
    let (first, rest) ← value? fuel cs
    match skipBlanks rest with
    | ',' :: rest =>
      let (others, rest) ← elements? fuel rest
      return (first :: others, rest)
    | ']' :: rest => return ([first], rest)
    | _ => none

/-- One or more members with commas between them, and the closing brace. -/
def members? : Nat → List Char → Option (List (Option String × Json) × List Char)
  | 0, _ => none
  | fuel + 1, cs =>
    match skipBlanks cs with
    | '"' :: rest => do
      let (key, rest) ← stringBody? rest
      match skipBlanks rest with
      | ':' :: rest =>
        let (first, rest) ← value? fuel rest
        match skipBlanks rest with
        | ',' :: rest =>
          let (others, rest) ← members? fuel rest
          return ((key, first) :: others, rest)
        | '\x7d' :: rest => return ([(key, first)], rest)
        | _ => none
      | _ => none
    | _ => none

end

/-- The value that a text stands for. -/
def parse? (s : String) : Option Json := do
  let cs := s.toList
  let (value, rest) ← value? (2 * cs.length + 2) cs
  if (skipBlanks rest).isEmpty then some value else none

/-- The value that bytes stand for. -/
def parseBytes? (bytes : ByteArray) : Option Json := do
  parse? (← String.fromUTF8? bytes)

end LocalRepair.Json
