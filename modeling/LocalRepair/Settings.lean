import LocalRepair.Json.Printer
import LocalRepair.Json.Reader
import LocalRepair.Fault

/-!
# Search settings

The budget of a search and where its randomness comes from, with a JSON form.

A record may leave out any field, which then has its default, and may have
fields that are not known here. It may also be an array of the fields in order.
The three counts are plain natural numbers of 64 bits, the seed may be `null`,
and the chance of a random step may be any number, which is then checked to be
a probability.

## Main definitions

* `Settings`, `Settings.validate`.
* `Settings.read`, `Settings.readBytes`: from JSON.
* `Settings.toJson`.
-/

namespace LocalRepair

/-- The settings of a search. -/
structure Settings where
  maxFlips : Nat := 50000
  maxAttempts : Nat := 10
  seed : Option Nat := none
  randomStep : Float := 0.0

namespace Settings

/-- The names of the fields, in order. -/
def fieldNames : List String :=
  ["max_flips", "max_attempts", "seed", "random_walk_probability"]

/-- The chance of a random step has to be a probability. -/
def validate (s : Settings) : Except Rejection Unit :=
  if isProbability s.randomStep then .ok () else .error (.improperWalk s.randomStep)

/-- Greatest count and seed. -/
def greatestCount : Nat := Nat.pow 2 64 - 1

/-- A field of a record, or its default when it is absent. -/
def field (record : List (String × Json)) (name : String) (read : Json → Option α)
    (default : α) : Option α :=
  match record.lookup name with
  | some j => read j
  | none => some default

/-- A seed, or `null` for none. -/
def seed? : Json → Option (Option Nat)
  | .null => some none
  | j => (j.natural? greatestCount).map some

/-- Reads settings without checking them. -/
def ofJson? (j : Json) : Option Settings := do
  let record ← j.record? fieldNames
  let standard : Settings := {}
  return {
    maxFlips := ← field record "max_flips" (Json.natural? greatestCount) standard.maxFlips
    maxAttempts := ←
      field record "max_attempts" (Json.natural? greatestCount) standard.maxAttempts
    seed := ← field record "seed" seed? standard.seed
    randomStep := ← field record "random_walk_probability" Json.float? standard.randomStep }

/-- Checks settings that were read, if they could be. -/
def accept (parsed : Option Json) : Except Rejection Settings :=
  match parsed.bind ofJson? with
  | some s => do s.validate; return s
  | none => .error .unreadableSettings

/-- Settings from a text. -/
def read (text : String) : Except Rejection Settings := accept (Json.parse? text)

/-- Settings from the bytes of a file. -/
def readBytes (bytes : ByteArray) : Except Rejection Settings := accept (Json.parseBytes? bytes)

/-- A finite floating-point number as a JSON number, exactly: the digits are the
fewest that read back. -/
def floatJson (x : Float) : Json :=
  match Binary.ofBits x.toBits with
  | .finite negative mantissa exponent =>
    let (digits, power) := if mantissa = 0 then (0, 0) else shortestDecimal mantissa exponent
    .number { negative, digits, exponent := power, integral := false }
  | _ => .null

/-- The JSON form of settings. -/
def toJson (s : Settings) : Json :=
  Json.ofMembers [
    ("max_flips", Json.int s.maxFlips),
    ("max_attempts", Json.int s.maxAttempts),
    ("seed", (s.seed.map fun n => Json.int n).getD .null),
    ("random_walk_probability", floatJson s.randomStep)]

/-- Whether settings agree; chances are compared as numbers. -/
def agree (s t : Settings) : Bool :=
  s.maxFlips == t.maxFlips && s.maxAttempts == t.maxAttempts && s.seed == t.seed
    && s.randomStep == t.randomStep

/-- Whether settings are the same after writing and reading them. -/
def survivesWriting (s : Settings) : Bool :=
  match ((Json.parse? s.toJson.compact).bind ofJson?) with
  | some t => t.agree s
  | none => false

end Settings
end LocalRepair
