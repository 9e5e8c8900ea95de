/-!
# Propositions and literals

Propositions are numbered from `1`. A literal is a proposition or its negation,
stored as one signed integer: `n` for the proposition with number `n`, `-n` for
its negation. Zero is the encoding of no literal that `Literal.ofInt?` makes,
but it can be read from outside, and then behaves as a negation of number `0`.

Encodings are 32-bit integers. A proposition number that does not fit wraps
around, so number `2 ^ 32 - 1` has the positive literal `-1`.
-/

namespace LocalRepair

/-- A signed reference to a proposition. -/
structure Literal where
  encoded : Int
  deriving DecidableEq, Repr, Hashable

namespace Literal

/-- The literal with a given encoding, none for zero. -/
def ofInt? (encoded : Int) : Option Literal :=
  if encoded = 0 then none else some ⟨encoded⟩

/-- The literal of proposition `v` itself. -/
def positive (v : Nat) : Literal := ⟨Int.bmod v (Nat.pow 2 32)⟩

/-- The literal of the negation of proposition `v`. -/
def negative (v : Nat) : Literal := ⟨-Int.bmod v (Nat.pow 2 32)⟩

/-- The proposition the literal speaks of. -/
def proposition (l : Literal) : Nat := l.encoded.natAbs

/-- Whether the literal is the proposition itself. -/
def isPositive (l : Literal) : Bool := 0 < l.encoded

/-- Whether the literal is true when its proposition has the given value. -/
def isTrueUnder (l : Literal) (value : Bool) : Bool := value == l.isPositive

/-- The opposite literal. -/
def negation (l : Literal) : Literal := ⟨-l.encoded⟩

/-- The order of encodings: negations first, by descending number. -/
def order (l k : Literal) : Ordering := compare l.encoded k.encoded

/-- The text of a literal in descriptions. -/
def describe (l : Literal) : String :=
  (if l.isPositive then "p" else "!p") ++ toString l.proposition

@[simp] theorem negation_negation (l : Literal) : l.negation.negation = l := by
  simp [negation]

@[simp] theorem proposition_negation (l : Literal) :
    l.negation.proposition = l.proposition := by
  simp [negation, proposition]

end Literal
end LocalRepair
