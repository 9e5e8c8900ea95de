import LocalRepair.Random.Draw

/-!
# Strided orders

A search looks at the propositions of a constraint in an order that varies from
step to step but costs two draws and no memory: from a random start it walks
around `0 .. length - 1` with a step that has no common divisor with the
length, and so meets every index once.

The step comes from a prime that does not divide the length. Sixteen primes are
on offer, all larger than any realistic length; one of them is drawn, and if it
divides the length after all, the first that does not takes its place.

## Main definitions

* `StridedOrder`, `StridedOrder.new`: an order and how it is drawn.
* `StridedOrder.next?`, `StridedOrder.toList`: its indices.
-/

namespace LocalRepair

/-- The primes on offer as steps. -/
def primesOnOffer : Vector Nat 16 :=
  #v[1000003, 1000033, 1000037, 1000039, 2000003, 2000029, 3000017, 4000037,
    5000011, 6000011, 7000003, 8000009, 9000011, 10000019, 15485863, 32452843]

/-- There are primes on offer. -/
theorem onOffer_pos : 0 < 16 := by decide

/-- A walk around `0 .. length - 1` that has `remaining` indices to go, the
first of which is `next`. -/
structure StridedOrder where
  length : Nat
  stride : Nat
  next : Nat
  remaining : Nat
  deriving DecidableEq, Repr

namespace StridedOrder

/-- The step for a length, given the prime that was drawn. If every prime
divides the length, the step is `1`. -/
def strideFor (length prime : Nat) : Nat :=
  if length % prime ≠ 0 then prime % length
  else match primesOnOffer.toList.find? fun p => length % p != 0 with
    | some p => p % length
    | none => 1

/-- Draws an order. With at most one index there is nothing to draw. -/
def new (length : Nat) (g : ChaCha) : StridedOrder × ChaCha :=
  if h : length ≤ 1 then ({ length, stride := 0, next := 0, remaining := length }, g)
  else
    let (i, g) := g.belowSmall 16 onOffer_pos
    let (start, g) := g.below length (by omega)
    ({ length, stride := strideFor length primesOnOffer[i], next := start.val,
       remaining := length }, g)

/-- The next index, and the walk after it. -/
def next? (o : StridedOrder) : Option (Nat × StridedOrder) :=
  if o.remaining = 0 then none
  else
    let following := if 1 < o.length then (o.next + o.stride) % o.length else o.next
    some (o.next, { o with next := following, remaining := o.remaining - 1 })

/-- The next `count` indices, fewer when the walk ends before, and the walk
after them. -/
def take : Nat → StridedOrder → List Nat × StridedOrder
  | 0, o => ([], o)
  | count + 1, o =>
    match o.next? with
    | none => ([], o)
    | some (i, o) => let (is, o) := take count o; (i :: is, o)

/-- Bounds on how many indices are still to come, the upper one if there is one.
The walk knows the number exactly. -/
def sizeHint (o : StridedOrder) : Nat × Option Nat := (o.remaining, some o.remaining)

/-- All indices that are still to come. -/
def toList (o : StridedOrder) : List Nat := (take o.remaining o).1

end StridedOrder
end LocalRepair
