import LocalRepair.Random.ChaCha
import LocalRepair.Fault

/-!
# Drawing numbers and truth values

A number below `n` is drawn by multiplying: a draw `v` of `w` bits stands for
the high part of `v * n`, and `v` is refused when the low part lies beyond the
last full multiple of `n`, which makes every number equally likely.

Refusals end the loop with certainty only in the limit, so the number of tries
is bounded, far beyond what any stream reaches. The last draw is then taken as
it is. What matters for reasoning holds on every path: the result lies in its
range, which is why it is a `Fin n`, and a range is never empty, which is why
drawing asks for a proof.

## Main definitions

* `ChaCha.below`, `ChaCha.belowSmall`: a number below `n` from 64-bit or from
  32-bit draws.
* `ChaCha.chance`: true with a given probability.
-/

namespace LocalRepair.ChaCha

/-- Bits of the bound that decides refusals: `n` moved up until its highest bit
is the highest of `width` bits, minus one. -/
def acceptanceZone (width n : Nat) : Nat := n * Nat.pow 2 (width - (n.log2 + 1)) - 1

/-- The high part of a product: below `n` because the draw is below
`2 ^ width`. -/
def scaled (width : Nat) {n : Nat} (v : Fin (Nat.pow 2 width)) (h : 0 < n) : Fin n :=
  ⟨v.val * n / Nat.pow 2 width,
    Nat.div_lt_of_lt_mul (Nat.mul_lt_mul_of_pos_right v.isLt h)⟩

/-- Draws until a draw is accepted, or `tries` times. -/
def belowBy (width : Nat) (draw : ChaCha → Fin (Nat.pow 2 width) × ChaCha) {n : Nat} (h : 0 < n) :
    Nat → ChaCha → Fin n × ChaCha
  | 0, g => let (v, g) := draw g; (scaled width v h, g)
  | tries + 1, g =>
    let (v, g) := draw g
    if v.val * n % Nat.pow 2 width ≤ acceptanceZone width n then (scaled width v h, g)
    else belowBy width draw h tries g

/-- How often a draw may be refused. At least half of all draws are accepted. -/
def refusalLimit : Nat := 512

/-- A number below `n` from 64-bit draws. Also for `n = 1` a draw is made. -/
def below (n : Nat) (h : 0 < n) (g : ChaCha) : Fin n × ChaCha :=
  belowBy 64 (fun g => let (v, g) := g.doubleWord; (v.toFin, g)) h refusalLimit g

/-- A number below `n` from 32-bit draws. -/
def belowSmall (n : Nat) (h : 0 < n) (g : ChaCha) : Fin n × ChaCha :=
  belowBy 32 (fun g => let (v, g) := g.word; (v.toFin, g)) h refusalLimit g

/-- True with probability `p`. Certainty needs no draw; otherwise 64 bits are
drawn and compared with the integer part of `p * 2 ^ 64`, also for `p = 0`. A
chance outside `[0, 1]` is a fault. -/
def chance (p : Float) (g : ChaCha) : Except Fault (Bool × ChaCha) :=
  if p == 1.0 then .ok (true, g)
  else if isProbability p then
    let (v, g) := g.doubleWord
    .ok (v < (p * 18446744073709551616.0).toUInt64, g)
  else .error .improperChance

end LocalRepair.ChaCha
