import Mathlib.Algebra.Ring.Nat
import LocalRepair.Random.Draw

/-!
# Every number can be drawn

A draw of 64 bits stands for the high part of its product with the length of the range.
No number of the range is left out by this: the least draw whose product reaches `k`
ranges stays below the next one, and what it leaves in the low part is less than the
length, so that it is accepted.

The generator is not asked how likely that draw is. It is given the draw to hold.

## Main results

* `belowBy_of_accepted`: a draw that is accepted at once.
* `exists_below`: every number below a length of at most `2 ^ 64` can be drawn.
-/

namespace LocalRepair.ChaCha

/-- A generator with 64 bits in hand. -/
def holding (v : UInt64) : ChaCha :=
  { key := Vector.replicate 8 0
    nextBlock := 0
    inHand := [v.toUInt32, (v >>> 32).toUInt32] }

/-- The halves that are in hand are put together again. -/
theorem doubleWord_holding (v : UInt64) : (holding v).doubleWord.1 = v := by
  show ((v >>> 32).toUInt32.toUInt64 <<< 32) ||| v.toUInt32.toUInt64 = v
  apply UInt64.toNat_inj.mp
  have hv := v.toNat_lt
  simp only [UInt64.toNat_or, UInt64.toNat_shiftLeft, UInt32.toNat_toUInt64, UInt64.toNat_toUInt32,
    UInt64.toNat_shiftRight, Nat.shiftLeft_eq, Nat.shiftRight_eq_div_pow, UInt64.reduceToNat]
  have hHigh : v.toNat / 2 ^ 32 % 2 ^ 32 * 2 ^ 32 % 2 ^ 64 = 2 ^ 32 * (v.toNat / 2 ^ 32) := by
    omega
  have hLow : v.toNat % 2 ^ 32 < 2 ^ 32 := Nat.mod_lt _ (by decide)
  show v.toNat / 2 ^ 32 % 2 ^ 32 * 2 ^ 32 % 2 ^ 64 ||| v.toNat % 2 ^ 32 = v.toNat
  rw [hHigh, ← Nat.two_pow_add_eq_or_of_lt hLow]
  omega

/-- What a draw that is accepted stands for is taken, however many tries are left. -/
theorem belowBy_of_accepted {width n : Nat} {draw : ChaCha → Fin (Nat.pow 2 width) × ChaCha}
    {g : ChaCha} (h : 0 < n)
    (hAccepted : (draw g).1.val * n % Nat.pow 2 width ≤ acceptanceZone width n) (tries : Nat) :
    (belowBy width draw h tries g).1 = scaled width (draw g).1 h := by
  cases tries with
  | zero => rfl
  | succ tries =>
      show (if (draw g).1.val * n % Nat.pow 2 width ≤ acceptanceZone width n then _ else _ :
        Fin n × ChaCha).1 = _
      rw [if_pos hAccepted]

/-- A low part below the length of the range is never refused. -/
theorem pred_le_acceptanceZone (width n : Nat) : n - 1 ≤ acceptanceZone width n := by
  have hPow : 0 < Nat.pow 2 (width - (n.log2 + 1)) := Nat.pow_pos (by decide)
  have hMore := Nat.le_mul_of_pos_right n hPow
  unfold acceptanceZone
  omega

/-- Some draw has the number `k` for the high part of its product, and a low part below
the length. -/
theorem exists_product {n k size : Nat} (hk : k < n) (hn : n ≤ size) :
    ∃ v, v < size ∧ v * n / size = k ∧ v * n % size < n := by
  have hSplit := Nat.div_add_mod (k * size + (n - 1)) n
  have hRest := Nat.mod_lt (k * size + (n - 1)) (by omega : 0 < n)
  generalize (k * size + (n - 1)) % n = rest at hSplit hRest
  generalize (k * size + (n - 1)) / n = v at hSplit
  rw [Nat.mul_comm] at hSplit
  obtain ⟨low, hLow, hProduct⟩ : ∃ low, low < n ∧ v * n = k * size + low :=
    ⟨n - 1 - rest, by omega, by omega⟩
  refine ⟨v, ?_, ?_, ?_⟩
  · have hNext : (k + 1) * size ≤ n * size := Nat.mul_le_mul_right _ hk
    have hLess : v * n < size * n := by
      rw [hProduct, Nat.mul_comm size n]
      rw [Nat.add_mul] at hNext
      omega
    exact Nat.lt_of_mul_lt_mul_right hLess
  · rw [hProduct, Nat.mul_comm k, Nat.mul_add_div (by omega), Nat.div_eq_of_lt (by omega)]
    rfl
  · rw [hProduct, Nat.mul_comm k, Nat.mul_add_mod, Nat.mod_eq_of_lt (by omega)]
    exact hLow

/-- Every number of a range can be drawn. -/
theorem exists_below {n : Nat} (h : 0 < n) (hn : n ≤ 2 ^ 64) (k : Fin n) :
    ∃ g : ChaCha, (g.below n h).1 = k := by
  obtain ⟨v, hv, hHigh, hLow⟩ := exists_product k.isLt hn
  refine ⟨holding (UInt64.ofNatLT v hv), ?_⟩
  have hDraw : ((holding (UInt64.ofNatLT v hv)).doubleWord.1.toFin).val = v := by
    rw [doubleWord_holding]
    rfl
  rw [below, belowBy_of_accepted]
  · apply Fin.ext
    show (holding (UInt64.ofNatLT v hv)).doubleWord.1.toFin.val * n / Nat.pow 2 64 = k
    rw [hDraw]
    exact hHigh
  · show (holding (UInt64.ofNatLT v hv)).doubleWord.1.toFin.val * n % Nat.pow 2 64 ≤ _
    rw [hDraw]
    have hZone := pred_le_acceptanceZone 64 n
    have hRemainder : v * n % Nat.pow 2 64 < n := hLow
    omega

end LocalRepair.ChaCha
