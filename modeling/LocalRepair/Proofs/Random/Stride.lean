import Mathlib.Data.List.Nodup
import Mathlib.Data.List.Perm.Subperm
import Mathlib.Data.Nat.ModEq
import Mathlib.Tactic.NormNum.Prime
import LocalRepair.Random.Stride

/-!
# Strided orders meet every index once

The stride of an order has no common divisor with the length. A prime that does
not divide the length has none, and neither has its remainder; and if every prime
on offer divides the length, the stride is one. Walking around with such a stride
comes back to an index only after all of them.

Nothing here depends on what the generator draws: every prime and every start
give an order of all indices.

## Main results

* `coprime_strideFor`: stride and length have no common divisor.
* `toList_eq_map`: the indices in closed form.
* `perm_toList_new`: a drawn order is a permutation of the indices.
-/

namespace LocalRepair

/-- Every number on offer is prime. -/
theorem prime_of_mem_primesOnOffer {q : Nat} (h : q ∈ primesOnOffer.toList) : q.Prime := by
  have hAll : ∀ q ∈ primesOnOffer.toList, q.Prime := by
    simp only [primesOnOffer]
    norm_num
  exact hAll q h

namespace StridedOrder

variable {o : StridedOrder} {length : Nat}

/-- A prime that does not divide the length has a remainder without common
divisors with it. -/
theorem coprime_mod_of_not_dvd {q : Nat} (hPrime : q.Prime) (h : length % q ≠ 0) :
    Nat.Coprime (q % length) length := by
  have hCoprime : Nat.Coprime q length :=
    hPrime.coprime_iff_not_dvd.mpr fun hDvd => h (Nat.mod_eq_zero_of_dvd hDvd)
  rw [Nat.Coprime, ← Nat.gcd_rec, Nat.gcd_comm]
  exact hCoprime

/-- Whatever prime was drawn, the stride has no common divisor with the length.
-/
theorem coprime_strideFor {q : Nat} (hq : q ∈ primesOnOffer.toList) :
    Nat.Coprime (strideFor length q) length := by
  unfold strideFor
  split
  · rename_i hDrawn
    exact coprime_mod_of_not_dvd (prime_of_mem_primesOnOffer hq) hDrawn
  · split
    · rename_i r hFound
      have hPrime := prime_of_mem_primesOnOffer (List.mem_of_find?_eq_some hFound)
      exact coprime_mod_of_not_dvd hPrime (by simpa using List.find?_some hFound)
    · exact Nat.coprime_one_left length

/-- The indices of a walk in closed form. -/
theorem take_eq_map (count : Nat) :
    ∀ o : StridedOrder, 1 < o.length → o.next < o.length → count ≤ o.remaining →
      (take count o).1
        = (List.range count).map fun i => (o.next + i * o.stride) % o.length := by
  induction count with
  | zero => exact fun _ _ _ _ => rfl
  | succ count ih =>
      intro o hLength hNext hRemaining
      have hMore : o.remaining ≠ 0 := by omega
      have hFirst : (o.next + 0 * o.stride) % o.length = o.next := by
        rw [Nat.zero_mul, Nat.add_zero, Nat.mod_eq_of_lt hNext]
      have hShift : ∀ i, ((o.next + o.stride) % o.length + i * o.stride) % o.length
          = (o.next + (i + 1) * o.stride) % o.length := by
        intro i
        rw [Nat.mod_add_mod, Nat.add_assoc, Nat.succ_mul, Nat.add_comm o.stride]
      have hRest := ih ⟨o.length, o.stride, (o.next + o.stride) % o.length, o.remaining - 1⟩
        hLength (Nat.mod_lt _ (by omega)) (by show count ≤ o.remaining - 1; omega)
      rw [take, next?, if_neg hMore, if_pos hLength, List.range_succ_eq_map, List.map_cons, hFirst,
        List.map_map]
      show o.next :: (take count _).1 = _
      rw [hRest]
      congr 1
      exact List.map_congr_left fun i _ => hShift i

/-- Two places of a walk around the length are different indices. -/
theorem index_injective (h : Nat.Coprime o.stride o.length) {i j : Nat} (hi : i < o.length)
    (hj : j < o.length)
    (hSame : (o.next + i * o.stride) % o.length = (o.next + j * o.stride) % o.length) :
    i = j := by
  have hMultiples : i * o.stride ≡ j * o.stride [MOD o.length] := Nat.ModEq.add_left_cancel' _ hSame
  have hPlaces : i ≡ j [MOD o.length] :=
    Nat.ModEq.cancel_right_of_coprime (Nat.coprime_comm.mp h) hMultiples
  rw [Nat.ModEq, Nat.mod_eq_of_lt hi, Nat.mod_eq_of_lt hj] at hPlaces
  exact hPlaces

/-- A whole walk with a stride that has no common divisor with the length meets
every index once. -/
theorem perm_toList (hLength : 1 < o.length) (hNext : o.next < o.length)
    (hWhole : o.remaining = o.length) (h : Nat.Coprime o.stride o.length) :
    o.toList.Perm (List.range o.length) := by
  rw [toList, take_eq_map _ o hLength hNext (Nat.le_refl _), hWhole]
  have hNodup : ((List.range o.length).map fun i =>
      (o.next + i * o.stride) % o.length).Nodup := by
    refine List.Nodup.map_on ?_ List.nodup_range
    intro i hi j hj hSame
    exact index_injective h (List.mem_range.mp hi) (List.mem_range.mp hj) hSame
  have hRange : ((List.range o.length).map fun i => (o.next + i * o.stride) % o.length)
      ⊆ List.range o.length := by
    intro k hk
    obtain ⟨i, _, rfl⟩ := List.mem_map.mp hk
    exact List.mem_range.mpr (Nat.mod_lt _ (by omega))
  exact (hNodup.subperm hRange).perm_of_length_le (by simp)

/-- Whatever is drawn, an order of a length meets every index below the length
once. -/
theorem perm_toList_new (length : Nat) (g : ChaCha) :
    (new length g).1.toList.Perm (List.range length) := by
  unfold new
  split
  · rename_i hShort
    obtain rfl | rfl : length = 0 ∨ length = 1 := by omega
    · exact List.Perm.refl _
    · exact List.Perm.refl _
  · rename_i hLong
    -- The draws are generalized, or unfolding would compute them.
    generalize g.belowSmall 16 onOffer_pos = drawn
    obtain ⟨i, g⟩ := drawn
    dsimp only
    generalize g.below length _ = started
    have hOffer : primesOnOffer[i] ∈ primesOnOffer.toList :=
      Vector.mem_toList_iff.mpr (Vector.getElem_mem _)
    have hLength : 1 < length := by omega
    let drawnOrder : StridedOrder := ⟨length, strideFor length primesOnOffer[i], started.1, length⟩
    show drawnOrder.toList.Perm (List.range length)
    exact perm_toList (o := drawnOrder) hLength started.1.isLt rfl (coprime_strideFor hOffer)

end StridedOrder
end LocalRepair
