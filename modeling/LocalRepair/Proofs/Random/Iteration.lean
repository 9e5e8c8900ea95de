import LocalRepair.Proofs.Random.Stride

/-!
# Going through an order index by index

An order is not made as a list. Its indices are asked for one at a time, and between two
of them the caller may want to know how many are left. What comes out over any number of
calls is a front part of one list, the indices that the order had to come; the walk that is
left has the rest of that list to come, and announces how long it is. After the last index
there is none, however often one is asked for.

The next index is found by adding the stride and taking the remainder. Both numbers are
below the length, so that their sum stays below `2 ^ 64` for all lengths up to `2 ^ 63`,
and 64 bits are enough for it.

What a generator draws is a prime and a start. `Drawable` has every such choice, not only
those that some generator makes.

## Main results

* `take_add`: calls one after the other.
* `take_eq`, `toList_take`: the front part and the rest.
* `Drawable.bounded`: the sum of index and stride.
* `order_meets_every_index_once`.
-/

namespace LocalRepair.StridedOrder

variable {o : StridedOrder} {length count more : Nat}

/-! ## Calls -/

/-- A walk without indices to come has come to its end. -/
theorem next?_eq_none_iff : o.next? = none ↔ o.remaining = 0 := by
  unfold next?
  split
  · rename_i hEnd
    simp [hEnd]
  · rename_i hMore
    simp [hMore]

/-- No call is answered at the end. -/
theorem take_of_end (h : o.remaining = 0) (count : Nat) : take count o = ([], o) := by
  cases count with
  | zero => rfl
  | succ count => rw [take, next?_eq_none_iff.mpr h]

/-- Calls one after the other. -/
theorem take_add (count more : Nat) : ∀ o : StridedOrder, take (count + more) o
    = ((take count o).1 ++ (take more (take count o).2).1, (take more (take count o).2).2) := by
  induction count with
  | zero => simp [take]
  | succ count ih =>
      intro o
      rw [Nat.add_right_comm, take, take]
      cases hNext : o.next? with
      | none => rw [take_of_end (next?_eq_none_iff.mp hNext)]; rfl
      | some step => simp only [ih, List.cons_append]

/-- Every call is answered until none is left to come. -/
theorem remaining_take (count : Nat) : ∀ o : StridedOrder,
    (take count o).2.remaining = o.remaining - count
      ∧ (take count o).1.length = min count o.remaining := by
  induction count with
  | zero => simp [take]
  | succ count ih =>
      intro o
      rw [take]
      by_cases hEnd : o.remaining = 0
      · rw [next?_eq_none_iff.mpr hEnd]
        simp [hEnd]
      · obtain ⟨hLeft, hGiven⟩ := ih { o with
          next := if 1 < o.length then (o.next + o.stride) % o.length else o.next
          remaining := o.remaining - 1 }
        rw [next?, if_neg hEnd]
        simp only [List.length_cons, hLeft, hGiven]
        omega

theorem length_toList (o : StridedOrder) : o.toList.length = o.remaining := by
  rw [toList, (remaining_take o.remaining o).2, Nat.min_self]

/-- What was given and what is left to come make up the whole. -/
theorem toList_eq_append (h : count ≤ o.remaining) :
    o.toList = (take count o).1 ++ (take count o).2.toList := by
  have hCalls := congrArg Prod.fst (take_add count (o.remaining - count) o)
  rw [Nat.add_sub_cancel' h] at hCalls
  rw [toList, toList, (remaining_take count o).1]
  exact hCalls

/-- More calls than there are indices give no more than that. -/
theorem take_of_remaining_le (h : o.remaining ≤ count) : (take count o).1 = o.toList := by
  have hEnd : (take o.remaining o).2.remaining = 0 := by
    rw [(remaining_take o.remaining o).1, Nat.sub_self]
  have hCalls := congrArg Prod.fst (take_add o.remaining (count - o.remaining) o)
  rw [Nat.add_sub_cancel' h, take_of_end hEnd, List.append_nil] at hCalls
  exact hCalls

/-- Any number of calls gives a front part of the indices to come. -/
theorem take_eq (o : StridedOrder) (count : Nat) : (take count o).1 = o.toList.take count := by
  by_cases hFew : count ≤ o.remaining
  · have hGiven : (take count o).1.length = count := by
      rw [(remaining_take count o).2, Nat.min_eq_left hFew]
    rw [toList_eq_append hFew, List.take_left' hGiven]
  · have hMany : o.remaining ≤ count := by omega
    rw [take_of_remaining_le hMany, List.take_of_length_le (by rwa [length_toList])]

/-- The walk that is left has the rest to come. -/
theorem toList_take (o : StridedOrder) (count : Nat) :
    (take count o).2.toList = o.toList.drop count := by
  by_cases hFew : count ≤ o.remaining
  · have hGiven : (take count o).1.length = count := by
      rw [(remaining_take count o).2, Nat.min_eq_left hFew]
    rw [toList_eq_append hFew, List.drop_left' hGiven]
  · have hMany : o.remaining ≤ count := by omega
    rw [List.drop_of_length_le (by rwa [length_toList]), ← List.length_eq_zero_iff,
      length_toList, (remaining_take count o).1, Nat.sub_eq_zero_of_le hMany]

/-! ## Bounds on the sum -/

/-- The index that comes next and the stride are below a bound that is no less than the
length. -/
structure Bounded (o : StridedOrder) (bound : Nat) : Prop where
  length : o.length ≤ bound
  next : o.next < bound
  stride : o.stride < bound

/-- Calls keep index and stride below the bound. -/
theorem Bounded.take {bound : Nat} (count : Nat) :
    ∀ o : StridedOrder, o.Bounded bound → (take count o).2.Bounded bound := by
  induction count with
  | zero => exact fun _ h => h
  | succ count ih =>
      intro o h
      rw [StridedOrder.take, next?]
      by_cases hEnd : o.remaining = 0
      · rw [if_pos hEnd]
        exact h
      · rw [if_neg hEnd]
        refine ih _ ⟨h.length, ?_, h.stride⟩
        dsimp only
        split
        · exact Nat.lt_of_lt_of_le (Nat.mod_lt _ (by omega)) h.length
        · exact h.next

/-! ## What may be drawn -/

theorem strideFor_lt (h : 1 < length) (q : Nat) : strideFor length q < length := by
  unfold strideFor
  split
  · exact Nat.mod_lt _ (by omega)
  · split
    · exact Nat.mod_lt _ (by omega)
    · exact h

/-- The orders of a length: at most one index needs no draw, and more are gone through by
any of the primes and from any start. -/
inductive Drawable (length : Nat) : StridedOrder → Prop where
  | short (h : length ≤ 1) : Drawable length { length, stride := 0, next := 0, remaining := length }
  | long (h : 1 < length) (i : Fin 16) (start : Fin length) :
      Drawable length { length, stride := strideFor length (primesOnOffer.get i),
                        next := start.val, remaining := length }

/-- A generator draws one of them. -/
theorem drawable_new (length : Nat) (g : ChaCha) : Drawable length (new length g).1 := by
  unfold new
  split
  · rename_i hShort
    exact .short hShort
  · rename_i hLong
    -- The draws are generalized, or unfolding would compute them.
    generalize g.belowSmall 16 onOffer_pos = drawn
    obtain ⟨i, g⟩ := drawn
    dsimp only
    generalize g.below length _ = started
    exact .long (by omega) i started.1

namespace Drawable

theorem remaining (h : Drawable length o) : o.remaining = length := by
  cases h <;> rfl

/-- Every index stands in the order once. -/
theorem perm (h : Drawable length o) : o.toList.Perm (List.range length) := by
  cases h with
  | short h =>
      obtain rfl | rfl : length = 0 ∨ length = 1 := by omega
      · exact List.Perm.refl _
      · exact List.Perm.refl _
  | long h i start =>
      have hOffer : primesOnOffer.get i ∈ primesOnOffer.toList :=
        Vector.mem_toList_iff.mpr (Vector.getElem_mem i.isLt)
      exact perm_toList (o := ⟨length, strideFor length (primesOnOffer.get i), start, length⟩) h
        start.isLt rfl (coprime_strideFor hOffer)

theorem bounded (h : Drawable length o) : o.Bounded (max 1 length) := by
  cases h with
  | short h => exact ⟨Nat.le_max_right _ _, by show 0 < _; omega, by show 0 < _; omega⟩
  | long h i start =>
      have hStride := strideFor_lt h (primesOnOffer.get i)
      refine ⟨Nat.le_max_right _ _, ?_, ?_⟩
      · exact Nat.lt_of_lt_of_le start.isLt (Nat.le_max_right _ _)
      · exact Nat.lt_of_lt_of_le hStride (Nat.le_max_right _ _)

end Drawable

/-- Up to a length of `2 ^ 63`, whatever prime and start are drawn, an order meets every
index below the length once. Any number of calls gives a front part of it and leaves the
rest to come, with its exact size announced. From the moment when all were given no call
is answered, and not before. The sum of index and stride always fits into 64 bits. -/
theorem order_meets_every_index_once (hLength : length ≤ 2 ^ 63) :
    (∀ g, Drawable length (new length g).1)
      ∧ ∀ o, Drawable length o →
        o.toList.Perm (List.range length)
          ∧ ∀ count, (take count o).1 = o.toList.take count
            ∧ (take count o).2.toList = o.toList.drop count
            ∧ (take count o).2.sizeHint = (length - count, some (length - count))
            ∧ ((take count o).2.next? = none ↔ length ≤ count)
            ∧ (take count o).2.next + (take count o).2.stride < 2 ^ 64 := by
  refine ⟨drawable_new length, fun o hDrawable => ⟨hDrawable.perm, fun count => ?_⟩⟩
  have hLeft : (take count o).2.remaining = length - count := by
    rw [(remaining_take count o).1, hDrawable.remaining]
  have hHint : (take count o).2.sizeHint = (length - count, some (length - count)) := by
    rw [sizeHint, hLeft]
  have hEnd : (take count o).2.next? = none ↔ length ≤ count := by
    rw [next?_eq_none_iff, hLeft]
    omega
  have hSum : (take count o).2.next + (take count o).2.stride < 2 ^ 64 := by
    have hBounded := hDrawable.bounded.take count o
    have hNext := hBounded.next
    have hStride := hBounded.stride
    omega
  exact ⟨take_eq o count, toList_take o count, hHint, hEnd, hSum⟩

/-- The product of the first two primes is divided by the prime that was drawn and by the
one after it, so that the third takes its place. After two calls two indices are gone. -/
theorem order_meets_every_index_once_divisible :
    1000003 * 1000033 ≤ 2 ^ 63
      ∧ strideFor (1000003 * 1000033) (primesOnOffer.get 0) = 1000037
      ∧ (take 2 ⟨1000003 * 1000033, strideFor (1000003 * 1000033) (primesOnOffer.get 0),
          1000003 * 1000033 - 1, 1000003 * 1000033⟩).2.sizeHint
        = (1000003 * 1000033 - 2, some (1000003 * 1000033 - 2)) := by
  have hLength : 1000003 * 1000033 ≤ 2 ^ 63 := by decide
  have hDrawable : Drawable (1000003 * 1000033) _ :=
    .long (by decide) 0 ⟨1000003 * 1000033 - 1, by decide⟩
  obtain ⟨_, hAll⟩ := (order_meets_every_index_once hLength).2 _ hDrawable
  exact ⟨hLength, by decide, (hAll 2).2.2.1⟩

end LocalRepair.StridedOrder
