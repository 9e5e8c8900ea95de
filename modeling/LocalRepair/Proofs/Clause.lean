import Mathlib.Tactic.Ring
import LocalRepair.Proofs.Assignment
import LocalRepair.Bookkeeping
import LocalRepair.Meaning

/-!
# Counting true literals

A clause is kept by one number, and everything a search does with it is
arithmetic on that number. Here the number is tied to the assignment: it starts
as the number of true positions, and the shift of a flip is by how much that
number changes, also when a proposition stands in a clause several times and
with both signs.

The estimate for a flip goes through the literals of the proposition one by one
and stops at zero on the way down. It is exact nevertheless: literals that
become false were true before, so the count never meets zero too early, and the
steps telescope. On the way up it wraps round where 32 bits end, but literals that
become true were false before, so the count never passes the number of literals.
All of this is about clauses whose literals can be counted in 32 bits.

## Main results

* `countTrue_eq`: counting from scratch.
* `truePositions_flipped`: the shift is the change.
* `risk_eq`: the estimate is the change of the penalty.
-/

namespace LocalRepair

/-! ## Ascending lists -/

@[simp] theorem mem_insertAscending {n m : Nat} {ns : List Nat} :
    m ∈ insertAscending n ns ↔ m = n ∨ m ∈ ns := by
  induction ns with
  | nil => simp [insertAscending]
  | cons k ns ih =>
      rw [insertAscending]
      split
      · simp
      · split
        · rename_i hEq
          simp [hEq]
        · simp only [List.mem_cons, ih]
          tauto

@[simp] theorem mem_ascending {m : Nat} {ns : List Nat} : m ∈ ascending ns ↔ m ∈ ns := by
  induction ns with
  | nil => simp [ascending]
  | cons n ns ih =>
      rw [ascending, List.foldr_cons, mem_insertAscending, List.mem_cons]
      exact or_congr_right ih

theorem insertAscending_pairwise {n : Nat} {ns : List Nat} (h : ns.Pairwise (· < ·)) :
    (insertAscending n ns).Pairwise (· < ·) := by
  induction ns with
  | nil => simp [insertAscending]
  | cons k ns ih =>
      have hRest := (List.pairwise_cons.mp h).2
      have hHead := (List.pairwise_cons.mp h).1
      rw [insertAscending]
      split
      · rename_i hLess
        refine List.pairwise_cons.mpr ⟨fun m hm => ?_, h⟩
        rcases List.mem_cons.mp hm with rfl | hm
        · exact hLess
        · exact Nat.lt_trans hLess (hHead m hm)
      · split
        · exact h
        · refine List.pairwise_cons.mpr ⟨fun m hm => ?_, ih hRest⟩
          rcases mem_insertAscending.mp hm with rfl | hm
          · omega
          · exact hHead m hm

/-- An ascending list has no repeats. -/
theorem ascending_nodup (ns : List Nat) : (ascending ns).Nodup := by
  have hPairwise : (ascending ns).Pairwise (· < ·) := by
    induction ns with
    | nil => exact List.Pairwise.nil
    | cons n ns ih => exact insertAscending_pairwise ih
  exact hPairwise.imp Nat.ne_of_lt

/-! ## Positive literals -/

namespace Literal

variable {v : Nat}

/-- A number that fits is the encoding of the positive literal. -/
theorem encoded_positive (h : v < 2 ^ 31) : (positive v).encoded = v := by
  have hPow : Nat.pow 2 32 = 4294967296 := by decide
  have hSmall : Int.bmod v (Nat.pow 2 32) = v := by
    rw [hPow]
    exact Int.bmod_eq_of_le (by omega) (by omega)
  unfold positive
  dsimp only
  exact hSmall

theorem proposition_positive (h : v < 2 ^ 31) : (positive v).proposition = v := by
  rw [proposition, encoded_positive h, Int.natAbs_natCast]

/-- The positive literal of a proposition is true when the proposition is. -/
theorem isTrueUnder_positive (hPos : 0 < v) (h : v < 2 ^ 31) (value : Bool) :
    (positive v).isTrueUnder value = value := by
  have hPositive : (positive v).isPositive = true := by
    rw [isPositive, encoded_positive h, decide_eq_true_iff]
    exact_mod_cast hPos
  rw [isTrueUnder, hPositive, beq_true]

end Literal

namespace Clause

variable {c : Clause} {a a' : Assignment} {v : Nat}

theorem mem_propositions : v ∈ c.propositions ↔ ∃ l ∈ c.literals, l.proposition = v := by
  simp [propositions]

theorem truePositions_le (c : Clause) (a : Assignment) :
    c.truePositions a ≤ c.literals.length :=
  List.countP_le_length

/-- The window accepts exactly the assignments that satisfy the clause. -/
theorem accepts_iff : c.accepts (c.truePositions a) = true ↔ c.Holds a := by
  simp [accepts, Holds]

/-! ## Numbers in 32 bits -/

/-- Below `2 ^ 32` nothing wraps round. -/
theorem inWord_eq {n : Nat} (h : n < 2 ^ 32) : inWord n = n := Nat.mod_eq_of_lt h

/-- The literals of a clause can be counted in 32 bits. -/
def Short (c : Clause) : Prop := c.literals.length < 2 ^ 32

instance (c : Clause) : Decidable c.Short := inferInstanceAs (Decidable (_ < _))

/-- So can those that are true. -/
theorem Short.inWord_truePositions (h : c.Short) (a : Assignment) :
    inWord (c.truePositions a) = c.truePositions a :=
  inWord_eq (Nat.lt_of_le_of_lt (truePositions_le c a) h)

/-- The upper end of a window is lowered to the number of literals. -/
theorem window_max {literals : List Literal} (h : literals.length < 2 ^ 32) (min max : Nat) :
    (window literals min max).max = Nat.min max literals.length := by
  show Nat.min max (inWord literals.length) = _
  rw [inWord_eq h]

/-- Literals that are made of the items of a row are counted like the items for which they
are true. -/
theorem countP_map_literals {α : Type} {a : Assignment} (literalOf : α → Literal)
    (counts : α → Bool) (row : List α)
    (h : ∀ x ∈ row, (literalOf x).isTrueUnder (a.isTrue (literalOf x).proposition) = counts x) :
    (row.map literalOf).countP (fun l => l.isTrueUnder (a.isTrue l.proposition))
      = (row.filter counts).length := by
  rw [List.countP_map, ← List.countP_eq_length_filter]
  refine List.countP_congr fun x hx => ?_
  rw [Function.comp_apply, h x hx]

/-! ## Starting and following -/

/-- Going through literals adds the number of those that are true. -/
theorem foldlM_holds (a : Assignment) :
    ∀ (ls : List Literal) (n : Nat), (∀ l ∈ ls, l.proposition < a.values.size) →
      ls.foldlM (fun n l => do if ← a.holds l then return n + 1 else return n) n
        = Except.ok (ε := Fault)
            (n + ls.countP fun l => l.isTrueUnder (a.isTrue l.proposition)) := by
  intro ls
  induction ls with
  | nil =>
      intro n _
      rfl
  | cons l ls ih =>
      intro n hRange
      have hRest : ∀ k ∈ ls, k.proposition < a.values.size := fun k hk =>
        hRange k (List.mem_cons_of_mem _ hk)
      have hHolds : a.holds l = .ok (l.isTrueUnder (a.isTrue l.proposition)) := by
        rw [Assignment.holds, Assignment.value_eq (hRange l (by simp))]
        rfl
      rw [List.foldlM_cons, hHolds, List.countP_cons]
      cases hTrue : l.isTrueUnder (a.isTrue l.proposition) with
      | true =>
          show ls.foldlM _ (n + 1) = _
          rw [ih (n + 1) hRest, if_pos rfl, Nat.add_right_comm, Nat.add_assoc]
      | false =>
          show ls.foldlM _ n = _
          rw [ih n hRest, if_neg Bool.false_ne_true, Nat.add_zero]

/-- Counting from scratch counts the true positions, as far as 32 bits go. -/
theorem countTrue_eq_inWord (h : ∀ l ∈ c.literals, l.proposition < a.values.size) :
    c.countTrue a = .ok (inWord (c.truePositions a)) := by
  rw [countTrue, foldlM_holds a c.literals 0 h, Nat.zero_add]
  rfl

/-- Counting a short clause from scratch counts its true positions. -/
theorem countTrue_eq (hShort : c.Short) (h : ∀ l ∈ c.literals, l.proposition < a.values.size) :
    c.countTrue a = .ok (c.truePositions a) := by
  rw [countTrue_eq_inWord h, hShort.inWord_truePositions]

/-- By how much a literal that changes adds to the number of true ones. -/
def step (value : Bool) (l : Literal) : Int := if l.isTrueUnder value then 1 else -1

theorem shift_eq (c : Clause) (v : Nat) (value : Bool) :
    c.shift v value = ((c.literalsOf v).map (step value)).sum := rfl

/-- A literal of the flipped proposition is true now exactly when it was false
before. -/
theorem isTrueUnder_not (l : Literal) (value : Bool) :
    l.isTrueUnder (!value) = !l.isTrueUnder value := by
  cases value <;> cases h : l.isPositive <;> simp [Literal.isTrueUnder, h]

/-- The shift of a flip is the change of the number of true positions. -/
theorem truePositions_flipped (hFlip : a.Flipped v a') :
    (c.truePositions a' : Int) = c.truePositions a + c.shift v (a'.isTrue v) := by
  rw [shift_eq, truePositions, truePositions, literalsOf]
  induction c.literals with
  | nil => rfl
  | cons l ls ih =>
      rw [List.countP_cons, List.countP_cons]
      by_cases hl : l.proposition = v
      · have hChange := isTrueUnder_not l (a.isTrue v)
        rw [List.filter_cons_of_pos (by simpa using hl), List.map_cons, List.sum_cons, hl, step]
        rw [hFlip.self] at ih ⊢
        rw [hChange]
        cases l.isTrueUnder (a.isTrue v) <;> simp <;> omega
      · rw [List.filter_cons_of_neg (by simpa using hl), hFlip.other _ hl]
        push_cast
        omega

/-- A flip of a proposition that the clause does not mention leaves the number
of true positions alone. -/
theorem truePositions_of_not_mem (hFlip : a.Flipped v a') (h : v ∉ c.propositions) :
    c.truePositions a' = c.truePositions a := by
  apply List.countP_congr
  intro l hl
  have hOther : l.proposition ≠ v := fun hEq => h (mem_propositions.mpr ⟨l, hl, hEq⟩)
  rw [hFlip.other _ hOther]

/-! ## The estimate -/

/-- Along literals of which no more become false than are true, and not so many become
true that the count leaves 32 bits, the estimates of the single steps add up to the
change of the penalty. -/
theorem riskAlong_eq (c : Clause) (value : Bool) :
    ∀ (ls : List Literal) (count after : Nat),
      (after : Int) = count + (ls.map (step value)).sum →
      ls.countP (fun l => !l.isTrueUnder value) ≤ count →
      count + ls.countP (fun l => l.isTrueUnder value) < 2 ^ 32 →
      c.riskAlong value ls count = c.penalty after - c.penalty count := by
  intro ls
  induction ls with
  | nil =>
      intro count after hAfter _ _
      have hEq : after = count := by
        rw [List.map_nil, List.sum_nil] at hAfter
        omega
      rw [riskAlong, hEq, Int.sub_self]
  | cons l ls ih =>
      intro count after hAfter hFalling hRising
      rw [List.map_cons, List.sum_cons, step] at hAfter
      rw [List.countP_cons] at hFalling hRising
      rw [riskAlong]
      by_cases hl : l.isTrueUnder value = true
      · rw [if_pos hl] at hAfter hRising ⊢
        simp only [hl, Bool.not_true, Bool.false_eq_true, if_false] at hFalling
        have hNext : inWord (count + 1) = count + 1 := inWord_eq (by omega)
        rw [changeUp, hNext, ih (count + 1) after (by push_cast; omega) (by omega) (by omega)]
        ring
      · rw [if_neg hl] at hAfter hRising ⊢
        simp only [hl, Bool.not_false, if_true] at hFalling
        rw [changeDown, ih (count - 1) after (by omega) (by omega) (by omega)]
        ring

/-- Literals that become false were true before. -/
theorem falling_le_truePositions (hFlip : a.Flipped v a') :
    (c.literalsOf v).countP (fun l => !l.isTrueUnder (a'.isTrue v)) ≤ c.truePositions a := by
  rw [literalsOf, List.countP_filter, truePositions]
  apply List.countP_mono_left
  intro l _ hl
  simp only [Bool.and_eq_true, beq_iff_eq] at hl
  obtain ⟨hFalse, hProposition⟩ := hl
  rw [← isTrueUnder_not, hFlip.self, Bool.not_not] at hFalse
  rw [hProposition]
  exact hFalse

/-- Literals that become true were false before. -/
theorem truePositions_add_rising_le (hFlip : a.Flipped v a') :
    c.truePositions a + (c.literalsOf v).countP (fun l => l.isTrueUnder (a'.isTrue v))
      ≤ c.literals.length := by
  have hRising : (c.literalsOf v).countP (fun l => l.isTrueUnder (a'.isTrue v))
      ≤ c.literals.countP fun l => ¬ l.isTrueUnder (a.isTrue l.proposition) := by
    rw [literalsOf, List.countP_filter]
    apply List.countP_mono_left
    intro l _ hl
    simp only [Bool.and_eq_true, beq_iff_eq] at hl
    obtain ⟨hTrue, hProposition⟩ := hl
    rw [hFlip.self, isTrueUnder_not] at hTrue
    simpa [hProposition] using hTrue
  have hAll := List.length_eq_countP_add_countP
    (fun l : Literal => l.isTrueUnder (a.isTrue l.proposition)) (l := c.literals)
  rw [truePositions, hAll]
  exact Nat.add_le_add_left hRising _

/-- A clause has literals of the propositions that it mentions. -/
theorem literalsOf_eq_nil_iff : c.literalsOf v = [] ↔ v ∉ c.propositions := by
  rw [mem_propositions, literalsOf, List.filter_eq_nil_iff]
  simp

/-- A clause has no estimate exactly for the propositions that it does not
mention. -/
theorem risk_eq_none_iff (c : Clause) (count v : Nat) (value : Bool) :
    c.risk count v value = none ↔ v ∉ c.propositions := by
  rw [← literalsOf_eq_nil_iff, risk]
  split
  · rename_i hNone
    exact iff_of_true rfl hNone
  · rename_i hSome
    exact iff_of_false (by simp) hSome

/-- The estimate for a flip of a short clause is the change of the penalty that it
causes, and there is one exactly when the clause mentions the proposition. -/
theorem risk_eq (hShort : c.Short) (hFlip : a.Flipped v a') :
    c.risk (c.truePositions a) v (a'.isTrue v)
      = if v ∈ c.propositions then
          some (c.penalty (c.truePositions a') - c.penalty (c.truePositions a))
        else none := by
  have hAlong := riskAlong_eq c (a'.isTrue v) (c.literalsOf v) (c.truePositions a)
    (c.truePositions a') (truePositions_flipped hFlip) (falling_le_truePositions hFlip)
    (Nat.lt_of_le_of_lt (truePositions_add_rising_le hFlip) hShort)
  rw [risk]
  split
  · rename_i hNone
    rw [if_neg (literalsOf_eq_nil_iff.mp hNone)]
  · rename_i hSome
    rw [if_pos (not_not.mp fun hOut => hSome (literalsOf_eq_nil_iff.mpr hOut)), hAlong]

end Clause
end LocalRepair
