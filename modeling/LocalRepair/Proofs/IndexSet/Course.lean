import Mathlib.Data.Finset.Card
import LocalRepair.Proofs.IndexSet
import LocalRepair.Proofs.Outcome
import LocalRepair.Proofs.Random.Draw

/-!
# An index set in use

Indices are added to a set and removed from it in any order, and now and then it is
cleared. A finite set that goes through the same operations has no tables that could get
out of step, and what the index set answers is what the finite set would answer.

The row has an order on top of that, and two things about it matter. An operation that
changes no member leaves the order alone. And a random member is a place in the row, so a
member would be preferred if it stood there twice, and never found if it stood nowhere.

## Main results

* `Represents.after`: one operation on both.
* `run_represents`: a course of operations.
* `Represents.eq_of_same`: operations that change no member.
* `choose_eq`: which member a draw stands for.
* `agrees_with_finite_set`.
-/

namespace LocalRepair.IndexSet

variable {s : IndexSet} {n i : Nat} {members : Finset Nat}

/-! ## Operations on both -/

/-- What can be done to a set of indices. -/
inductive Operation where
  | insert (i : Nat)
  | remove (i : Nat)
  | update (i : Nat) (satisfied : Bool)
  | clear

namespace Operation

/-- The operation speaks of no index outside a universe. -/
def Within (n : Nat) : Operation → Prop
  | insert i => i < n
  | remove i => i < n
  | update i _ => i < n
  | clear => True

/-- The index set after an operation. -/
def after : Operation → IndexSet → Except Fault IndexSet
  | insert i, s => s.insert i
  | remove i, s => s.remove i
  | update i satisfied, s => s.update i satisfied
  | clear, s => s.clear

/-- The finite set after the same operation. -/
def onFinset : Operation → Finset Nat → Finset Nat
  | insert i, members => Insert.insert i members
  | remove i, members => members.erase i
  | update i satisfied, members => if satisfied then members.erase i else Insert.insert i members
  | clear, _ => ∅

end Operation

/-- The index set after a course of operations. -/
def run (operations : List Operation) (s : IndexSet) : Except Fault IndexSet :=
  operations.foldlM (fun s operation => operation.after s) s

/-- The finite set after the same course, which starts with no member. -/
def finsetAfter (operations : List Operation) : Finset Nat :=
  operations.foldl (fun members operation => operation.onFinset members) ∅

/-! ## The finite set that is represented -/

/-- The tables of the index set fit together, and its row has the members of the finite
set. -/
structure Represents (s : IndexSet) (n : Nat) (members : Finset Nat) : Prop where
  fits : s.Fits n
  mem_iff : ∀ i, i ∈ s.toList ↔ i ∈ members

theorem represents_empty (n : Nat) : (empty n).Represents n ∅ :=
  ⟨fits_empty n, by simp [empty, toList]⟩

namespace Represents

/-- An operation on indices of the universe succeeds, and does to the members what it does
to a finite set. -/
theorem after (h : s.Represents n members) (operation : Operation)
    (hRange : operation.Within n) :
    ∃ s', operation.after s = .ok s' ∧ s'.Represents n (operation.onFinset members) := by
  have hInsert : ∀ i, i < n → ∃ s', s.insert i = .ok s'
      ∧ s'.Represents n (Insert.insert i members) := by
    intro i hi
    obtain ⟨s', hStep, hFits, hMem⟩ := h.fits.insert hi
    exact ⟨s', hStep, hFits, fun j => by rw [hMem, h.mem_iff, Finset.mem_insert]⟩
  have hRemove : ∀ i, i < n → ∃ s', s.remove i = .ok s'
      ∧ s'.Represents n (members.erase i) := by
    intro i hi
    obtain ⟨s', hStep, hFits, hMem⟩ := h.fits.remove hi
    exact ⟨s', hStep, hFits, fun j => by rw [hMem, h.mem_iff, Finset.mem_erase]⟩
  cases operation with
  | insert i => exact hInsert i hRange
  | remove i => exact hRemove i hRange
  | update i satisfied =>
      cases satisfied with
      | true => exact hRemove i hRange
      | false => exact hInsert i hRange
  | clear => exact ⟨empty n, h.fits.clear, represents_empty n⟩

/-- An operation that changes no member changes nothing, not even the order of the row. -/
theorem eq_of_same (h : s.Represents n members) (operation : Operation)
    (hRange : operation.Within n) (hSame : operation.onFinset members = members) :
    operation.after s = .ok s := by
  have hInsert : ∀ i, Insert.insert i members = members → s.insert i = .ok s := by
    intro i hi
    exact h.fits.insert_of_mem ((h.mem_iff i).mpr (Finset.insert_eq_self.mp hi))
  have hRemove : ∀ i, i < n → members.erase i = members → s.remove i = .ok s := by
    intro i hi hOut
    exact h.fits.remove_of_not_mem hi (mt (h.mem_iff i).mp (Finset.erase_eq_self.mp hOut))
  cases operation with
  | insert i => exact hInsert i hSame
  | remove i => exact hRemove i hRange hSame
  | update i satisfied =>
      cases satisfied with
      | true => exact hRemove i hRange hSame
      | false => exact hInsert i hSame
  | clear =>
      have hNone : s.members.toList = [] := by
        apply List.eq_nil_iff_forall_not_mem.mpr
        intro i hi
        have hMem := (h.mem_iff i).mp hi
        rw [← hSame] at hMem
        exact absurd hMem (Finset.notMem_empty i)
      show s.clear = .ok s
      rw [IndexSet.clear, hNone, ← Array.toList_eq_nil_iff.mp hNone]
      rfl

/-- The row lists the members of the finite set, and none of them twice. -/
theorem toFinset_toList (h : s.Represents n members) : s.toList.toFinset = members := by
  ext i
  rw [List.mem_toFinset, h.mem_iff]

theorem size_eq (h : s.Represents n members) : s.size = members.card := by
  rw [← h.toFinset_toList, List.toFinset_card_of_nodup h.fits.nodup]
  simp [size, toList]

theorem isEmpty_iff (h : s.Represents n members) : s.isEmpty = true ↔ members = ∅ := by
  rw [← Finset.card_eq_zero, ← h.size_eq, isEmpty, Array.isEmpty_iff_size_eq_zero]
  rfl

/-- A member stands in one place of the row. -/
theorem existsUnique_place (h : s.Represents n members) (hMem : i ∈ members) :
    ∃! k : Nat, k < s.size ∧ s.members[k]? = some i := by
  obtain ⟨k, hk⟩ := mem_toList.mp ((h.mem_iff i).mpr hMem)
  refine ⟨k, ⟨(Array.getElem?_eq_some_iff.mp hk).1, hk⟩, ?_⟩
  rintro m ⟨_, hm⟩
  have hPlaces := ((h.fits.place_iff i m).mpr hm).symm.trans ((h.fits.place_iff i k).mpr hk)
  exact Option.some.inj (Option.some.inj hPlaces)

end Represents

/-- A course of operations on indices of the universe succeeds, and goes along with the
finite set. -/
theorem run_represents (operations : List Operation)
    (hRange : ∀ operation ∈ operations, operation.Within n) :
    ∃ s, run operations (empty n) = .ok s ∧ s.Represents n (finsetAfter operations) :=
  foldlM_follows _ (fun _ _ operation hNow => hNow.after operation) operations (empty n) ∅
    (represents_empty n) hRange

/-! ## The place that is drawn -/

/-- Where there are several members there is one. -/
theorem size_pos_of_several (s : IndexSet) (h : 1 < s.members.size) : 0 < s.members.size := by
  omega

/-- The place in the row that a generator draws. For a lone member, or none, it is not
asked. -/
def drawnPlace (s : IndexSet) (g : ChaCha) : Nat :=
  if h : 1 < s.members.size then (g.below s.members.size (s.size_pos_of_several h)).1 else 0

/-- A random member is the one in the place that is drawn. -/
theorem choose_eq (s : IndexSet) (g : ChaCha) : (s.choose g).1 = s.members[s.drawnPlace g]? := by
  unfold choose drawnPlace
  by_cases hMany : 1 < s.members.size
  · simp only [dif_pos hMany]
    -- The draw is generalized, so that nothing computes it.
    generalize ChaCha.below _ _ g = drawn
    exact (Array.getElem?_eq_getElem drawn.1.isLt).symm
  · simp only [dif_neg hMany]

/-- Every place of the row can be drawn. -/
theorem exists_drawnPlace (hSize : s.size ≤ 2 ^ 64) {k : Nat} (hk : k < s.size) :
    ∃ g, s.drawnPlace g = k := by
  unfold drawnPlace
  by_cases hMany : 1 < s.members.size
  · obtain ⟨g, hg⟩ := ChaCha.exists_below (s.size_pos_of_several hMany) hSize ⟨k, hk⟩
    refine ⟨g, ?_⟩
    rw [dif_pos hMany]
    exact congrArg Fin.val hg
  · refine ⟨ChaCha.holding 0, ?_⟩
    rw [dif_neg hMany]
    unfold size at hk
    omega

/-! ## Sets -/

/-- After any operations on indices of the universe the two tables are inverse to each
other, the row lists the members of the finite set that went through the same operations,
each once, and every question is answered as the finite set would. Operations that change no
member leave the row as it is. A random member is the one in the drawn place: there is none
exactly if the set is empty, each member stands in one place, and every place can be
drawn. -/
theorem agrees_with_finite_set (n : Nat) (operations : List Operation)
    (hRange : ∀ operation ∈ operations, operation.Within n) :
    ∃ s, run operations (empty n) = .ok s
      ∧ s.toList.Nodup
      ∧ (∀ i k : Nat, s.place[i]? = some (some k) ↔ s.members[k]? = some i)
      ∧ s.toList.toFinset = finsetAfter operations
      ∧ (∀ i, i < n → s.contains i = .ok (decide (i ∈ finsetAfter operations)))
      ∧ s.size = (finsetAfter operations).card
      ∧ (s.isEmpty = true ↔ finsetAfter operations = ∅)
      ∧ (∀ operation : Operation, operation.Within n →
        operation.onFinset (finsetAfter operations) = finsetAfter operations →
        operation.after s = .ok s)
      ∧ (∀ g, (s.choose g).1 = s.members[s.drawnPlace g]?
        ∧ ((s.choose g).1 = none ↔ finsetAfter operations = ∅)
        ∧ ∀ i, (s.choose g).1 = some i → i ∈ finsetAfter operations)
      ∧ (∀ i ∈ finsetAfter operations, ∃! k : Nat, k < s.size ∧ s.members[k]? = some i)
      ∧ (n ≤ 2 ^ 64 → ∀ k < s.size, ∃ g, s.drawnPlace g = k) := by
  obtain ⟨s, hRun, h⟩ := run_represents operations hRange
  have hContains : ∀ i, i < n → s.contains i = .ok (decide (i ∈ finsetAfter operations)) := by
    intro i hi
    rw [h.fits.contains_eq hi]
    exact congrArg Except.ok (decide_eq_decide.mpr (h.mem_iff i))
  have hNone : ∀ g, (s.choose g).1 = none ↔ finsetAfter operations = ∅ := by
    intro g
    constructor
    · intro hDrawn
      exact h.isEmpty_iff.mp (isEmpty_of_choose_none hDrawn)
    · intro hEmpty
      have hSize := h.size_eq.trans (Finset.card_eq_zero.mpr hEmpty)
      rw [choose_eq, Array.getElem?_eq_none_iff]
      unfold size at hSize
      omega
  have hCard : s.size ≤ n := by
    rw [h.size_eq, ← Finset.card_range n]
    refine Finset.card_le_card fun i hi => Finset.mem_range.mpr ?_
    exact h.fits.lt_of_mem ((h.mem_iff i).mpr hi)
  exact ⟨s, hRun, h.fits.nodup, h.fits.place_iff, h.toFinset_toList, hContains, h.size_eq,
    h.isEmpty_iff, h.eq_of_same,
    fun g => ⟨choose_eq s g, hNone g, fun i hi => (h.mem_iff i).mp (mem_of_choose hi)⟩,
    fun _ => h.existsUnique_place,
    fun hSize _ => exists_drawnPlace (Nat.le_trans hCard hSize)⟩

/-- Of three members the first is removed, so that the last one fills its place, and then one
that stands last itself. Adding the member that is left changes nothing. -/
theorem agrees_with_finite_set_refilled :
    (∀ operation ∈ [Operation.insert 4, .insert 1, .update 3 false, .remove 4, .insert 1,
        .update 1 true], operation.Within 5)
      ∧ ∃ s, run [.insert 4, .insert 1, .update 3 false, .remove 4, .insert 1, .update 1 true]
          (empty 5) = .ok s
        ∧ s.size = 1 ∧ s.contains 3 = .ok true ∧ s.contains 4 = .ok false
        ∧ s.insert 3 = .ok s ∧ (s.choose (.seeded 0)).1 ≠ none := by
  have hRange : ∀ operation ∈ [Operation.insert 4, .insert 1, .update 3 false, .remove 4,
      .insert 1, .update 1 true], operation.Within 5 := by
    simp [Operation.Within]
  have hMembers : finsetAfter [.insert 4, .insert 1, .update 3 false, .remove 4, .insert 1,
      .update 1 true] = {3} := by decide
  obtain ⟨s, hRun, _, _, _, hContains, hSize, _, hSame, hChoose, _⟩ :=
    agrees_with_finite_set 5 _ hRange
  rw [hMembers] at hContains hSize hSame hChoose
  refine ⟨hRange, s, hRun, hSize, hContains 3 (by decide), hContains 4 (by decide),
    hSame (.insert 3) (by simp [Operation.Within]) (by decide), ?_⟩
  rw [Ne, (hChoose _).2.1]
  decide

end LocalRepair.IndexSet
