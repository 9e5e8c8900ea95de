import Mathlib.Algebra.Ring.Nat
import LocalRepair.Stats

/-!
# Reading and adding statistics

The activity of a search is a table in ascending order of constraint numbers, in which a
constraint without an entry took no part. The order is what makes `Stats.touch` find the
one entry of a constraint, and it is kept by every change, so what a table says of a
constraint can be read off `activityOf` and how it was filled does not matter.

A sum of statistics is right when every counter is the sum of that counter over the
parts, for each constraint separately. Adding up two such sums makes another one.

## Main results

* `Stats.activityOf_touch`: what counting does to the part of a constraint.
* `Stats.activityOf_add`: parts of constraints are added one by one.
* `Stats.Totals.add`: sums of statistics.
-/

namespace LocalRepair

namespace Activity

@[simp] theorem add_none (a : Activity) : a.add {} = a := rfl

end Activity

namespace Stats

variable {id j : Nat} {change : Activity → Activity} {entries more : List (Nat × Activity)}
  {s t : Stats}

/-! ## Tables -/

/-- The part of a constraint by a table, none at all without an entry. -/
def partIn (entries : List (Nat × Activity)) (id : Nat) : Activity :=
  (entries.lookup id).getD {}

/-- The entries stand in ascending order, and no constraint has two. -/
def Ascending (entries : List (Nat × Activity)) : Prop :=
  entries.Pairwise fun a b => a.1 < b.1

@[simp] theorem partIn_nil (id : Nat) : partIn [] id = {} := rfl

theorem partIn_cons (k : Nat) (a : Activity) (rest : List (Nat × Activity)) (id : Nat) :
    partIn ((k, a) :: rest) id = if id = k then a else partIn rest id := by
  by_cases h : id = k
  · subst h
    simp [partIn]
  · have hOther : (id == k) = false := by simpa using h
    simp [partIn, List.lookup_cons, hOther, h]

/-- A constraint that comes before all entries has none. -/
theorem partIn_of_lt (h : ∀ entry ∈ entries, id < entry.1) : partIn entries id = {} := by
  induction entries with
  | nil => rfl
  | cons entry rest ih =>
      have hHead : id < entry.1 := h entry (by simp)
      rw [partIn_cons, if_neg (by omega)]
      exact ih fun other hOther => h other (by simp [hOther])

/-- A change adds no other constraint to the table. -/
theorem key_of_mem_touchIn {entry : Nat × Activity} (h : entry ∈ touchIn id change entries) :
    entry.1 = id ∨ ∃ old ∈ entries, old.1 = entry.1 := by
  induction entries with
  | nil =>
      simp only [touchIn, List.mem_singleton] at h
      exact Or.inl (by rw [h])
  | cons head rest ih =>
      obtain ⟨k, a⟩ := head
      unfold touchIn at h
      split at h
      · rcases List.mem_cons.mp h with rfl | hOld
        · exact Or.inl rfl
        · exact Or.inr ⟨entry, hOld, rfl⟩
      · split at h
        · rename_i hSame
          rcases List.mem_cons.mp h with rfl | hOld
          · exact Or.inl hSame.symm
          · exact Or.inr ⟨entry, by simp [hOld], rfl⟩
        · rcases List.mem_cons.mp h with rfl | hOld
          · exact Or.inr ⟨(k, a), by simp, rfl⟩
          · rcases ih hOld with hNew | ⟨old, hMem, hKey⟩
            · exact Or.inl hNew
            · exact Or.inr ⟨old, by simp [hMem], hKey⟩

/-- A change keeps the order. -/
theorem ascending_touchIn (h : Ascending entries) : Ascending (touchIn id change entries) := by
  induction entries with
  | nil => simp [Ascending, touchIn]
  | cons head rest ih =>
      obtain ⟨k, a⟩ := head
      obtain ⟨hHead, hRest⟩ := List.pairwise_cons.mp h
      unfold touchIn
      split
      · rename_i hBefore
        refine List.pairwise_cons.mpr ⟨fun entry hEntry => ?_, h⟩
        rcases List.mem_cons.mp hEntry with rfl | hEntry
        · exact hBefore
        · exact Nat.lt_trans hBefore (hHead entry hEntry)
      · split
        · exact List.pairwise_cons.mpr ⟨hHead, hRest⟩
        · refine List.pairwise_cons.mpr ⟨fun entry hEntry => ?_, ih hRest⟩
          show k < entry.1
          rcases key_of_mem_touchIn hEntry with hNew | ⟨old, hOld, hKey⟩
          · omega
          · rw [← hKey]
            exact hHead old hOld

/-- A change is made to the part of one constraint. -/
theorem partIn_touchIn (h : Ascending entries) :
    partIn (touchIn id change entries) j
      = if j = id then change (partIn entries id) else partIn entries j := by
  induction entries with
  | nil => simp [touchIn, partIn_cons]
  | cons head rest ih =>
      obtain ⟨k, a⟩ := head
      obtain ⟨hHead, hRest⟩ := List.pairwise_cons.mp h
      have hRest := ih hRest
      unfold touchIn
      split
      · rename_i hBefore
        have hNone : partIn ((k, a) :: rest) id = {} := by
          apply partIn_of_lt
          intro entry hEntry
          rcases List.mem_cons.mp hEntry with rfl | hEntry
          · exact hBefore
          · exact Nat.lt_trans hBefore (hHead entry hEntry)
        rw [partIn_cons id, hNone]
      · split
        · rename_i hSame
          subst hSame
          simp only [partIn_cons]
          by_cases hj : j = id <;> simp [hj]
        · rename_i hOther
          simp only [partIn_cons, hRest, if_neg hOther]
          by_cases hj : j = k
          · simp [hj, Ne.symm hOther]
          · simp [hj]

/-- The part of a constraint in a search. -/
def activityOf (s : Stats) (id : Nat) : Activity := partIn s.activity id

/-- The activity of a search is in order. -/
def Ordered (s : Stats) : Prop := Ascending s.activity

theorem ordered_none : Ordered {} := List.Pairwise.nil

theorem Ordered.touch (h : s.Ordered) : (s.touch id change).Ordered := ascending_touchIn h

theorem activityOf_touch (h : s.Ordered) :
    (s.touch id change).activityOf j
      = if j = id then change (s.activityOf id) else s.activityOf j :=
  partIn_touchIn h

/-- A pick counts for its constraint. -/
theorem picks_countPick (h : s.Ordered) :
    ((s.countPick id).activityOf j).picks = (s.activityOf j).picks + if j = id then 1 else 0 := by
  rw [countPick, activityOf_touch h]
  by_cases hj : j = id <;> simp [hj]

/-- A pick is no transition. -/
theorem transitions_countPick (h : s.Ordered) :
    ((s.countPick id).activityOf j).transitions = (s.activityOf j).transitions := by
  rw [countPick, activityOf_touch h]
  by_cases hj : j = id <;> simp [hj]

/-- A transition counts for its constraint. -/
theorem transitions_countTransition (h : s.Ordered) :
    ((s.countTransition id).activityOf j).transitions
      = (s.activityOf j).transitions + if j = id then 1 else 0 := by
  rw [countTransition, activityOf_touch h]
  by_cases hj : j = id <;> simp [hj]

/-- A transition is no pick. -/
theorem picks_countTransition (h : s.Ordered) :
    ((s.countTransition id).activityOf j).picks = (s.activityOf j).picks := by
  rw [countTransition, activityOf_touch h]
  by_cases hj : j = id <;> simp [hj]

/-! ## Sums -/

/-- Adding the entries of one table to another keeps the order. -/
theorem ascending_foldl (h : Ascending entries) :
    Ascending (more.foldl (fun acc (id, a) => touchIn id (fun own => own.add a) acc) entries) := by
  induction more generalizing entries with
  | nil => exact h
  | cons entry rest ih => exact ih (ascending_touchIn h)

/-- The parts of a constraint by two tables are added. -/
theorem partIn_foldl (h : Ascending entries) (hMore : Ascending more) :
    partIn (more.foldl (fun acc (id, a) => touchIn id (fun own => own.add a) acc) entries) j
      = (partIn entries j).add (partIn more j) := by
  induction more generalizing entries with
  | nil => rw [List.foldl_nil, partIn_nil, Activity.add_none]
  | cons entry rest ih =>
      obtain ⟨k, a⟩ := entry
      obtain ⟨hHead, hRest⟩ := List.pairwise_cons.mp hMore
      rw [List.foldl_cons, ih (ascending_touchIn h) hRest, partIn_touchIn h, partIn_cons]
      by_cases hj : j = k
      · subst hj
        rw [if_pos rfl, if_pos rfl, partIn_of_lt hHead, Activity.add_none]
      · rw [if_neg hj, if_neg hj]

theorem Ordered.add (h : s.Ordered) (t : Stats) : (s.add t).Ordered := ascending_foldl h

theorem activityOf_add (h : s.Ordered) (k : t.Ordered) :
    (s.add t).activityOf j = (s.activityOf j).add (t.activityOf j) :=
  partIn_foldl h k

/-- Every counter is the sum of that counter over some parts. -/
structure Totals (total : Stats) (parts : List Stats) : Prop where
  attempts : total.attempts = (parts.map Stats.attempts).sum
  flips : total.flips = (parts.map Stats.flips).sum
  randomPicks : total.randomPicks = (parts.map Stats.randomPicks).sum
  picks : ∀ id, (total.activityOf id).picks = (parts.map fun s => (s.activityOf id).picks).sum
  transitions : ∀ id,
    (total.activityOf id).transitions = (parts.map fun s => (s.activityOf id).transitions).sum

theorem totals_none : Totals {} [] := ⟨rfl, rfl, rfl, fun _ => rfl, fun _ => rfl⟩

theorem totals_single (s : Stats) : Totals s [s] :=
  { attempts := by simp, flips := by simp, randomPicks := by simp, picks := by simp
    transitions := by simp }

/-- What two sums add up to is the sum over the parts of both. -/
theorem Totals.add {parts others : List Stats} (h : Totals s parts) (k : Totals t others)
    (hs : s.Ordered) (ht : t.Ordered) : Totals (s.add t) (parts ++ others) := by
  have hActivity : ∀ id, (s.add t).activityOf id = (s.activityOf id).add (t.activityOf id) :=
    fun id => activityOf_add hs ht
  refine
    { attempts := ?_, flips := ?_, randomPicks := ?_, picks := fun id => ?_
      transitions := fun id => ?_ }
  · rw [List.map_append, List.sum_append, ← h.attempts, ← k.attempts]
    rfl
  · rw [List.map_append, List.sum_append, ← h.flips, ← k.flips]
    rfl
  · rw [List.map_append, List.sum_append, ← h.randomPicks, ← k.randomPicks]
    rfl
  · rw [List.map_append, List.sum_append, ← h.picks, ← k.picks, hActivity]
    rfl
  · rw [List.map_append, List.sum_append, ← h.transitions, ← k.transitions, hActivity]
    rfl

end Stats
end LocalRepair
