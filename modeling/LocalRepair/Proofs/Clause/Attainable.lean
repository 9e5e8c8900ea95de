import Mathlib.Data.Finset.Range
import LocalRepair.Proofs.Clause

/-!
# Which clauses can hold

A clause is called hopeless if its window is empty, once the upper end is lowered to the
number of literals. That compares numbers and does not look at the literals. A clause that is
called hopeless never holds. The converse is true if no proposition stands in the clause
twice, since then every number of literals can be true.

What a clause asks for is the window before it is lowered. The two accept the same numbers of
literals as long as these can be counted in 32 bits. After that the number of literals wraps
round, and a clause may be called hopeless although what it asks for can be met.

If a proposition stands in it several times the numbers that are attained have gaps. Of a
proposition and its negation exactly one is true, so there is always one and never none or
two. The numbers that are attained are found by going through the propositions and adding up,
for each of its two values, how many of its literals are true.

## Main definitions

* `Clause.tallies`: the numbers of true positions that are attained.

## Main results

* `Clause.mem_tallies_iff`: they are attained, and no others.
* `Clause.hopeless_iff_no_number_fits`: what an empty window says of assignments.
* `Clause.hopeless_and_met_of_wrapped`: beyond 32 bits it does not say that.
* `Clause.hopeful_and_never_holds`: a clause that never holds and is not called hopeless.
-/

namespace LocalRepair

variable {f f' : Nat → Bool} {ls : List Literal} {vs : List Nat} {v k : Nat}

/-! ## Counting under any values -/

/-- How many of the literals are true under given values. -/
def Literal.countUnder (f : Nat → Bool) (ls : List Literal) : Nat :=
  ls.countP fun l => l.isTrueUnder (f l.proposition)

namespace Literal

/-- Only the values of propositions that occur matter. -/
theorem countUnder_congr (h : ∀ l ∈ ls, f l.proposition = f' l.proposition) :
    countUnder f ls = countUnder f' ls := by
  refine List.countP_congr fun l hl => ?_
  rw [h l hl]

/-- The literals of one proposition are counted apart from the others. -/
theorem countUnder_eq_add (f : Nat → Bool) (ls : List Literal) (v : Nat) :
    countUnder f ls = (ls.filter (·.proposition == v)).countP (·.isTrueUnder (f v))
      + countUnder f (ls.filter (!·.proposition == v)) := by
  have hOwn : (ls.filter (·.proposition == v)).countP (fun l => l.isTrueUnder (f l.proposition))
      = (ls.filter (·.proposition == v)).countP (·.isTrueUnder (f v)) := by
    refine List.countP_congr fun l hl => ?_
    rw [beq_iff_eq.mp (List.mem_filter.mp hl).2]
  rw [← hOwn]
  exact List.countP_eq_countP_filter_add ls _ _

/-- The value of a proposition does not matter to the literals of others. -/
theorem countUnder_update (f : Nat → Bool) (ls : List Literal) (v : Nat) (value : Bool) :
    countUnder (Function.update f v value) (ls.filter (!·.proposition == v))
      = countUnder f (ls.filter (!·.proposition == v)) := by
  refine countUnder_congr fun l hl => Function.update_of_ne ?_ _ _
  simpa using (List.mem_filter.mp hl).2

/-- A literal whose proposition does not occur in the rest can be made true or false, and the
rest is counted as before. -/
theorem countUnder_cons_update {l : Literal} (hFresh : l.proposition ∉ ls.map proposition)
    (f : Nat → Bool) (value : Bool) :
    countUnder (Function.update f l.proposition (value == l.isPositive)) (l :: ls)
      = countUnder f ls + if value then 1 else 0 := by
  have hOthers : countUnder (Function.update f l.proposition (value == l.isPositive)) ls
      = countUnder f ls := by
    refine countUnder_congr fun k hk => Function.update_of_ne (fun hSame => hFresh ?_) _ _
    rw [← hSame]
    exact List.mem_map_of_mem hk
  have hOwn : l.isTrueUnder (value == l.isPositive) = value := by
    unfold isTrueUnder
    cases value <;> cases l.isPositive <;> rfl
  rw [countUnder, List.countP_cons, Function.update_self, hOwn]
  exact congrArg (· + _) hOthers

/-- If no proposition occurs twice, any number of literals can be true. -/
theorem exists_countUnder (hDistinct : (ls.map proposition).Nodup) (hk : k ≤ ls.length) :
    ∃ f, countUnder f ls = k := by
  induction ls generalizing k with
  | nil => exact ⟨fun _ => false, (Nat.le_zero.mp hk).symm⟩
  | cons l ls ih =>
      obtain ⟨hFresh, hRest⟩ := List.nodup_cons.mp hDistinct
      -- The first literal is true only if all of them have to be.
      by_cases hFewer : k ≤ ls.length
      · obtain ⟨f, hf⟩ := ih hRest hFewer
        exact ⟨_, (countUnder_cons_update hFresh f false).trans (by simpa using hf)⟩
      · obtain ⟨f, hf⟩ := ih hRest (Nat.le_refl ls.length)
        refine ⟨_, (countUnder_cons_update hFresh f true).trans ?_⟩
        rw [List.length_cons] at hk
        rw [hf, if_pos rfl]
        omega

end Literal

/-- Values for the first numbers are given by some assignment. -/
theorem Assignment.exists_agreeing (f : Nat → Bool) (n : Nat) :
    ∃ a : Assignment, a.values.size = n ∧ ∀ v < n, a.isTrue v = f v := by
  refine ⟨⟨Array.ofFn fun i : Fin n => f i⟩, by simp, fun v hv => ?_⟩
  simp [isTrue, hv]

namespace Clause

/-! ## The numbers that are attained -/

/-- The numbers of true literals over all values of the listed propositions. -/
def talliesOver : List Nat → List Literal → List Nat
  | [], _ => [0]
  | v :: vs, ls =>
    [false, true].flatMap fun value =>
      (talliesOver vs (ls.filter (!·.proposition == v))).map fun k =>
        (ls.filter (·.proposition == v)).countP (·.isTrueUnder value) + k

/-- The numbers of true positions that assignments attain. -/
def tallies (c : Clause) : List Nat := talliesOver c.propositions c.literals

theorem mem_talliesOver_iff (h : ∀ l ∈ ls, l.proposition ∈ vs) :
    k ∈ talliesOver vs ls ↔ ∃ f, Literal.countUnder f ls = k := by
  induction vs generalizing ls k with
  | nil =>
      obtain rfl : ls = [] := List.eq_nil_iff_forall_not_mem.mpr fun l hl => by simpa using h l hl
      simp [talliesOver, Literal.countUnder, eq_comm]
  | cons v vs ih =>
      have hRest : ∀ l ∈ ls.filter (!·.proposition == v), l.proposition ∈ vs := by
        intro l hl
        obtain ⟨hMem, hOther⟩ := List.mem_filter.mp hl
        exact (List.mem_cons.mp (h l hMem)).resolve_left (by simpa using hOther)
      simp only [talliesOver, List.mem_flatMap, List.mem_map, ih hRest]
      constructor
      · rintro ⟨value, _, _, ⟨f, rfl⟩, rfl⟩
        refine ⟨Function.update f v value, ?_⟩
        rw [Literal.countUnder_eq_add, Literal.countUnder_update, Function.update_self]
      · rintro ⟨f, rfl⟩
        exact ⟨f v, by simp, _, ⟨f, rfl⟩, (Literal.countUnder_eq_add f ls v).symm⟩

variable {c : Clause}

/-- Values for all propositions are given, as far as the clause goes, by an assignment. -/
theorem exists_truePositions (c : Clause) (f : Nat → Bool) :
    ∃ a : Assignment, (∀ l ∈ c.literals, l.proposition < a.values.size)
      ∧ c.truePositions a = Literal.countUnder f c.literals := by
  obtain ⟨n, hn⟩ := (c.literals.map Literal.proposition).toFinset.exists_nat_subset_range
  have hBelow : ∀ l ∈ c.literals, l.proposition < n := fun l hl =>
    Finset.mem_range.mp (hn (List.mem_toFinset.mpr (List.mem_map_of_mem hl)))
  obtain ⟨a, hSize, hAgrees⟩ := Assignment.exists_agreeing f n
  refine ⟨a, fun l hl => hSize ▸ hBelow l hl, ?_⟩
  exact Literal.countUnder_congr fun l hl => hAgrees _ (hBelow l hl)

/-- The tallies are the numbers of true positions that are attained. -/
theorem mem_tallies_iff : k ∈ c.tallies ↔ ∃ a, c.truePositions a = k := by
  rw [tallies, mem_talliesOver_iff fun l hl => mem_propositions.mpr ⟨l, hl, rfl⟩]
  constructor
  · rintro ⟨f, rfl⟩
    obtain ⟨a, _, hCount⟩ := c.exists_truePositions f
    exact ⟨a, hCount⟩
  · rintro ⟨a, rfl⟩
    exact ⟨a.isTrue, rfl⟩

/-- A clause never holds exactly if its window contains no tally. -/
theorem never_holds_iff : (∀ a, ¬ c.Holds a) ↔ ∀ k ∈ c.tallies, c.accepts k = false := by
  simp only [mem_tallies_iff, forall_exists_index, forall_apply_eq_imp_iff,
    ← Bool.not_eq_true, accepts_iff]

/-! ## Empty windows -/

variable {literals : List Literal} {min max : Nat}

/-- A window is empty exactly if it contains no number up to the number of literals. -/
theorem isHopeless_iff :
    c.isHopeless = true ↔ ∀ k ≤ c.literals.length, c.accepts k = false := by
  have hTop := c.max_le
  simp only [isHopeless, accepts, decide_eq_true_iff, Bool.and_eq_false_iff,
    decide_eq_false_iff_not]
  constructor
  · intro hEmpty k _
    omega
  · intro hNone
    have hLast := hNone _ hTop
    omega

/-- A clause that is called hopeless never holds. -/
theorem not_holds_of_isHopeless (h : c.isHopeless = true) (a : Assignment) : ¬ c.Holds a := by
  rw [← accepts_iff, Bool.not_eq_true]
  exact isHopeless_iff.mp h _ (truePositions_le c a)

/-- Lowering the upper end takes no number of literals out of the window. -/
theorem accepts_window_iff (hShort : literals.length < 2 ^ 32) (hk : k ≤ literals.length) :
    (window literals min max).accepts k = true ↔ min ≤ k ∧ k ≤ max := by
  have hLowered : k ≤ (window literals min max).max ↔ k ≤ max := by
    rw [window_max hShort]
    exact Nat.le_min.trans (and_iff_left hk)
  rw [accepts, Bool.and_eq_true, decide_eq_true_iff, decide_eq_true_iff, hLowered]
  rfl

/-- If no proposition occurs twice, all numbers up to the number of literals are attained. -/
theorem mem_tallies_of_nodup (hDistinct : (c.literals.map Literal.proposition).Nodup)
    (hk : k ≤ c.literals.length) : k ∈ c.tallies := by
  rw [tallies, mem_talliesOver_iff fun l hl => mem_propositions.mpr ⟨l, hl, rfl⟩]
  exact Literal.exists_countUnder hDistinct hk

/-- Let the literals be so few that they can be counted in 32 bits. A clause with a window
holds exactly if the number of its true positions lies in the window that was asked for. It is
called hopeless exactly if that window contains no number up to the number of literals, and
then it never holds. It never holds exactly if the window contains none of the numbers that
are attained. If no proposition occurs twice among the literals these come to the same. -/
theorem hopeless_iff_no_number_fits (literals : List Literal) (min max : Nat)
    (hShort : literals.length < 2 ^ 32) :
    (∀ a, (window literals min max).Holds a
        ↔ min ≤ (window literals min max).truePositions a
          ∧ (window literals min max).truePositions a ≤ max)
      ∧ ((window literals min max).isHopeless = true
        ↔ ∀ k ≤ literals.length, ¬ (min ≤ k ∧ k ≤ max))
      ∧ ((window literals min max).isHopeless = true →
        ∀ a, ¬ (window literals min max).Holds a)
      ∧ ((∀ a, ¬ (window literals min max).Holds a)
        ↔ ∀ k ∈ (window literals min max).tallies, ¬ (min ≤ k ∧ k ≤ max))
      ∧ ((literals.map Literal.proposition).Nodup →
        ((window literals min max).isHopeless = true
          ↔ ∀ a, ¬ (window literals min max).Holds a)) := by
  have hAsked : ∀ k ≤ literals.length, ((window literals min max).accepts k = false
      ↔ ¬ (min ≤ k ∧ k ≤ max)) := by
    intro k hk
    rw [← accepts_window_iff hShort hk, Bool.not_eq_true]
  have hAttained : ∀ k ∈ (window literals min max).tallies, k ≤ literals.length := by
    intro k hk
    obtain ⟨a, rfl⟩ := mem_tallies_iff.mp hk
    exact truePositions_le _ a
  refine ⟨fun a => ?_, ?_, not_holds_of_isHopeless, ?_, fun hDistinct => ?_⟩
  · rw [← accepts_iff, accepts_window_iff hShort (truePositions_le _ a)]
  · rw [isHopeless_iff]
    exact forall₂_congr hAsked
  · rw [never_holds_iff]
    exact forall₂_congr fun k hk => hAsked k (hAttained k hk)
  · refine ⟨not_holds_of_isHopeless, fun hNever => isHopeless_iff.mpr fun k hk => ?_⟩
    exact never_holds_iff.mp hNever k (mem_tallies_of_nodup hDistinct hk)

/-- Both of two literals of different propositions can be true, and the clause that asks for
them is not called hopeless. -/
theorem hopeless_iff_no_number_fits_pair :
    ([⟨1⟩, ⟨-2⟩] : List Literal).length < 2 ^ 32
      ∧ ([⟨1⟩, ⟨-2⟩].map Literal.proposition).Nodup
      ∧ ∃ a, 2 ≤ (window [⟨1⟩, ⟨-2⟩] 2 2).truePositions a := by
  have hShort : ([⟨1⟩, ⟨-2⟩] : List Literal).length < 2 ^ 32 := by decide
  have hDistinct : ([⟨1⟩, ⟨-2⟩].map Literal.proposition).Nodup := by decide
  obtain ⟨hHolds, _, _, _, hExact⟩ := hopeless_iff_no_number_fits [⟨1⟩, ⟨-2⟩] 2 2 hShort
  refine ⟨hShort, hDistinct, ?_⟩
  by_contra hNone
  refine absurd ((hExact hDistinct).mpr fun a ha => hNone ⟨a, ?_⟩) (by decide)
  exact ((hHolds a).mp ha).1

/-- Where the number of literals wraps round to zero, the window is empty once its upper end
is lowered, although what was asked for can be met. -/
theorem hopeless_and_met_of_wrapped {n : Nat} (h : inWord (n + 1) = 0)
    (hLiterals : literals = Literal.positive 2 :: List.replicate n (.positive 1)) :
    (window literals 1 1).isHopeless = true ∧ ∃ a, (window literals 1 1).truePositions a = 1 := by
  subst hLiterals
  constructor
  · have hTop : (window (.positive 2 :: List.replicate n (.positive 1)) 1 1).max = 0 := by
      show Nat.min 1 (inWord (Literal.positive 2 :: List.replicate n (.positive 1)).length) = 0
      rw [List.length_cons, List.length_replicate, h]
      rfl
    rw [isHopeless, hTop]
    rfl
  · refine ⟨⟨#[false, false, true]⟩, ?_⟩
    show (Literal.positive 2 :: List.replicate n (.positive 1)).countP _ = 1
    rw [List.countP_cons, List.countP_replicate]
    rfl

/-- A clause that asks for a proposition and its negation never holds, and neither does a
clause that asks for exactly one of two equal literals. Neither is called hopeless. -/
theorem hopeful_and_never_holds :
    ((window [⟨1⟩, ⟨-1⟩] 2 2).isHopeless = false ∧ ∀ a, ¬ (window [⟨1⟩, ⟨-1⟩] 2 2).Holds a)
      ∧ (window [⟨1⟩, ⟨1⟩] 1 1).isHopeless = false
      ∧ ∀ a, ¬ (window [⟨1⟩, ⟨1⟩] 1 1).Holds a :=
  ⟨⟨by decide, never_holds_iff.mpr (by decide)⟩, by decide, never_holds_iff.mpr (by decide)⟩

end Clause
end LocalRepair
