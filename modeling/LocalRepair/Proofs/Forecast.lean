import LocalRepair.Proofs.Clause
import LocalRepair.Proofs.Connectivity.Answers

/-!
# Estimates have the right sign

An estimate of what a flip does to a constraint is a number, and not always the
number that comes out. What it never gets wrong is the direction: an estimate of
zero means that nothing changes, a negative one that the constraint is not lost,
and a positive one that it is not won. `Forecasts` says this for the state of a
constraint before and after.

For a clause and for an appearing edge under a demand for pieces the estimate is
the exact difference. In all other cases one half is monotonicity, since more
edges never disconnect anything, and the other half is that an estimate of zero
leaves no room for an effect.

## Main results

* `Clause.risk_forecasts`.
* `Connectivity.adding_forecasts`, `Connectivity.removing_forecasts`.
-/

namespace LocalRepair

/-- The sign of an estimate fits what happened to a constraint. -/
structure Forecasts (risk : Int) (before after : Prop) : Prop where
  still : risk = 0 → (before ↔ after)
  helps : risk < 0 → before → after
  hurts : 0 < risk → after → before

/-- What a constraint adds to the number of violated ones. -/
def IsPenalty (penalty : Int) (holds : Prop) : Prop :=
  (holds ∧ penalty = 0) ∨ (¬ holds ∧ penalty = 1)

/-- A constraint adds to the number of violated ones either nothing or one, as it
holds or not. -/
theorem IsPenalty.eq {p q : Int} {holds : Prop} (h : IsPenalty p holds) (k : IsPenalty q holds) :
    p = q := by
  rcases h with ⟨hHolds, rfl⟩ | ⟨hNot, rfl⟩
  · exact (k.resolve_right fun hq => hq.1 hHolds).2.symm
  · exact (k.resolve_left fun hq => hNot hq.1).2.symm

/-- The difference of the penalties is an estimate that fits. -/
theorem Forecasts.of_penalties {before after : Prop} {p q : Int} (hBefore : IsPenalty p before)
    (hAfter : IsPenalty q after) : Forecasts (q - p) before after := by
  rcases hBefore with ⟨hb, rfl⟩ | ⟨hb, rfl⟩
  · rcases hAfter with ⟨ha, rfl⟩ | ⟨ha, rfl⟩
    · exact ⟨fun _ => iff_of_true hb ha, fun _ _ => ha, fun _ _ => hb⟩
    · exact ⟨fun h => by omega, fun h => by omega, fun _ _ => hb⟩
  · rcases hAfter with ⟨ha, rfl⟩ | ⟨ha, rfl⟩
    · exact ⟨fun h => by omega, fun _ _ => ha, fun h => by omega⟩
    · exact ⟨fun _ => iff_of_false hb ha, fun h => by omega, fun h => by omega⟩

/-- A change that cannot lose the constraint is fitted by an estimate that is
never positive, and zero only if nothing is won. -/
theorem Forecasts.of_gain {before after : Prop} {risk : Int} (hMono : before → after)
    (hSign : risk ≤ 0) (hStill : risk = 0 → after → before) : Forecasts risk before after :=
  { still := fun h => ⟨hMono, hStill h⟩
    helps := fun _ => hMono
    hurts := fun h => by omega }

/-- A change that cannot win the constraint is fitted by an estimate that is
never negative, and zero only if nothing is lost. -/
theorem Forecasts.of_loss {before after : Prop} {risk : Int} (hMono : after → before)
    (hSign : 0 ≤ risk) (hStill : risk = 0 → before → after) : Forecasts risk before after :=
  { still := fun h => ⟨hStill h, hMono⟩
    helps := fun h => by omega
    hurts := fun _ => hMono }

namespace Clause

variable {c : Clause} {a a' : Assignment} {v : Nat}

theorem isPenalty_penalty (c : Clause) (a : Assignment) :
    IsPenalty (c.penalty (c.truePositions a)) (c.Holds a) := by
  rw [← accepts_iff, penalty]
  split
  · rename_i h
    exact Or.inl ⟨h, rfl⟩
  · rename_i h
    exact Or.inr ⟨h, rfl⟩

/-- The estimate for a short clause fits, and is missing only if the clause does not
mention the proposition. -/
theorem risk_forecasts (hShort : c.Short) (hFlip : a.Flipped v a') {risk : Int}
    (h : c.risk (c.truePositions a) v (a'.isTrue v) = some risk) :
    Forecasts risk (c.Holds a) (c.Holds a') := by
  rw [risk_eq hShort hFlip] at h
  split at h
  · rw [← Option.some.inj h]
    exact .of_penalties (isPenalty_penalty c a) (isPenalty_penalty c a')
  · exact absurd h (by simp)

end Clause

namespace Connectivity

variable {g : Graph} {f f' : Forest g} {present : g.EdgeId → Prop} {e : g.EdgeId}
  {demand : Connectivity g.Vertex}

theorem holds_plus (hNotPieces : ∀ n, demand ≠ pieces n) (h : demand.Holds g present) :
    demand.Holds g (Graph.plus present e) :=
  h.mono (fun _ => Or.inl) hNotPieces

theorem holds_of_minus (hNotPieces : ∀ n, demand ≠ pieces n)
    (h : demand.Holds g (Graph.minus present e)) : demand.Holds g present :=
  h.mono (fun _ hd => hd.1) hNotPieces

theorem isPenalty_pieces (h : f.Spans present) (wanted : Nat) :
    IsPenalty (piecesPenalty wanted f.components) ((pieces wanted).Holds g present) := by
  rw [holds_pieces_iff h, piecesPenalty]
  split
  · rename_i hCount
    exact Or.inl ⟨hCount, rfl⟩
  · rename_i hCount
    exact Or.inr ⟨hCount, rfl⟩

/-! ## An edge appears -/

/-- An edge within one class changes nothing. -/
theorem holds_plus_iff_of_same (h : f.Spans present)
    (hSame : same f (g.edge e).a (g.edge e).b = true) :
    demand.Holds g (Graph.plus present e) ↔ demand.Holds g present := by
  rw [same, beq_iff_eq, h.root_eq_iff] at hSame
  exact Holds.congr fun u v => Graph.Joined.plus_iff_of_joined hSame

/-- An edge between two classes leaves one component fewer. -/
theorem components_plus (h : f.Spans present) (h' : f'.Spans (Graph.plus present e))
    (hApart : same f (g.edge e).a (g.edge e).b ≠ true) : f'.components = f.components - 1 := by
  rw [same, Ne, beq_iff_eq] at hApart
  have hLinked := (Forest.union_of_apart (e := e) h.ranked hApart).2
  rw [h'.components, (h.union e).length_of_representatives h'.representatives]
  exact hLinked.components

/-- An edge within one class leaves as many components. -/
theorem components_plus_of_same (h : f.Spans present) (h' : f'.Spans (Graph.plus present e))
    (hSame : same f (g.edge e).a (g.edge e).b = true) : f'.components = f.components := by
  rw [← holds_pieces_iff h', holds_plus_iff_of_same h hSame, holds_pieces_iff h]

/-- Where there is a vertex there is a component. -/
theorem components_pos (h : f.Spans present) (u : g.Vertex) : 0 < f.components := by
  rw [h.components]
  apply List.length_pos_of_mem (a := f.root u)
  rw [Forest.mem_roots, h.ranked.root_root]

theorem same_iff (h : f.Spans present) (u v : g.Vertex) :
    same f u v = true ↔ g.Joined present u v := by
  rw [same, beq_iff_eq, h.root_eq_iff]

/-- A pair that is joined with the help of an edge was touched by it, or joined
before. -/
theorem touches_of_holds_plus (h : f.Spans present) {source target : g.Vertex}
    (hAfter : g.Joined (Graph.plus present e) source target)
    (hBefore : same f source target ≠ true) : touches f e source target = true := by
  rw [Ne, same_iff h] at hBefore
  simp only [touches, List.any_cons, List.any_nil, Bool.or_false, Bool.or_eq_true, beq_iff_eq,
    h.root_eq_iff]
  rcases Graph.Joined.plus_iff.mp hAfter with hOld | ⟨hs, _⟩ | ⟨hs, _⟩
  · exact absurd hOld hBefore
  · exact Or.inl (Or.inl hs.symm)
  · exact Or.inr (Or.inl hs.symm)

/-- Two sides that meet with the help of an edge were extended by it, or met
before. -/
theorem grows_of_holds_plus (h : f.Spans present) {left right : List g.Vertex}
    (hAfter : (sides left right).Holds g (Graph.plus present e))
    (hBefore : meet f left right ≠ true) : grows f e left right = true := by
  rw [Ne, meet_iff h] at hBefore
  obtain ⟨u, hu, v, hv, hJoined⟩ := hAfter
  simp only [grows, List.any_cons, List.any_nil, Bool.or_false, Bool.or_eq_true,
    List.contains_iff_mem, List.mem_map, h.root_eq_iff]
  rcases Graph.Joined.plus_iff.mp hJoined with hOld | ⟨hEnd, _⟩ | ⟨hEnd, _⟩
  · exact absurd ⟨u, hu, v, hv, hOld⟩ hBefore
  · exact Or.inl (Or.inl ⟨u, hu, hEnd⟩)
  · exact Or.inr (Or.inl ⟨u, hu, hEnd⟩)

/-- An edge that appears is never held against a demand for connection. -/
theorem adding_nonpos (f : Forest g) (e : g.EdgeId) (hNotPieces : ∀ n, demand ≠ pieces n) :
    adding f e demand ≤ 0 := by
  cases demand with
  | pieces wanted => exact absurd rfl (hNotPieces wanted)
  | whole =>
      simp only [adding]
      split <;> omega
  | pair source target =>
      simp only [adding]
      repeat' split
      all_goals omega
  | sides left right =>
      simp only [adding]
      repeat' split
      all_goals omega

/-- Where an edge is estimated not to help, it does not. -/
theorem holds_of_adding_eq_zero (h : f.Spans present) (hNotPieces : ∀ n, demand ≠ pieces n)
    (hZero : adding f e demand = 0) (hAfter : demand.Holds g (Graph.plus present e)) :
    demand.Holds g present := by
  cases demand with
  | pieces wanted => exact absurd rfl (hNotPieces wanted)
  | whole =>
      simp only [adding] at hZero
      split at hZero
      · rename_i hSame
        exact (holds_plus_iff_of_same h hSame).mp hAfter
      · omega
  | pair source target =>
      simp only [adding] at hZero
      split at hZero
      · rename_i hMet
        exact (same_iff h source target).mp hMet
      · rename_i hApart
        split at hZero
        · rename_i hSame
          exact (holds_plus_iff_of_same h hSame).mp hAfter
        · rw [touches_of_holds_plus h hAfter hApart] at hZero
          split at hZero <;> simp at hZero
  | sides left right =>
      simp only [adding] at hZero
      split at hZero
      · rename_i hMet
        exact (meet_iff h left right).mp hMet
      · rename_i hApart
        split at hZero
        · rename_i hSame
          exact (holds_plus_iff_of_same h hSame).mp hAfter
        · rw [grows_of_holds_plus h hAfter hApart] at hZero
          split at hZero <;> simp at hZero

/-- The estimate of an appearing edge for a number of pieces is the difference of
the penalties. -/
theorem adding_pieces_eq (h : f.Spans present) {wanted : Nat} {p q : Int}
    (hBefore : IsPenalty p ((pieces wanted).Holds g present))
    (hAfter : IsPenalty q ((pieces wanted).Holds g (Graph.plus present e))) :
    adding f e (pieces wanted) = q - p := by
  rw [hBefore.eq (isPenalty_pieces h wanted), hAfter.eq (isPenalty_pieces (h.union e) wanted)]
  simp only [adding]
  split
  · rename_i hSame
    rw [components_plus_of_same h (h.union e) hSame, Int.sub_self]
  · rename_i hApart
    rw [components_plus h (h.union e) hApart]

theorem adding_pieces_forecasts (h : f.Spans present) (e : g.EdgeId) (wanted : Nat) :
    Forecasts (adding f e (pieces wanted)) ((pieces wanted).Holds g present)
      ((pieces wanted).Holds g (Graph.plus present e)) := by
  have hBefore := isPenalty_pieces h wanted
  have hAfter := isPenalty_pieces (h.union e) wanted
  rw [adding_pieces_eq h hBefore hAfter]
  exact .of_penalties hBefore hAfter

/-- The estimate for an edge that appears fits. -/
theorem adding_forecasts (h : f.Spans present) (e : g.EdgeId) (demand : Connectivity g.Vertex) :
    Forecasts (adding f e demand) (demand.Holds g present)
      (demand.Holds g (Graph.plus present e)) := by
  by_cases hPieces : ∃ wanted, demand = pieces wanted
  · obtain ⟨wanted, rfl⟩ := hPieces
    exact adding_pieces_forecasts h e wanted
  · have hNotPieces : ∀ n, demand ≠ pieces n := fun n hEq => hPieces ⟨n, hEq⟩
    exact .of_gain (holds_plus hNotPieces) (adding_nonpos f e hNotPieces)
      (holds_of_adding_eq_zero h hNotPieces)

/-! ## An edge disappears -/

/-- Some forest is right about any set of present edges. -/
theorem exists_spans (g : Graph) (present : g.EdgeId → Prop) : ∃ f : Forest g, f.Spans present := by
  classical
  refine ⟨(Forest.singletons g).buildFrom fun e => decide (present e), ?_⟩
  exact (Forest.buildFrom_spans _ _).congr fun e => decide_eq_true_iff

/-- An edge that disappears leaves as many components as before or one more. -/
theorem components_minus (h : f.Spans present) (h' : f'.Spans (Graph.minus present e))
    (hPresent : present e) :
    f'.components = f.components ∨ f'.components = f.components + 1 := by
  have hBack : f.Spans (Graph.plus (Graph.minus present e) e) :=
    { h with
      root_eq_iff := fun u v =>
        (h.root_eq_iff u v).trans (Graph.Joined.plus_minus hPresent).symm
      present_of_contains := fun d hd => by
        by_cases hd' : d = e
        · exact Or.inr hd'
        · exact Or.inl ⟨h.present_of_contains d hd, hd'⟩ }
  by_cases hSame : same f' (g.edge e).a (g.edge e).b = true
  · exact Or.inl (components_plus_of_same h' hBack hSame).symm
  · right
    have hFewer := components_plus h' hBack hSame
    have hPos := components_pos h' (g.edge e).a
    omega

/-- An edge outside the forest disappears without an effect. -/
theorem holds_minus_iff_of_outside (h : f.Spans present) (hOutside : f.contains e ≠ true) :
    demand.Holds g (Graph.minus present e) ↔ demand.Holds g present := by
  have hMinus := h.minus (Bool.eq_false_iff.mpr hOutside)
  exact Holds.congr fun u v => by rw [← hMinus.root_eq_iff, h.root_eq_iff]

/-- An edge that disappears is never credited to a demand for connection. -/
theorem removing_nonneg (f : Forest g) (e : g.EdgeId) (onPath : Bool)
    (hNotPieces : ∀ n, demand ≠ pieces n) : 0 ≤ removing f e onPath demand := by
  cases demand with
  | pieces wanted => exact absurd rfl (hNotPieces wanted)
  | whole =>
      simp only [removing]
      split <;> omega
  | pair source target =>
      simp only [removing]
      repeat' split
      all_goals omega
  | sides left right =>
      simp only [removing]
      repeat' split
      all_goals omega

/-- Where the loss of an edge is estimated not to hurt, it does not. -/
theorem holds_of_removing_eq_zero (h : f.Spans present) {onPath : Bool}
    (hNotPieces : ∀ n, demand ≠ pieces n) (hZero : removing f e onPath demand = 0)
    (hBefore : demand.Holds g present) : demand.Holds g (Graph.minus present e) := by
  have hOutside : f.contains e ≠ true → demand.Holds g (Graph.minus present e) :=
    fun hNot => (holds_minus_iff_of_outside h hNot).mpr hBefore
  cases demand with
  | pieces wanted => exact absurd rfl (hNotPieces wanted)
  | whole =>
      simp only [removing] at hZero
      split at hZero
      · omega
      · rename_i hNot
        exact hOutside hNot
  | pair source target =>
      have hMet : same f source target = true := (same_iff h source target).mpr hBefore
      simp only [removing] at hZero
      rw [if_pos hMet] at hZero
      split at hZero
      · omega
      · split at hZero
        · omega
        · rename_i hNot
          exact hOutside hNot
  | sides left right =>
      have hMet : meet f left right = true := (meet_iff h left right).mpr hBefore
      simp only [removing] at hZero
      rw [if_pos hMet] at hZero
      split at hZero
      · omega
      · rename_i hNot
        exact hOutside hNot

/-- The estimate of a disappearing edge for a number of pieces counts one piece
more, and there is one more or none. -/
theorem removing_pieces_forecasts (h : f.Spans present) (hPresent : present e) (onPath : Bool)
    (wanted : Nat) :
    Forecasts (removing f e onPath (pieces wanted)) ((pieces wanted).Holds g present)
      ((pieces wanted).Holds g (Graph.minus present e)) := by
  simp only [removing]
  split
  · obtain ⟨f', h'⟩ := exists_spans g (Graph.minus present e)
    rw [holds_pieces_iff h, holds_pieces_iff h']
    have hComponents := components_minus h h' hPresent
    unfold piecesPenalty
    constructor <;> split <;> split <;> omega
  · rename_i hNot
    have hIff : (pieces wanted).Holds g (Graph.minus present e)
        ↔ (pieces wanted).Holds g present := holds_minus_iff_of_outside h hNot
    exact ⟨fun _ => hIff.symm, fun _ => hIff.mpr, fun _ => hIff.mp⟩

/-- The estimate for an edge that disappears fits. -/
theorem removing_forecasts (h : f.Spans present) (hPresent : present e) (onPath : Bool)
    (demand : Connectivity g.Vertex) :
    Forecasts (removing f e onPath demand) (demand.Holds g present)
      (demand.Holds g (Graph.minus present e)) := by
  by_cases hPieces : ∃ wanted, demand = pieces wanted
  · obtain ⟨wanted, rfl⟩ := hPieces
    exact removing_pieces_forecasts h hPresent onPath wanted
  · have hNotPieces : ∀ n, demand ≠ pieces n := fun n hEq => hPieces ⟨n, hEq⟩
    exact .of_loss (holds_of_minus hNotPieces) (removing_nonneg f e onPath hNotPieces)
      (holds_of_removing_eq_zero h hNotPieces)

end Connectivity
end LocalRepair
