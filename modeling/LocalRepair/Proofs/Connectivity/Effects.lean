import LocalRepair.Proofs.Forecast

/-!
# What one edge does

The estimate for an edge that appears says more than its sign. Under a demand for pieces it
is the change of the penalty, and under the demand for a connected graph it is the change of
the number of components. For a pair and for two sides it is two off zero exactly if the
edge closes the gap between them, and then the demand is met with the edge and was not met
without it.

For a demand for pieces the penalty is all that is estimated, not how far the number of
pieces is from the wanted one. So a step that comes nearer is credited only if it arrives.

## Main definitions

* `Graph.FallsInto`: the number of pieces that an assignment leaves.
* `Connectivity.CompletedBy`: an edge is the one that was missing.
* `Connectivity.Nearer`: a number of pieces is nearer to the wanted one.

## Main results

* `Connectivity.adding_whole_eq`: the number of components that are lost.
* `Connectivity.completedBy_pair_iff`, `Connectivity.completedBy_sides_iff`: the estimates
  of decisive edges.
* `Connectivity.adding_pieces_neg_iff`, `Connectivity.removing_pieces_neg_iff`: steps towards
  a number of pieces are credited only if they arrive.
-/

namespace LocalRepair

/-- The present edges of an assignment leave a graph in so many pieces. -/
def Graph.FallsInto (g : Graph) (a : Assignment) (count : Nat) : Prop :=
  (Connectivity.pieces count).Holds g fun e => g.presentIn a e = true

/-- The pieces are counted by building a forest. -/
theorem Graph.fallsInto_iff {g : Graph} {a : Assignment} {count : Nat} :
    g.FallsInto a count
      ↔ ((Forest.singletons g).buildFrom (g.presentIn a)).components = count :=
  Connectivity.holds_pieces_iff (Forest.buildFrom_spans _ _) count

instance (g : Graph) (a : Assignment) (count : Nat) : Decidable (g.FallsInto a count) :=
  decidable_of_iff _ Graph.fallsInto_iff.symm

namespace Connectivity

variable {g : Graph} {f f' : Forest g} {present : g.EdgeId → Prop} {e : g.EdgeId}
  {source target : g.Vertex} {left right : List g.Vertex}

/-- With the edge the demand is met, and without it it is not. -/
def CompletedBy (present : g.EdgeId → Prop) (e : g.EdgeId) (demand : Connectivity g.Vertex) :
    Prop :=
  ¬ demand.Holds g present ∧ demand.Holds g (Graph.plus present e)

/-- An edge within one class completes nothing. -/
theorem CompletedBy.apart {demand : Connectivity g.Vertex} (h : f.Spans present)
    (hCompleted : demand.CompletedBy present e) : same f (g.edge e).a (g.edge e).b ≠ true :=
  fun hSame => hCompleted.1 ((holds_plus_iff_of_same h hSame).mp hCompleted.2)

/-! ## The whole graph -/

/-- The estimate for the whole graph counts the components that are lost. -/
theorem adding_whole_eq (h : f.Spans present) (h' : f'.Spans (Graph.plus present e)) :
    -adding f e whole = (f.components : Int) - f'.components := by
  simp only [adding]
  split
  · rename_i hSame
    rw [components_plus_of_same h h' hSame]
    omega
  · rename_i hApart
    have hFewer := components_plus h h' hApart
    have hPos := components_pos h (g.edge e).a
    omega

/-- A graph is made whole by an edge that joins its last two components. -/
theorem completedBy_whole_iff (h : f.Spans present) :
    whole.CompletedBy present e ↔ adding f e whole = -1 ∧ f.components = 2 := by
  have h' := h.union e
  have hExact := adding_whole_eq h h'
  have hPos := components_pos h' (g.edge e).a
  rw [CompletedBy, holds_whole_iff h, holds_whole_iff h']
  constructor
  · rintro ⟨hBefore, hAfter⟩
    have hEnds : same f (g.edge e).a (g.edge e).b ≠ true := fun hSame => by
      have hFewer := components_plus_of_same h h' hSame
      omega
    have hEstimate : adding f e whole = -1 := if_neg hEnds
    omega
  · rintro ⟨hEstimate, hTwo⟩
    omega

/-! ## Pairs and sides -/

/-- An edge bridges two classes exactly if it joins them. -/
theorem bridges_iff (h : f.Spans present) (hApart : ¬ g.Joined present source target) :
    f.bridges source target e = true ↔ g.Joined (Graph.plus present e) source target := by
  have hRoots : f.root source ≠ f.root target := mt (h.root_eq_iff _ _).mp hApart
  simp only [Forest.bridges, if_neg hRoots, Bool.or_eq_true, Bool.and_eq_true, beq_iff_eq,
    h.root_eq_iff]
  rw [Graph.Joined.plus_iff, or_iff_right hApart]
  constructor
  · rintro (⟨hs, ht⟩ | ⟨ht, hs⟩)
    · exact Or.inl ⟨hs.symm, ht⟩
    · exact Or.inr ⟨hs.symm, ht⟩
  · rintro (⟨hs, ht⟩ | ⟨hs, ht⟩)
    · exact Or.inl ⟨hs.symm, ht⟩
    · exact Or.inr ⟨ht, hs.symm⟩

/-- An edge links two sides exactly if it joins them. -/
theorem links_iff (h : f.Spans present) (hApart : ¬ (sides left right).Holds g present) :
    links f e left right = true ↔ (sides left right).Holds g (Graph.plus present e) := by
  have hSide : ∀ (side : List g.Vertex) (w : g.Vertex),
      (side.map f.root).contains (f.root w) = true ↔ ∃ u ∈ side, g.Joined present u w := by
    intro side w
    simp only [List.contains_iff_mem, List.mem_map, h.root_eq_iff]
  simp only [links, Bool.or_eq_true, Bool.and_eq_true, hSide]
  constructor
  · rintro (⟨⟨u, hu, hs⟩, ⟨v, hv, ht⟩⟩ | ⟨⟨u, hu, hs⟩, ⟨v, hv, ht⟩⟩)
    · exact ⟨u, hu, v, hv, Graph.Joined.plus_iff.mpr (Or.inr (Or.inl ⟨hs, ht.symm⟩))⟩
    · exact ⟨u, hu, v, hv, Graph.Joined.plus_iff.mpr (Or.inr (Or.inr ⟨hs, ht.symm⟩))⟩
  · rintro ⟨u, hu, v, hv, hJoined⟩
    rcases Graph.Joined.plus_iff.mp hJoined with hOld | ⟨hs, ht⟩ | ⟨hs, ht⟩
    · exact absurd ⟨u, hu, v, hv, hOld⟩ hApart
    · exact Or.inl ⟨⟨u, hu, hs⟩, ⟨v, hv, ht.symm⟩⟩
    · exact Or.inr ⟨⟨u, hu, hs⟩, ⟨v, hv, ht.symm⟩⟩

/-- The estimates for pairs and for sides ask the same questions in the same order, and only
an edge that closes an open gap is two off zero. -/
theorem closing_iff (met joined closes reaches : Bool) :
    (if met then (0 : Int) else if joined then 0 else if closes then -2
      else if reaches then -1 else 0) = -2 ↔ met ≠ true ∧ joined ≠ true ∧ closes = true := by
  cases met <;> cases joined <;> cases closes <;> cases reaches <;> decide

/-- A pair is joined by an edge that is estimated to be decisive, and by no other. -/
theorem completedBy_pair_iff (h : f.Spans present) :
    (pair source target).CompletedBy present e ↔ adding f e (pair source target) = -2 := by
  have hMet := same_iff h source target
  rw [adding, closing_iff]
  constructor
  · intro hCompleted
    exact ⟨mt hMet.mp hCompleted.1, hCompleted.apart h,
      (bridges_iff h hCompleted.1).mpr hCompleted.2⟩
  · rintro ⟨hApart, _, hBridges⟩
    have hBefore : ¬ g.Joined present source target := mt hMet.mpr hApart
    exact ⟨hBefore, (bridges_iff h hBefore).mp hBridges⟩

/-- Two sides meet by an edge that is estimated to be decisive, and by no other. -/
theorem completedBy_sides_iff (h : f.Spans present) :
    (sides left right).CompletedBy present e ↔ adding f e (sides left right) = -2 := by
  have hMet := meet_iff h left right
  rw [adding, closing_iff]
  constructor
  · intro hCompleted
    exact ⟨mt hMet.mp hCompleted.1, hCompleted.apart h,
      (links_iff h hCompleted.1).mpr hCompleted.2⟩
  · rintro ⟨hApart, _, hLinks⟩
    have hBefore : ¬ (sides left right).Holds g present := mt hMet.mpr hApart
    exact ⟨hBefore, (links_iff h hBefore).mp hLinks⟩

/-! ## Numbers of pieces -/

/-- The second number is nearer to the wanted one than the first. -/
def Nearer (wanted before after : Nat) : Prop :=
  ((after : Int) - wanted).natAbs < ((before : Int) - wanted).natAbs

instance (wanted before after : Nat) : Decidable (Nearer wanted before after) :=
  inferInstanceAs (Decidable (_ < _))

variable {wanted : Nat}

/-- A step that comes nearer lowers the penalty only if it arrives. -/
theorem piecesPenalty_lowered_iff {before after : Nat} (hNearer : Nearer wanted before after) :
    piecesPenalty wanted after - piecesPenalty wanted before < 0 ↔ after = wanted := by
  unfold Nearer at hNearer
  have hUnmet : before ≠ wanted := by omega
  unfold piecesPenalty
  rw [if_neg hUnmet]
  split <;> omega

/-- An edge that appears and brings the number of pieces nearer is credited only if the
number is then the wanted one. -/
theorem adding_pieces_neg_iff (h : f.Spans present) (h' : f'.Spans (Graph.plus present e))
    (hNearer : Nearer wanted f.components f'.components) :
    adding f e (pieces wanted) < 0 ↔ f'.components = wanted := by
  rw [adding_pieces_eq h (isPenalty_pieces h wanted) (isPenalty_pieces h' wanted)]
  exact piecesPenalty_lowered_iff hNearer

/-- So is an edge that disappears: where it brings the number nearer there is one piece more,
which is what is estimated. -/
theorem removing_pieces_neg_iff (h : f.Spans present) (h' : f'.Spans (Graph.minus present e))
    (hPresent : present e) (onPath : Bool)
    (hNearer : Nearer wanted f.components f'.components) :
    removing f e onPath (pieces wanted) < 0 ↔ f'.components = wanted := by
  have hMoved : f'.components ≠ f.components := by
    unfold Nearer at hNearer
    omega
  have hMore : f'.components = f.components + 1 :=
    (components_minus h h' hPresent).resolve_left hMoved
  have hInside : f.contains e = true := by
    by_contra hOutside
    have hStill : (pieces f.components).Holds g (Graph.minus present e) :=
      (holds_minus_iff_of_outside h hOutside).mpr ((holds_pieces_iff h _).mpr rfl)
    exact hMoved ((holds_pieces_iff h' _).mp hStill)
  have hEstimate : removing f e onPath (pieces wanted)
      = piecesPenalty wanted f'.components - piecesPenalty wanted f.components := by
    rw [hMore]
    exact if_pos hInside
  rw [hEstimate]
  exact piecesPenalty_lowered_iff hNearer

end Connectivity
end LocalRepair
