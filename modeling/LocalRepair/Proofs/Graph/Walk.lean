import LocalRepair.Proofs.Graph.Joining

/-!
# Walks and cycles

A walk follows present edges one after the other and remembers which. With that
a cycle can be said: a walk that comes back to where it started, uses at least
one edge and none twice. Self-loops are cycles of one edge, and two edges
between the same vertices make a cycle of two.

A set of edges has no cycle when every one of its edges is a *bridge*: without
it, its ends are not joined. This is the form in which the edges of a forest
keep the property, because it survives the one way in which a forest grows.

## Main results

* `Walk.joined_along`: a walk joins its ends.
* `Walk.exists_last`: a walk comes to its end by a last edge.
* `joined_iff_exists_walk`: joined means that a walk leads there.
* `AllBridges.plus`: an edge between two pieces leaves every edge a bridge.
* `AllBridges.acyclic`: edges that are all bridges contain no cycle.
-/

namespace LocalRepair.Graph

variable {g : Graph} {present : g.EdgeId → Prop} {u v w : g.Vertex} {e : g.EdgeId}
  {es : List g.EdgeId}

/-- The edges of the list are present and lead, in this order, from the first
vertex to the second. -/
inductive Walk (g : Graph) (present : g.EdgeId → Prop) :
    g.Vertex → List g.EdgeId → g.Vertex → Prop where
  | stay (u : g.Vertex) : Walk g present u [] u
  | step {u v w : g.Vertex} {e : g.EdgeId} {es : List g.EdgeId} (isPresent : present e)
      (leads : g.Leads e u v) (further : Walk g present v es w) : Walk g present u (e :: es) w

/-- No walk that uses an edge, and none twice, returns to its start. -/
def Acyclic (g : Graph) (present : g.EdgeId → Prop) : Prop :=
  ∀ u es, Walk g present u es u → es.Nodup → es = []

/-- Without any one of the present edges its ends are not joined. -/
def AllBridges (g : Graph) (present : g.EdgeId → Prop) : Prop :=
  ∀ e, present e → ¬ Joined g (minus present e) (g.edge e).a (g.edge e).b

namespace Walk

/-- A walk joins its ends, by the edges it uses. -/
theorem joined_along (h : Walk g present u es v) :
    Joined g (fun d => present d ∧ d ∈ es) u v := by
  induction h with
  | stay u => exact Joined.here
  | step hPresent hLeads _ ih =>
      refine (Joined.single ⟨hPresent, by simp⟩ hLeads).trans (ih.mono fun d hd => ?_)
      exact ⟨hd.1, List.mem_cons_of_mem _ hd.2⟩

/-- A walk is prolonged by one edge at its end. -/
theorem snoc (h : Walk g present u es v) (hPresent : present e) (hLeads : g.Leads e v w) :
    Walk g present u (es ++ [e]) w := by
  induction h with
  | stay u => exact .step hPresent hLeads (.stay w)
  | step isPresent leads _ ih => exact .step isPresent leads (ih hLeads)

/-- A walk along at least one edge comes to its end by a last edge. -/
theorem exists_last (h : Walk g present u es w) (hSome : es ≠ []) :
    ∃ ds e v, Walk g present u ds v ∧ ds.length + 1 = es.length ∧ present e ∧ g.Leads e v w := by
  induction h with
  | stay u => exact absurd rfl hSome
  | @step u v w e es isPresent leads further ih =>
      cases further with
      | stay v => exact ⟨[], e, u, .stay u, rfl, isPresent, leads⟩
      | step isPresent' leads' further' =>
          obtain ⟨ds, d, y, hWalk, hLength, hPresent, hLeads⟩ := ih (by simp)
          exact ⟨e :: ds, d, y, .step isPresent leads hWalk, by simp [hLength], hPresent, hLeads⟩

end Walk

/-- Two vertices are joined when a walk leads from the one to the other. -/
theorem joined_iff_exists_walk : Joined g present u w ↔ ∃ es, Walk g present u es w := by
  constructor
  · intro h
    induction h with
    | here => exact ⟨[], .stay u⟩
    | along _ hPresent hLeads ih =>
        obtain ⟨es, hWalk⟩ := ih
        exact ⟨es ++ [_], hWalk.snoc hPresent hLeads⟩
  · rintro ⟨es, hWalk⟩
    exact hWalk.joined_along.mono fun e he => he.1

namespace AllBridges

/-- Where there is no edge, every edge is a bridge. -/
theorem of_none (h : ∀ e, ¬ present e) : AllBridges g present :=
  fun e hPresent => absurd hPresent (h e)

/-- An edge between two pieces leaves every edge a bridge, and is one itself. -/
theorem plus (h : AllBridges g present)
    (hApart : ¬ Joined g present (g.edge e).a (g.edge e).b) :
    AllBridges g (plus present e) := by
  intro d hd hJoined
  by_cases hde : d = e
  · subst hde
    refine hApart (hJoined.mono fun c hc => ?_)
    exact hc.1.resolve_right hc.2
  · have hPresent : present d := hd.resolve_right hde
    have hSwap : Joined g (Graph.plus (minus present d) e) (g.edge d).a (g.edge d).b := by
      apply hJoined.mono
      intro c hc
      exact hc.1.imp (fun hOld => ⟨hOld, hc.2⟩) id
    have hOwn : Joined g present (g.edge d).a (g.edge d).b :=
      Joined.single hPresent (leads_ends g d)
    -- If the new edge bypassed `d`, then `d` together with the rest of the
    -- bypass would have joined the ends of the new edge before.
    rcases Joined.plus_iff.mp hSwap with hOld | ⟨ha, hb⟩ | ⟨hb, ha⟩
    · exact h d hPresent hOld
    · exact hApart ((ha.of_minus.symm.trans hOwn).trans hb.of_minus.symm)
    · exact hApart ((ha.of_minus.trans hOwn.symm).trans hb.of_minus)

/-- Edges that are all bridges contain no cycle: the first edge of a cycle is
bypassed by the others. -/
theorem acyclic (h : AllBridges g present) : Acyclic g present := by
  intro u es hWalk hNodup
  cases hWalk with
  | stay => rfl
  | @step _ v _ e es hPresent hLeads hRest =>
      have hOther : Joined g (minus present e) v u := by
        refine hRest.joined_along.mono fun d hd => ⟨hd.1, ?_⟩
        rintro rfl
        exact (List.nodup_cons.mp hNodup).1 hd.2
      rcases hLeads with ⟨rfl, rfl⟩ | ⟨rfl, rfl⟩
      · exact absurd hOther.symm (h e hPresent)
      · exact absurd hOther (h e hPresent)

end AllBridges
end LocalRepair.Graph
