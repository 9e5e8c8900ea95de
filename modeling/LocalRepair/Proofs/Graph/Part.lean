import LocalRepair.Proofs.Graph.Making
import LocalRepair.Proofs.Graph.Route

/-!
# Parts of graphs

The part of a graph on some of its vertices numbers these anew, in the order of the list,
and it numbers the edges anew that have both ends in the list. What the two graphs share is
the propositions, so one assignment makes edges present in both.

Everything about a part follows from where its vertices come from. `IsPart` says that the
listed vertices are met once each, and that an edge stands between two vertices of the part
exactly if one with the same proposition stands between the vertices that they come from.
Then routes correspond: a route of the part is one of the graph that stays inside the list,
and a route that stays inside the list is one of the part. That the vertices are distinct
matters, since of a vertex that is listed twice only the later copy has edges.

## Main results

* `isPart_of_inducedOn`: what is made is a part.
* `exists_inducedOn`: the part can be made if all listed numbers are vertices.
* `IsPart.exists_route`, `IsPart.joined_of_route`: routes in both graphs.
* `part_keeps_inner_connections`.
-/

namespace LocalRepair.Graph

variable {g part : Graph} {vs : List Nat} {a : Assignment}

/-! ## Positions -/

/-- In a list without repeats the last position of a number is the one where it stands. -/
theorem lastPosition?_eq_some_iff (hDistinct : vs.Nodup) {x i : Nat} :
    lastPosition? x vs = some i ↔ vs[i]? = some x := by
  induction vs generalizing i with
  | nil => simp [lastPosition?]
  | cons y vs ih =>
      obtain ⟨hHead, hRest⟩ := List.nodup_cons.mp hDistinct
      rw [lastPosition?]
      cases hFound : lastPosition? x vs with
      | some j =>
          have hPlace : vs[j]? = some x := (ih hRest).mp hFound
          have hOther : y ≠ x := by
            rintro rfl
            exact hHead (List.mem_of_getElem? hPlace)
          cases i with
          | zero => simp [hOther]
          | succ i =>
              rw [List.getElem?_cons_succ, ← ih hRest, hFound]
              simp
      | none =>
          have hNowhere : ∀ j : Nat, vs[j]? ≠ some x := by
            intro j hPlace
            rw [(ih hRest).mpr hPlace] at hFound
            cases hFound
          cases i with
          | zero => simp [eq_comm]
          | succ i => simp [hNowhere]

/-! ## What a part is -/

/-- The second graph is the part of the first on the listed vertices, each of its vertices
coming from the vertex that `origin` tells. -/
structure IsPart (g : Graph) (vs : List Nat) (part : Graph) (origin : part.Vertex → g.Vertex) :
    Prop where
  injective : Function.Injective origin
  listed_iff : ∀ u : g.Vertex, u.val ∈ vs ↔ ∃ i, origin i = u
  edge_iff : ∀ i j v, (∃ d, part.edge d = ⟨i, j, v⟩) ↔ ∃ e, g.edge e = ⟨origin i, origin j, v⟩

namespace IsPart

variable {origin : part.Vertex → g.Vertex} {i j : part.Vertex} {u w : g.Vertex} {v : Nat}
  {es : List g.EdgeId} {xs : List g.Vertex}

theorem listed (h : IsPart g vs part origin) (i : part.Vertex) : (origin i).val ∈ vs :=
  (h.listed_iff _).mpr ⟨i, rfl⟩

/-- An edge of the part comes from an edge of the graph. -/
theorem exists_edge (h : IsPart g vs part origin) (d : part.EdgeId) :
    ∃ e, g.edge e
      = ⟨origin (part.edge d).a, origin (part.edge d).b, (part.edge d).proposition⟩ :=
  (h.edge_iff _ _ _).mp ⟨d, rfl⟩

/-- A present edge of the part leads along where it comes from. -/
theorem exists_leads (h : IsPart g vs part origin) {d : part.EdgeId}
    (hPresent : part.presentIn a d = true) (hLeads : part.Leads d i j) :
    ∃ e, g.presentIn a e = true ∧ g.Leads e (origin i) (origin j) := by
  obtain ⟨e, he⟩ := h.exists_edge d
  refine ⟨e, ?_, ?_⟩
  · rw [presentIn, he]
    exact hPresent
  · rw [Leads, he]
    rcases hLeads with ⟨rfl, rfl⟩ | ⟨rfl, rfl⟩
    · exact Or.inl ⟨rfl, rfl⟩
    · exact Or.inr ⟨rfl, rfl⟩

/-- A present edge between listed vertices leads along in the part. -/
theorem exists_leads_of_listed (h : IsPart g vs part origin) {e : g.EdgeId}
    (hPresent : g.presentIn a e = true) (hLeads : g.Leads e (origin i) (origin j)) :
    ∃ d, part.presentIn a d = true ∧ part.Leads d i j := by
  rcases hLeads with ⟨ha, hb⟩ | ⟨ha, hb⟩
  · obtain ⟨d, hd⟩ := (h.edge_iff i j _).mpr ⟨e, by rw [← ha, ← hb]⟩
    refine ⟨d, ?_, Or.inl (by simp [hd])⟩
    rw [presentIn, hd]
    exact hPresent
  · obtain ⟨d, hd⟩ := (h.edge_iff j i _).mpr ⟨e, by rw [← ha, ← hb]⟩
    refine ⟨d, ?_, Or.inr (by simp [hd])⟩
    rw [presentIn, hd]
    exact hPresent

/-- Where vertices of the part are joined, a route inside the list joins those that they
come from. -/
theorem exists_route (h : IsPart g vs part origin)
    (hJoined : part.Joined (fun d => part.presentIn a d = true) i j) :
    ∃ es xs, Route g (fun e => g.presentIn a e = true) (origin i) es xs (origin j)
      ∧ ∀ x ∈ xs, x.val ∈ vs := by
  induction hJoined with
  | here =>
      refine ⟨[], [origin i], .stay _, fun x hx => ?_⟩
      rw [List.mem_singleton.mp hx]
      exact h.listed i
  | along _ hPresent hLeads ih =>
      obtain ⟨es, xs, hRoute, hInside⟩ := ih
      obtain ⟨e, hPresent', hLeads'⟩ := h.exists_leads hPresent hLeads
      refine ⟨_, _, hRoute.snoc hPresent' hLeads', fun x hx => ?_⟩
      rcases List.mem_append.mp hx with hx | hx
      · exact hInside x hx
      · rw [List.mem_singleton.mp hx]
        exact h.listed _

/-- Where a route stays inside the list, the vertices of the part at its ends are joined. -/
theorem joined_of_route (h : IsPart g vs part origin)
    (hRoute : Route g (fun e => g.presentIn a e = true) u es xs w)
    (hInside : ∀ x ∈ xs, x.val ∈ vs) (hi : origin i = u) (hj : origin j = w) :
    part.Joined (fun d => part.presentIn a d = true) i j := by
  induction hRoute generalizing i with
  | stay u =>
      rw [h.injective (hi.trans hj.symm)]
      exact .here
  | @step u x w e es xs hPresent hLeads further ih =>
      -- The route comes through `x` next, which is listed like all others.
      have hListed : x.val ∈ vs := hInside x (List.mem_cons_of_mem _ further.start_mem)
      obtain ⟨k, rfl⟩ := (h.listed_iff x).mp hListed
      subst hi
      obtain ⟨d, hPresent', hLeads'⟩ := h.exists_leads_of_listed hPresent hLeads
      have hRest := ih (fun x hx => hInside x (List.mem_cons_of_mem _ hx)) rfl hj
      exact (Joined.single hPresent' hLeads').trans hRest

/-- A proposition backs an edge of the part exactly if it backs an edge of the graph between
listed vertices. -/
theorem backed_iff (h : IsPart g vs part origin) :
    (∃ d, part.edgeBackedBy? v = some d)
      ↔ ∃ e, g.edgeBackedBy? v = some e ∧ (g.edge e).a.val ∈ vs ∧ (g.edge e).b.val ∈ vs := by
  simp only [edgeBackedBy?_eq_some_iff]
  constructor
  · rintro ⟨d, rfl⟩
    obtain ⟨e, he⟩ := h.exists_edge d
    exact ⟨e, by rw [he], by rw [he]; exact h.listed _, by rw [he]; exact h.listed _⟩
  · rintro ⟨e, rfl, ha, hb⟩
    obtain ⟨i, hi⟩ := (h.listed_iff _).mp ha
    obtain ⟨j, hj⟩ := (h.listed_iff _).mp hb
    obtain ⟨d, hd⟩ := (h.edge_iff i j _).mpr ⟨e, by rw [hi, hj]⟩
    exact ⟨d, by rw [hd]⟩

/-- The edge of the part that a proposition backs joins the vertices that come from the ends
of the graph's edge. -/
theorem exists_backed (h : IsPart g vs part origin) {d : part.EdgeId}
    (hBacked : part.edgeBackedBy? v = some d) :
    ∃ e, g.edgeBackedBy? v = some e ∧ (g.edge e).a = origin (part.edge d).a
      ∧ (g.edge e).b = origin (part.edge d).b := by
  obtain ⟨e, he⟩ := h.exists_edge d
  rw [edgeBackedBy?_eq_some_iff] at hBacked
  refine ⟨e, ?_, by rw [he], by rw [he]⟩
  rw [edgeBackedBy?_eq_some_iff, he, ← hBacked]

end IsPart

/-! ## Making parts -/

/-- An edge with the positions of its ends in a list, if both are listed. -/
def placed (vs : List Nat) {n : Nat} (e : Edge n) : Option (Nat × Nat × Nat) := do
  return (← lastPosition? e.a.val vs, ← lastPosition? e.b.val vs, e.proposition)

/-- The vertices are checked first, and then the edges with both ends in the list are put
together. -/
theorem inducedOn_eq_ok_iff :
    g.inducedOn vs = .ok part ↔ (∀ v ∈ vs, v < g.vertexCount)
      ∧ ofEdges vs.length (g.edges.toList.filterMap (placed vs)) = .ok part := by
  rw [← checkVertices_eq_ok_iff]
  show (g.checkVertices vs >>= fun _ => ofEdges _ (g.edges.toList.filterMap (placed vs))) = _ ↔ _
  cases g.checkVertices vs with
  | error cause => simp [bind, Except.bind]
  | ok u => simp [bind, Except.bind]

/-- An edge is placed at the positions of its ends. -/
theorem placed_eq_some_iff (hDistinct : vs.Nodup) {n i j v : Nat} {e : Edge n} :
    placed vs e = some (i, j, v)
      ↔ vs[i]? = some e.a.val ∧ vs[j]? = some e.b.val ∧ e.proposition = v := by
  rw [← lastPosition?_eq_some_iff hDistinct, ← lastPosition?_eq_some_iff hDistinct]
  unfold placed
  cases lastPosition? e.a.val vs <;> cases lastPosition? e.b.val vs <;> simp

/-- An edge that is placed keeps its proposition, and its ends are positions. -/
theorem of_placed {n : Nat} {e : Edge n} {entry : Nat × Nat × Nat} (hDistinct : vs.Nodup)
    (h : placed vs e = some entry) :
    (entry.1 < vs.length ∧ entry.2.1 < vs.length) ∧ entry.2.2 = e.proposition := by
  obtain ⟨ha, hb, hv⟩ := (placed_eq_some_iff hDistinct).mp h
  exact ⟨⟨(List.getElem?_eq_some_iff.mp ha).1, (List.getElem?_eq_some_iff.mp hb).1⟩, hv.symm⟩

/-- The edges that are placed have propositions of the graph, in the same order. -/
theorem placed_sublist (hDistinct : vs.Nodup) {n : Nat} (row : List (Edge n)) :
    ((row.filterMap (placed vs)).map (·.2.2)).Sublist (row.map Edge.proposition) := by
  induction row with
  | nil => exact .slnil
  | cons e row ih =>
      rw [List.map_cons]
      cases hPlaced : placed vs e with
      | none =>
          rw [List.filterMap_cons_none hPlaced]
          exact ih.cons _
      | some entry =>
          rw [List.filterMap_cons_some hPlaced, List.map_cons, (of_placed hDistinct hPlaced).2]
          exact ih.cons_cons _

/-- The part can be made if the listed numbers are vertices. -/
theorem exists_inducedOn (hDistinct : vs.Nodup) (hRange : ∀ v ∈ vs, v < g.vertexCount) :
    ∃ part, g.inducedOn vs = .ok part := by
  have hEnds : ∀ entry ∈ g.edges.toList.filterMap (placed vs),
      entry.1 < vs.length ∧ entry.2.1 < vs.length := by
    intro entry hEntry
    obtain ⟨e, _, hPlaced⟩ := List.mem_filterMap.mp hEntry
    exact (of_placed hDistinct hPlaced).1
  have hNodup : ((edgeless vs.length).propositions
      ++ (g.edges.toList.filterMap (placed vs)).map (·.2.2)).Nodup :=
    g.distinct.sublist (placed_sublist hDistinct _)
  obtain ⟨part, hMade⟩ := exists_addEdges _ (edgeless vs.length) hEnds hNodup
  exact ⟨part, inducedOn_eq_ok_iff.mpr ⟨hRange, hMade⟩⟩

/-- What is made is a part, and its vertices come from the vertices at their positions. -/
theorem isPart_of_inducedOn (hDistinct : vs.Nodup) (h : g.inducedOn vs = .ok part) :
    part.vertexCount = vs.length ∧ ∃ origin : part.Vertex → g.Vertex,
      (∀ i, vs[i.val]? = some (origin i).val) ∧ IsPart g vs part origin := by
  obtain ⟨hRange, hMade⟩ := inducedOn_eq_ok_iff.mp h
  obtain ⟨hCount, hWritten⟩ := written_of_ofEdges hMade
  have hLength : ∀ i : part.Vertex, i.val < vs.length := fun i => hCount ▸ i.isLt
  let origin : part.Vertex → g.Vertex := fun i =>
    ⟨vs.get ⟨i.val, hLength i⟩, hRange _ (List.get_mem vs _)⟩
  have hOrigin : ∀ i, vs[i.val]? = some (origin i).val :=
    fun i => List.getElem?_eq_getElem (hLength i)
  refine ⟨hCount, origin, hOrigin, ?_, fun u => ?_, fun i j v => ?_⟩
  · intro i j hSame
    have hPlaces := congrArg Fin.val hSame
    exact Fin.ext ((hDistinct.getElem_inj_iff).mp hPlaces)
  · rw [List.mem_iff_getElem]
    constructor
    · rintro ⟨i, hi, hu⟩
      exact ⟨⟨i, hCount ▸ hi⟩, Fin.ext hu⟩
    · rintro ⟨i, rfl⟩
      exact ⟨i.val, hLength i, rfl⟩
  · calc (∃ d, part.edge d = ⟨i, j, v⟩)
        ↔ (i.val, j.val, v) ∈ part.written := by
          rw [mem_written_iff]
          exact exists_congr fun d => Edge.written_eq_iff.symm
      _ ↔ ∃ e ∈ g.edges.toList, placed vs e = some (i.val, j.val, v) := by
          rw [hWritten, List.mem_filterMap]
      _ ↔ ∃ e, placed vs (g.edge e) = some (i.val, j.val, v) := exists_mem_edges_iff
      _ ↔ ∃ e, g.edge e = ⟨origin i, origin j, v⟩ := by
          refine exists_congr fun e => ?_
          rw [placed_eq_some_iff hDistinct, hOrigin, hOrigin, ← Edge.written_eq_iff]
          simp [Edge.written, eq_comm]

/-- The part of a graph on distinct numbers can be made exactly if all of them are vertices.
It has a vertex for each place of the list, which comes from the vertex listed there. Two of
its vertices are joined by present edges exactly if a route of present edges leads from the
one to the other in the graph without leaving the list. And a proposition backs an edge of
the part exactly if it backs an edge of the graph with both ends in the list; the two edges
then have the same ends, in the same direction. -/
theorem part_keeps_inner_connections (g : Graph) {vs : List Nat} (hDistinct : vs.Nodup)
    (a : Assignment) :
    ((∃ part, g.inducedOn vs = .ok part) ↔ ∀ v ∈ vs, v < g.vertexCount)
      ∧ ∀ part, g.inducedOn vs = .ok part →
        part.vertexCount = vs.length
        ∧ ∃ origin : part.Vertex → g.Vertex, (∀ i, vs[i.val]? = some (origin i).val)
          ∧ (∀ i j, part.Joined (fun d => part.presentIn a d = true) i j
            ↔ ∃ es xs, Route g (fun e => g.presentIn a e = true) (origin i) es xs (origin j)
              ∧ ∀ x ∈ xs, x.val ∈ vs)
          ∧ ∀ v, ((∃ d, part.edgeBackedBy? v = some d)
              ↔ ∃ e, g.edgeBackedBy? v = some e ∧ (g.edge e).a.val ∈ vs ∧ (g.edge e).b.val ∈ vs)
            ∧ ∀ d, part.edgeBackedBy? v = some d →
              ∃ e, g.edgeBackedBy? v = some e ∧ (g.edge e).a = origin (part.edge d).a
                ∧ (g.edge e).b = origin (part.edge d).b := by
  constructor
  · constructor
    · rintro ⟨part, hMade⟩
      exact (inducedOn_eq_ok_iff.mp hMade).1
    · exact exists_inducedOn hDistinct
  · intro part hMade
    obtain ⟨hCount, origin, hOrigin, hPart⟩ := isPart_of_inducedOn hDistinct hMade
    refine ⟨hCount, origin, hOrigin, fun i j => ?_, fun v => ?_⟩
    · constructor
      · exact hPart.exists_route
      · rintro ⟨es, xs, hRoute, hInside⟩
        exact hPart.joined_of_route hRoute hInside rfl rfl
    · exact ⟨hPart.backed_iff, fun d hBacked => hPart.exists_backed hBacked⟩

/-- A chain of five vertices, with a loop and two edges between the same vertices, and another
vertex apart. -/
def chain : Graph :=
  ⟨6, #[⟨0, 1, 1⟩, ⟨1, 2, 2⟩, ⟨2, 2, 3⟩, ⟨2, 3, 4⟩, ⟨3, 2, 5⟩, ⟨3, 4, 6⟩], by decide⟩

/-- The assignment that makes all edges of the chain present. -/
def chainPresent : Assignment := ⟨Array.replicate 7 true⟩

/-- An edge leads from the first vertex of the chain to the second only. -/
theorem chain_leads {e : chain.EdgeId} {u v : chain.Vertex} (h : chain.Leads e u v)
    (hFirst : u.val = 0) : v.val = 1 := by
  have hOnly : ∀ e : Fin 6, ((chain.edge e).a.val = 0 → (chain.edge e).b.val = 1)
      ∧ (chain.edge e).b.val ≠ 0 := by
    decide
  rcases h with ⟨rfl, rfl⟩ | ⟨rfl, rfl⟩
  · exact (hOnly e).1 hFirst
  · exact absurd hFirst (hOnly e).2

/-- The way from the first vertex of the chain to the third leads through the second. Where
that one is not listed the two are apart, though all edges are present. -/
theorem part_keeps_inner_connections_chain :
    [3, 0, 2].Nodup ∧ ∃ part, chain.inducedOn [3, 0, 2] = .ok part
      ∧ ∃ i j k : part.Vertex, i.val = 0 ∧ j.val = 1 ∧ k.val = 2
        ∧ part.Joined (fun d => part.presentIn chainPresent d = true) i k
        ∧ ¬ part.Joined (fun d => part.presentIn chainPresent d = true) j k := by
  have hDistinct : [3, 0, 2].Nodup := by decide
  obtain ⟨hMade, hPart⟩ := part_keeps_inner_connections chain hDistinct chainPresent
  obtain ⟨part, hPartMade⟩ := hMade.mpr (by decide)
  obtain ⟨hCount, origin, hOrigin, hJoined, _⟩ := hPart part hPartMade
  have hFrom : ∀ (i : part.Vertex) (u : Fin 6), [3, 0, 2][i.val]? = some u.val →
      origin i = u := by
    intro i u hu
    rw [hOrigin] at hu
    exact Fin.ext (Option.some.inj hu)
  let i : part.Vertex := ⟨0, by rw [hCount]; decide⟩
  let j : part.Vertex := ⟨1, by rw [hCount]; decide⟩
  let k : part.Vertex := ⟨2, by rw [hCount]; decide⟩
  have hi : origin i = (3 : Fin 6) := hFrom i 3 rfl
  have hj : origin j = (0 : Fin 6) := hFrom j 0 rfl
  have hk : origin k = (2 : Fin 6) := hFrom k 2 rfl
  refine ⟨hDistinct, part, hPartMade, i, j, k, rfl, rfl, rfl, ?_, ?_⟩
  · rw [hJoined, hi, hk]
    have hPresent : chain.presentIn chainPresent (4 : Fin 6) = true := by decide
    have hLeads : chain.Leads (4 : Fin 6) (3 : Fin 6) (2 : Fin 6) := Or.inl ⟨rfl, rfl⟩
    refine ⟨_, _, .step hPresent hLeads (.stay _), fun x hx => ?_⟩
    rcases List.mem_pair.mp hx with rfl | rfl
    · decide
    · decide
  · rw [hJoined, hj, hk]
    rintro ⟨es, xs, hRoute, hInside⟩
    obtain ⟨e, x, _, hLeads, hx⟩ := hRoute.exists_next (Fin.ne_of_val_ne (by decide))
    have hListed := hInside x hx
    rw [chain_leads hLeads rfl] at hListed
    exact absurd hListed (by decide)

end LocalRepair.Graph
