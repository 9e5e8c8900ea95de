import LocalRepair.Proofs.Forest.Spanning
import LocalRepair.Connectivity
import LocalRepair.Meaning

/-!
# Demands answered from a forest

A forest that is right about the present edges answers every demand with what
the demand means: compared roots are joined vertices, and counted components are
pieces.

The estimates for a single edge are questions to the same forest. They are put
here in a form without redirected parents, `adding` and `removing`, which speak
of roots only, and the questions are proved to answer with them.

## Main results

* `asks_isMet`: the answer to a demand is its meaning.
* `asks_riskOfAdding`, `asks_riskOfRemoving`: the estimates, read off the roots.
* `Holds.congr`, `Holds.mono`: how a demand depends on the present edges.
-/

namespace LocalRepair.Connectivity

open Forest (Asks Redirected)

variable {g : Graph} {f : Forest g} {present other : g.EdgeId → Prop}
  {demand : Connectivity g.Vertex}

/-! ## Demands on named vertices -/

/-- The vertices of a demand on a pair are looked up one after the other. -/
theorem resolve_pair {source target : Nat} {u w : g.Vertex} (hSource : g.vertex source = .ok u)
    (hTarget : g.vertex target = .ok w) : (pair source target).resolve g = .ok (pair u w) := by
  rw [resolve, hSource, hTarget]
  rfl

/-- The vertices of a demand on a pair exist. -/
theorem exists_of_resolve_pair {source target : Nat} {d : Connectivity g.Vertex}
    (h : (pair source target).resolve g = .ok d) :
    ∃ u w, g.vertex source = .ok u ∧ g.vertex target = .ok w ∧ d = pair u w := by
  simp only [resolve, bind, Except.bind] at h
  split at h
  · cases h
  · rename_i u hSource
    split at h
    · cases h
    · rename_i w hTarget
      cases h
      exact ⟨u, w, hSource, hTarget, rfl⟩

/-- Two sides are looked up one after the other. -/
theorem exists_of_resolve_sides {left right : List Nat} {d : Connectivity g.Vertex}
    (h : (sides left right).resolve g = .ok d) :
    ∃ us ws, left.mapM g.vertex = .ok us ∧ right.mapM g.vertex = .ok ws ∧ d = sides us ws := by
  simp only [resolve, bind, Except.bind] at h
  split at h
  · cases h
  · rename_i us hLeft
    split at h
    · cases h
    · rename_i ws hRight
      cases h
      exact ⟨us, ws, hLeft, hRight, rfl⟩

/-! ## Meaning and presence -/

/-- Only what is joined matters to a demand. -/
theorem Holds.congr (h : ∀ u v, g.Joined present u v ↔ g.Joined other u v) :
    demand.Holds g present ↔ demand.Holds g other := by
  have hRow : ∀ row, g.Representatives present row ↔ g.Representatives other row := by
    intro row
    constructor
    · intro hRow
      exact ⟨by simpa only [h] using hRow.covers, by simpa only [h] using hRow.apart⟩
    · intro hRow
      exact ⟨by simpa only [h] using hRow.covers, by simpa only [h] using hRow.apart⟩
  cases demand with
  | whole => simp only [Holds, h]
  | pieces count => simp only [Holds, hRow]
  | pair source target => exact h source target
  | sides left right => simp only [Holds, h]

/-- A demand for connection survives more edges. A number of pieces does not. -/
theorem Holds.mono (hMore : ∀ e, present e → other e) (hNotPieces : ∀ n, demand ≠ pieces n)
    (h : demand.Holds g present) : demand.Holds g other := by
  cases demand with
  | whole => exact fun u v => (h u v).mono hMore
  | pieces count => exact absurd rfl (hNotPieces count)
  | pair source target => exact Graph.Joined.mono hMore h
  | sides left right =>
      obtain ⟨u, hu, v, hv, hJoined⟩ := h
      exact ⟨u, hu, v, hv, hJoined.mono hMore⟩

/-! ## Whether a demand is met -/

/-- Whether the classes of two rows of vertices meet. -/
def meet (f : Forest g) (left right : List g.Vertex) : Bool :=
  right.any fun v => (left.map f.root).contains (f.root v)

theorem asks_sidesMeet (left right : List g.Vertex) :
    Asks (sidesMeet left right) f (meet f left right) :=
  (Forest.asks_findAll left).bind (Forest.asks_anyRootIn _ right)

/-- Two rows meet when a vertex of one is joined to a vertex of the other. -/
theorem meet_iff (h : f.Spans present) (left right : List g.Vertex) :
    meet f left right = true ↔ ∃ u ∈ left, ∃ v ∈ right, g.Joined present u v := by
  simp only [meet, List.any_eq_true, List.contains_iff_mem, List.mem_map, h.root_eq_iff]
  constructor
  · rintro ⟨v, hv, u, hu, hJoined⟩
    exact ⟨u, hu, v, hv, hJoined⟩
  · rintro ⟨u, hu, v, hv, hJoined⟩
    exact ⟨v, hv, u, hu, hJoined⟩

/-- A number of pieces is demanded exactly when it is counted. -/
theorem holds_pieces_iff (h : f.Spans present) (count : Nat) :
    (pieces count).Holds g present ↔ f.components = count := by
  constructor
  · rintro ⟨row, hRow, rfl⟩
    exact (h.length_of_representatives hRow).symm
  · intro hCount
    exact ⟨f.roots, h.representatives, h.components.symm.trans hCount⟩

/-- The whole graph is connected exactly when at most one component is counted.
-/
theorem holds_whole_iff (h : f.Spans present) :
    whole.Holds g present ↔ f.components ≤ 1 := by
  rw [h.components, h.representatives.length_le_one_iff]
  rfl

/-- A demand is answered with its meaning. -/
theorem asks_isMet (h : f.Spans present) (demand : Connectivity g.Vertex) :
    ∃ answer, Asks demand.isMet f answer ∧ (answer = true ↔ demand.Holds g present) := by
  cases demand with
  | whole =>
      refine ⟨decide (f.components ≤ 1), Asks.get fun f' hf' => ?_, ?_⟩
      · rw [hf'.components]
        exact .pure f _
      · rw [decide_eq_true_iff, holds_whole_iff h]
  | pieces count =>
      refine ⟨f.components == count, Asks.get fun f' hf' => ?_, ?_⟩
      · rw [hf'.components]
        exact .pure f _
      · rw [beq_iff_eq, holds_pieces_iff h]
  | pair source target =>
      refine ⟨f.root source == f.root target, Forest.asks_joined source target, ?_⟩
      rw [beq_iff_eq, h.root_eq_iff]
      rfl
  | sides left right =>
      exact ⟨meet f left right, asks_sidesMeet left right, meet_iff h left right⟩

/-! ## The estimates, read off the roots -/

/-- Whether an end of an edge is in the class of one of two vertices. -/
def touches (f : Forest g) (e : g.EdgeId) (source target : g.Vertex) : Bool :=
  [(g.edge e).a, (g.edge e).b].any fun v => f.root v == f.root source || f.root v == f.root target

/-- Whether the classes of the ends of an edge are on different sides. -/
def links (f : Forest g) (e : g.EdgeId) (left right : List g.Vertex) : Bool :=
  ((left.map f.root).contains (f.root (g.edge e).a)
      && (right.map f.root).contains (f.root (g.edge e).b))
    || ((left.map f.root).contains (f.root (g.edge e).b)
      && (right.map f.root).contains (f.root (g.edge e).a))

/-- Whether the class of an end of an edge is on one of two sides. -/
def grows (f : Forest g) (e : g.EdgeId) (left right : List g.Vertex) : Bool :=
  [f.root (g.edge e).a, f.root (g.edge e).b].any fun r =>
    (left.map f.root).contains r || (right.map f.root).contains r

/-- Whether two vertices are in one class. -/
def same (f : Forest g) (u v : g.Vertex) : Bool := f.root u == f.root v

/-- The estimate for an edge that appears. -/
def adding (f : Forest g) (e : g.EdgeId) : Connectivity g.Vertex → Int
  | whole => if same f (g.edge e).a (g.edge e).b then 0 else -1
  | pieces wanted =>
    if same f (g.edge e).a (g.edge e).b then 0
    else piecesPenalty wanted (f.components - 1) - piecesPenalty wanted f.components
  | pair source target =>
    if same f source target then 0
    else if same f (g.edge e).a (g.edge e).b then 0
    else if f.bridges source target e then -2
    else if touches f e source target then -1
    else 0
  | sides left right =>
    if meet f left right then 0
    else if same f (g.edge e).a (g.edge e).b then 0
    else if links f e left right then -2
    else if grows f e left right then -1
    else 0

/-- The estimate for an edge that disappears. -/
def removing (f : Forest g) (e : g.EdgeId) (onPath : Bool) : Connectivity g.Vertex → Int
  | whole => if f.contains e then 1 else 0
  | pieces wanted =>
    if f.contains e then piecesPenalty wanted (f.components + 1) - piecesPenalty wanted f.components
    else 0
  | pair source target =>
    if same f source target then if onPath then 2 else if f.contains e then 1 else 0 else 0
  | sides left right => if meet f left right then if f.contains e then 1 else 0 else 0

theorem asks_touchesClass (source target : g.Vertex) (vs : List g.Vertex) :
    Asks (touchesClass source target vs) f
      (vs.any fun v => f.root v == f.root source || f.root v == f.root target) := by
  induction vs with
  | nil => exact .pure f false
  | cons v vs ih =>
      rw [List.any_cons]
      apply (Forest.asks_joined v source).bind
      cases f.root v == f.root source with
      | true => exact .pure f true
      | false =>
          apply (Forest.asks_joined v target).bind
          cases f.root v == f.root target with
          | true => exact .pure f true
          | false => exact ih

/-- The estimate for an edge that appears is read off the roots. -/
theorem asks_riskOfAdding (e : g.EdgeId) (demand : Connectivity g.Vertex) :
    Asks (demand.riskOfAdding e) f (adding f e demand) := by
  have hSame := Forest.asks_joined (f := f) (g.edge e).a (g.edge e).b
  cases demand with
  | whole => exact hSame.bind (Asks.ite (fun _ => .pure f 0) fun _ => .pure f (-1))
  | pieces wanted =>
      refine Asks.get fun f' hf' => hSame.bind (Asks.ite (fun _ => .pure f 0) fun _ => ?_)
      rw [hf'.components]
      exact .pure f _
  | pair source target =>
      refine (Forest.asks_joined source target).bind (Asks.ite (fun _ => .pure f 0) fun _ => ?_)
      refine hSame.bind (Asks.ite (fun _ => .pure f 0) fun _ => Asks.get fun f' hf' => ?_)
      rw [hf'.bridges]
      apply Asks.ite (fun _ => .pure f (-2))
      intro _
      apply (asks_touchesClass source target _).bind
      exact Asks.ite (fun _ => .pure f (-1)) fun _ => .pure f 0
  | sides left right =>
      refine (asks_sidesMeet left right).bind (Asks.ite (fun _ => .pure f 0) fun _ => ?_)
      refine hSame.bind (Asks.ite (fun _ => .pure f 0) fun _ => ?_)
      refine (Forest.asks_findAll left).bind ((Forest.asks_findAll right).bind ?_)
      refine (Forest.asks_find _).bind ((Forest.asks_find _).bind ?_)
      apply Asks.ite (fun _ => .pure f (-2))
      intro _
      exact Asks.ite (fun _ => .pure f (-1)) fun _ => .pure f 0

/-- The estimate for an edge that disappears is read off the roots. -/
theorem asks_riskOfRemoving (e : g.EdgeId) (onPath : Bool) (demand : Connectivity g.Vertex) :
    Asks (demand.riskOfRemoving e onPath) f (removing f e onPath demand) := by
  have hContains : ∀ yes no : Int,
      Asks (do if (← get).contains e then return yes else return no) f
        (if f.contains e then yes else no) := by
    intro yes no
    apply Asks.get
    intro f' hf'
    rw [hf'.contains]
    exact Asks.ite (fun _ => .pure f yes) fun _ => .pure f no
  cases demand with
  | whole => exact hContains 1 0
  | pieces wanted =>
      apply Asks.get
      intro f' hf'
      rw [hf'.components]
      exact hContains _ 0
  | pair source target =>
      refine (Forest.asks_joined source target).bind (Asks.ite (fun _ => ?_) fun _ => .pure f 0)
      exact Asks.ite (fun _ => .pure f 2) fun _ => hContains 1 0
  | sides left right =>
      refine (asks_sidesMeet left right).bind (Asks.ite (fun _ => ?_) fun _ => .pure f 0)
      exact hContains 1 0

end LocalRepair.Connectivity
