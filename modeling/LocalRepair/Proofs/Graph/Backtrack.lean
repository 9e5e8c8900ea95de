import LocalRepair.Graph.Path
import LocalRepair.Proofs.Graph.Trails

/-!
# The way back

The search for a shortest path notes at each vertex the edge that it was reached
along, and reads the path off backwards from the target. Here it is compared, step by
step, with the search that carries its trails: both reach the same vertices in the same
order, and from every vertex in the queue the noted edges lead back along the trail
that the other search carries for it.

Two things keep the way back what it was. An edge is only ever noted at a vertex that is
reached for the first time, so a way back through reached vertices stays. And an edge
leads back to where it was followed from, whichever of its two ends that is, and also
if it is a loop or one of several edges between the same vertices.

The way back ends by itself, at the source, which has no edge noted. Each vertex that is
reached uses up one of the unreached ones and makes no trail longer than by one, so no
trail is as long as there are vertices.

## Main results

* `Noted.reach`, `Noted.prolonged`, `Noted.walkBack_eq`: the noted edges.
* `lookAround_follows`, `Frontier.Follows.round`: one round of the two searches.
-/

namespace LocalRepair.Graph

variable {g : Graph} {asks : g.EdgeId → Except Fault Bool} {v w x : g.Vertex} {e : g.EdgeId}
  {trail : List g.EdgeId} {target steps : Nat}

namespace Frontier

variable {search : Frontier g}

@[simp] theorem reached_reach :
    (search.reach w e).reached.get x = true ↔ x = w ∨ search.reached.get x = true :=
  marked_withEntry

@[simp] theorem via_reach_self : (search.reach w e).via.get w = some e :=
  (get_withEntry ..).trans (if_pos rfl)

theorem via_reach_other (h : x ≠ w) : (search.reach w e).via.get x = search.via.get x :=
  (get_withEntry ..).trans (if_neg h)

/-- The noted edges lead from the vertex back along the trail, through reached vertices,
to one that has no edge noted. -/
inductive Noted (search : Frontier g) : g.Vertex → List g.EdgeId → Prop where
  | stop {v : g.Vertex} (isReached : search.reached.get v = true)
      (isFirst : search.via.get v = none) : Noted search v []
  | back {v : g.Vertex} {e : g.EdgeId} {trail : List g.EdgeId}
      (isReached : search.reached.get v = true) (isNoted : search.via.get v = some e)
      (before : Noted search ((g.edge e).opposite v) trail) : Noted search v (e :: trail)

namespace Noted

/-- A way back stays when a vertex is reached for the first time. -/
theorem reach (h : search.Noted v trail) (hNew : search.reached.get w = false) (e : g.EdgeId) :
    (search.reach w e).Noted v trail := by
  have hOther : ∀ x : g.Vertex, search.reached.get x = true → x ≠ w := by
    rintro x hx rfl
    simp [hx] at hNew
  induction h with
  | @stop v isReached isFirst =>
      exact .stop (reached_reach.mpr (Or.inr isReached))
        ((via_reach_other (hOther v isReached)).trans isFirst)
  | @back v d trail isReached isNoted _ ih =>
      exact .back (reached_reach.mpr (Or.inr isReached))
        ((via_reach_other (hOther v isReached)).trans isNoted) ih

/-- From a vertex that is reached for the first time the way back begins with the edge
that led there. -/
theorem prolonged (h : search.Noted v trail) (hNew : search.reached.get w = false)
    (hLeads : g.Leads e v w) : (search.reach w e).Noted w (e :: trail) := by
  refine .back (reached_reach.mpr (Or.inl rfl)) via_reach_self ?_
  rw [hLeads.symm.opposite]
  exact h.reach hNew e

/-- What waits does not matter to a way back. -/
theorem queue (h : search.Noted v trail) (waiting : List g.Vertex) :
    Frontier.Noted { search with queue := waiting } v trail := by
  induction h with
  | stop isReached isFirst => exact .stop isReached isFirst
  | back isReached isNoted _ ih => exact .back isReached isNoted ih

/-- With enough steps the noted edges are read off up to the last. -/
theorem walkBack_eq (h : search.Noted v trail) (hSteps : trail.length ≤ steps) :
    g.walkBack search.via steps v = trail := by
  induction h generalizing steps with
  | stop _ isFirst =>
      cases steps with
      | zero => rfl
      | succ steps => simp only [walkBack, isFirst]
  | back _ isNoted _ ih =>
      rw [List.length_cons] at hSteps
      obtain ⟨steps, rfl⟩ : ∃ more, steps = more + 1 := ⟨steps - 1, by omega⟩
      simp only [walkBack, isNoted, ih (Nat.le_of_succ_le_succ hSteps)]

end Noted

/-- The search has come as far as the one that carries its trails, and has noted the
trails of the vertices in the queue. -/
structure Follows (search : Frontier g) (carrying : TrailSearch g) : Prop where
  reached : search.reached = carrying.reached
  queue : search.queue = carrying.queue.map Prod.fst
  noted : ∀ entry ∈ carrying.queue, search.Noted entry.1 entry.2
  short : ∀ entry ∈ carrying.queue, entry.2.length + carrying.unreached < g.vertexCount

variable {carrying : TrailSearch g}

/-- Both searches start alike. -/
theorem follows_start (source : g.Vertex) :
    (Frontier.start source).Follows (TrailSearch.start source) := by
  refine ⟨rfl, rfl, fun entry hEntry => ?_, fun entry hEntry => ?_⟩
  · obtain rfl : entry = (source, []) := by simpa [TrailSearch.start] using hEntry
    exact .stop (marked_withEntry.mpr (Or.inl rfl)) (get_replicate none source)
  · obtain rfl : entry = (source, []) := by simpa [TrailSearch.start] using hEntry
    have hCount := TrailSearch.length_add_unreached_start source
    simp only [TrailSearch.start, List.length_singleton, List.length_nil] at hCount ⊢
    omega

/-- Both searches reach a vertex. -/
theorem Follows.reach (h : search.Follows carrying) (hTrail : search.Noted v trail)
    (hShort : trail.length + carrying.unreached < g.vertexCount)
    (hNew : search.reached.get w = false) (hLeads : g.Leads e v w) :
    (search.reach w e).Follows (carrying.reaching w (e :: trail)) := by
  have hFewer : (carrying.reaching w (e :: trail)).unreached + 1 = carrying.unreached := by
    have hCount := TrailSearch.length_add_unreached_reaching (h.reached ▸ hNew) (e :: trail)
    simp only [TrailSearch.reaching, List.length_append, List.length_singleton] at hCount ⊢
    omega
  have hQueue : (carrying.reaching w (e :: trail)).queue
      = carrying.queue ++ [(w, e :: trail)] := rfl
  constructor
  · show withEntry search.reached w true = withEntry carrying.reached w true
    rw [h.reached]
  · rw [hQueue, List.map_append, ← h.queue]
    rfl
  · exact TrailSearch.forall_queue_reaching.mpr
      ⟨fun entry hOld => (h.noted entry hOld).reach hNew e, hTrail.prolonged hNew hLeads⟩
  · refine TrailSearch.forall_queue_reaching.mpr ⟨fun entry hOld => ?_, ?_⟩
    · have hBefore := h.short entry hOld
      omega
    · rw [List.length_cons]
      omega

/-- Both searches take the same vertex from the queue. -/
theorem Follows.taking {waiting : List (g.Vertex × List g.EdgeId)}
    (h : search.Follows carrying) (hQueue : carrying.queue = (v, trail) :: waiting) :
    Follows { search with queue := waiting.map Prod.fst } { carrying with queue := waiting } := by
  have hLater : ∀ entry ∈ waiting, entry ∈ carrying.queue := fun entry hEntry => by
    simp [hQueue, hEntry]
  exact
    { reached := h.reached
      queue := rfl
      noted := fun entry hEntry => (h.noted entry (hLater entry hEntry)).queue _
      short := fun entry hEntry => h.short entry (hLater entry hEntry) }

end Frontier

/-- What comes of a round of the two searches: the same fault, the same path, or searches
that have come equally far. -/
inductive InStep : Except Fault (List g.EdgeId ⊕ Frontier g) →
    Except Fault (List g.EdgeId ⊕ TrailSearch g) → Prop where
  | failed (fault : Fault) : InStep (.error fault) (.error fault)
  | found (path : List g.EdgeId) : InStep (.ok (.inl path)) (.ok (.inl path))
  | goesOn {search : Frontier g} {carrying : TrailSearch g} (follows : search.Follows carrying) :
      InStep (.ok (.inr search)) (.ok (.inr carrying))

/-- The two searches look around from a vertex in step. -/
theorem lookAround_follows (hSteps : g.vertexCount ≤ steps) :
    ∀ (row : List g.EdgeId) (search : Frontier g) (carrying : TrailSearch g),
      (∀ e ∈ row, ∃ w, g.Leads e v w) → search.Follows carrying → search.Noted v trail →
      trail.length + carrying.unreached < g.vertexCount →
      InStep (g.lookAround asks target steps v row search)
        (TrailSearch.lookAround asks target v trail row carrying) := by
  intro row
  induction row with
  | nil => exact fun search carrying _ hFollows _ _ => .goesOn hFollows
  | cons e row ih =>
      intro search carrying hRow hFollows hTrail hShort
      obtain ⟨w, hLeads⟩ := hRow e (by simp)
      have hRest : ∀ d ∈ row, ∃ w, g.Leads d v w := fun d hd => hRow d (List.mem_cons_of_mem _ hd)
      rw [lookAround, TrailSearch.lookAround]
      simp only [hLeads.opposite, ← hFollows.reached]
      cases asks e with
      | error fault => exact .failed fault
      | ok here =>
          cases here with
          | false => exact ih search carrying hRest hFollows hTrail hShort
          | true =>
              simp only [bind, Except.bind, if_true]
              by_cases hReached : search.reached.get w = true
              · rw [if_pos hReached, if_pos hReached]
                exact ih search carrying hRest hFollows hTrail hShort
              · have hNew : search.reached.get w = false := by simpa using hReached
                rw [if_neg hReached, if_neg hReached]
                have hFurther := hFollows.reach hTrail hShort hNew hLeads
                have hEntry := hFurther.short (w, e :: trail) (by simp [TrailSearch.reaching])
                rw [List.length_cons] at hEntry
                by_cases hTarget : w.val = target
                · rw [if_pos hTarget, if_pos hTarget,
                    (hTrail.prolonged hNew hLeads).walkBack_eq (by rw [List.length_cons]; omega)]
                  exact .found _
                · rw [if_neg hTarget, if_neg hTarget]
                  exact ih _ _ hRest hFurther (hTrail.reach hNew e) (by omega)

/-- What the two searches do with the first vertex of the queue. -/
theorem Frontier.Follows.round {search : Frontier g} {carrying : TrailSearch g}
    {waiting : List (g.Vertex × List g.EdgeId)} (h : search.Follows carrying)
    (hQueue : carrying.queue = (v, trail) :: waiting) (hSteps : g.vertexCount ≤ steps) :
    InStep (g.lookAround asks target steps v (g.incident v)
        { search with queue := waiting.map Prod.fst })
      (TrailSearch.lookAround asks target v trail (g.incident v)
        { carrying with queue := waiting }) := by
  have hFirst : (v, trail) ∈ carrying.queue := by simp [hQueue]
  exact lookAround_follows hSteps _ _ _ (fun e => mem_incident_iff.mp) (h.taking hQueue)
    ((h.noted _ hFirst).queue _) (h.short _ hFirst)

namespace InStep

variable {round : Except Fault (List g.EdgeId ⊕ Frontier g)}

/-- If the one search comes to its target, so does the other, and by the same path. -/
theorem of_found {path : List g.EdgeId} (h : InStep round (.ok (.inl path))) :
    round = .ok (.inl path) := by
  cases h
  rfl

/-- If the one search goes on, so does the other. -/
theorem of_goesOn {carrying : TrailSearch g} (h : InStep round (.ok (.inr carrying))) :
    ∃ search : Frontier g, round = .ok (.inr search) ∧ search.Follows carrying := by
  cases h with
  | goesOn hFollows => exact ⟨_, rfl, hFollows⟩

end InStep

end LocalRepair.Graph
