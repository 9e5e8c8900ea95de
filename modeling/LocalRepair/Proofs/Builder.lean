import LocalRepair.Proofs.Outcome
import LocalRepair.Proofs.Problem

/-!
# Builders make well-formed problems

A builder is asked for propositions, priors, clauses, graphs and demands, in any
order and with any arguments, and refuses some of the requests. Whatever it was
asked for and whatever it refused, its tables stay sound, so the problem it makes
is well-formed.

Each step of building checks before it changes anything. A check leaves the
builder as it is and, if it passes, tells that a number is the number of
something; that is all the changes after it need.

## Main results

* `Sound.leftBy`: a request keeps the tables sound.
* `Problem.Built.wellFormed`: problems that were built are well-formed.
-/

namespace LocalRepair

namespace Builder

variable {α β : Type} {b : Builder}

/-! ## Checks -/

/-- A check refuses or finds something out, and changes nothing. -/
def Checks (x : Build α) (b : Builder) (found : α → Prop) : Prop :=
  Ends x b (fun a b' => b' = b ∧ found a) fun _ b' => b' = b

/-- What follows a check starts where the check did. -/
theorem Checks.andThen {x : Build α} {next : α → Build β} {found : α → Prop}
    {returns : β → Builder → Prop} {fails : Rejection → Builder → Prop} (h : Checks x b found)
    (hRefused : ∀ e, fails e b) (hNext : ∀ a, found a → Ends (next a) b returns fails) :
    Ends (x >>= next) b returns fails := by
  rw [ends_bind]
  refine Ends.mono h ?_ ?_
  · rintro a _ ⟨rfl, hFound⟩
    exact hNext a hFound
  · rintro e _ rfl
    exact hRefused e

theorem checks_proposition (v : Nat) (b : Builder) :
    Checks (checkProposition v) b fun _ => Named b.names.size v := by
  unfold Checks
  rw [checkProposition, ends_bind, ends_get]
  refine ends_ite (fun _ => rfl) fun hNamed => ?_
  have hRange : Named b.names.size v := by
    unfold Named
    omega
  exact ⟨rfl, hRange⟩

/-- Checking some numbers one after the other. -/
theorem checks_all (numberOf : α → Nat) (xs : List α) (b : Builder) :
    Checks (xs.forM fun x => checkProposition (numberOf x)) b
      fun _ => ∀ x ∈ xs, Named b.names.size (numberOf x) := by
  induction xs with
  | nil => exact ⟨rfl, by simp⟩
  | cons x xs ih =>
      show Ends (checkProposition (numberOf x) >>= fun _ => xs.forM _) b _ _
      refine (checks_proposition (numberOf x) b).andThen (fun _ => ?_) fun _ hHead => ?_
      · rfl
      · refine Ends.mono ih ?_ fun _ _ hRefused => hRefused
        rintro _ b' ⟨rfl, hRest⟩
        refine ⟨rfl, fun y hy => ?_⟩
        rcases List.mem_cons.mp hy with rfl | hy
        · exact hHead
        · exact hRest y hy

/-- A graph that a builder answers with is one of its graphs. -/
theorem checks_graph (id : Nat) (b : Builder) :
    Checks (graph id) b fun g => b.graphs[id]? = some g := by
  unfold Checks
  rw [graph, ends_bind, ends_get]
  cases hGraph : b.graphs[id]? with
  | none => rfl
  | some g => exact ⟨rfl, rfl⟩

/-- The outcome of a check as a step. -/
theorem checks_outcome (outcome : Except Rejection α) (b : Builder) :
    Checks (checked outcome) b fun a => outcome = .ok a := by
  cases outcome with
  | ok a => exact ⟨rfl, rfl⟩
  | error e => rfl

/-! ## Changes -/

/-- A new proposition takes away no number. -/
theorem keeps_newProposition (name : String) : Keeps (newProposition name) Sound := by
  intro b h
  refine ⟨by simp [h.priors], fun chance hMem => ?_, fun g hg v hv => ?_, fun c hc => ?_⟩
  · exact h.chances chance (by simpa using hMem)
  · exact (h.graphs g hg v hv).mono (by simp)
  · exact (h.constraints c hc).mono (by simp)

theorem keeps_setPrior (v : Nat) (p : Float) : Keeps (setPrior v p) Sound := by
  intro b h
  apply (checks_proposition v b).andThen fun _ => h
  intro _ _
  refine ends_ite (fun hProper => ?_) fun _ => h
  refine ⟨by simpa using h.priors, fun chance hMem => ?_, h.graphs, h.constraints⟩
  rcases Array.mem_or_eq_of_mem_setIfInBounds hMem with hOld | hNew
  · exact h.chances chance hOld
  · rw [Option.some.inj hNew]
    exact hProper

/-- Only the tables of propositions, constraints and graphs matter. -/
theorem Sound.of_tables (h : b.Sound) (clauseIds : List (Clause × Nat))
    (decisions : List Decision) : Sound { b with clauseIds, decisions } :=
  ⟨h.priors, h.chances, h.graphs, h.constraints⟩

/-- A grounded constraint can be taken in. -/
theorem Sound.push (h : b.Sound) {c : Constraint} (hc : c.Grounded b.names.size b.graphs) :
    Sound { b with constraints := b.constraints.push c } := by
  refine ⟨h.priors, h.chances, h.graphs, fun d hd => ?_⟩
  rcases Array.mem_push.mp hd with hd | rfl
  · exact h.constraints d hd
  · exact hc

/-- A clause on propositions that exist can be stored. -/
theorem ends_storeClause (h : b.Sound) {c : Clause}
    (hc : ∀ l ∈ c.literals, Named b.names.size l.proposition) :
    Ends (storeClause c) b (fun _ => Sound) fun _ => Sound := by
  have hPush : ∀ clauseIds decisions,
      Sound { b with clauseIds, decisions, constraints := b.constraints.push (.clause c) } := by
    intro clauseIds decisions
    exact Sound.push (h.of_tables clauseIds decisions) hc
  rw [storeClause, ends_bind, ends_get]
  cases c.decided? with
  | none => exact hPush _ _
  | some l =>
      simp only [ends_bind, ends_get]
      cases b.decisionOn? l.proposition with
      | none => exact hPush _ _
      | some earlier => exact ends_ite (fun _ => h) fun _ => hPush _ _

theorem keeps_addClause (c : Clause) : Keeps (addClause c) Sound := by
  intro b h
  apply (checks_all Literal.proposition c.literals b).andThen fun _ => h
  intro _ hNamed
  rw [ends_bind, ends_get]
  cases b.clauseIds.lookup c with
  | some id => exact h
  | none => exact ends_ite (fun _ => h) fun _ => ends_storeClause h hNamed

theorem keeps_addGraph (g : Graph) : Keeps (addGraph g) Sound := by
  intro b h
  apply (checks_all (fun v => v) g.propositions b).andThen fun _ => h
  intro _ hNamed
  refine ⟨h.priors, h.chances, fun g' hg' => ?_, fun c hc => (h.constraints c hc).push g⟩
  rcases Array.mem_push.mp hg' with hOld | rfl
  · exact h.graphs g' hOld
  · exact hNamed

/-- Taking in some propositions keeps what taking in one keeps. -/
theorem keeps_newPropositions_of {p : Builder → Prop} (h : ∀ name, Keeps (newProposition name) p)
    (stem : String) (count : Nat) : Keeps (newPropositions stem count) p :=
  Keeps.mapM fun _ => h _

/-- So does the making of a complete graph. -/
theorem keeps_completeGraph_of {p : Builder → Prop} (h : ∀ name, Keeps (newProposition name) p)
    (vertexCount : Nat) : Keeps (completeGraph vertexCount) p := by
  have hEdge : ∀ pair : Nat × Nat, Keeps (do
      let v ← newProposition ("edge(" ++ toString pair.1 ++ "," ++ toString pair.2 ++ ")")
      return (pair.1, pair.2, v)) p :=
    fun pair => (h _).bind fun _ => .pure _
  apply (Keeps.mapM hEdge).bind
  intro edges b hb
  exact Ends.mono (checks_outcome _ b) (fun _ _ hSame => hSame.1 ▸ hb) fun _ _ hSame => hSame ▸ hb

theorem keeps_newPropositions (stem : String) (count : Nat) :
    Keeps (newPropositions stem count) Sound :=
  keeps_newPropositions_of keeps_newProposition stem count

theorem keeps_completeGraph (vertexCount : Nat) : Keeps (completeGraph vertexCount) Sound :=
  keeps_completeGraph_of keeps_newProposition vertexCount

/-! ## Demands -/

/-- Vertices that pass the check are vertices. -/
theorem vertex_of_checkVertices {g : Graph} {vs : List Nat} (h : g.checkVertices vs = .ok ())
    {v : Nat} (hv : v ∈ vs) : ∃ u, g.vertex v = .ok u := by
  unfold Graph.checkVertices at h
  split at h
  · cases h
  · rename_i hNone
    rw [List.find?_eq_none] at hNone
    have hRange : v < g.vertexCount := by simpa using hNone v hv
    exact ⟨⟨v, hRange⟩, dif_pos hRange⟩

/-- Numbers of vertices can all be resolved. -/
theorem mapM_vertex {g : Graph} {vs : List Nat} (h : ∀ v ∈ vs, ∃ u, g.vertex v = .ok u) :
    ∃ us, vs.mapM g.vertex = .ok us := by
  induction vs with
  | nil => exact ⟨[], rfl⟩
  | cons v vs ih =>
      obtain ⟨u, hu⟩ := h v (by simp)
      obtain ⟨us, hus⟩ := ih fun w hw => h w (List.mem_cons_of_mem _ hw)
      refine ⟨u :: us, ?_⟩
      rw [List.mapM_cons, hu, hus]
      rfl

/-- A demand that passes the check can be put on the graph. -/
theorem resolve_of_check {id : Nat} {g : Graph} {demand : Connectivity Nat}
    (h : demand.check id g = .ok ()) : ∃ d, demand.resolve g = .ok d := by
  cases demand with
  | whole => exact ⟨.whole, rfl⟩
  | pieces count => exact ⟨.pieces count, rfl⟩
  | pair source target =>
      obtain ⟨s, hs⟩ := vertex_of_checkVertices h (v := source) (by simp)
      obtain ⟨t, ht⟩ := vertex_of_checkVertices h (v := target) (by simp)
      refine ⟨.pair s t, ?_⟩
      rw [Connectivity.resolve, hs, ht]
      rfl
  | sides left right =>
      rw [Connectivity.check] at h
      cases hVertices : g.checkVertices (left ++ right) with
      | error e =>
          rw [hVertices] at h
          cases h
      | ok u =>
          obtain ⟨us, hus⟩ := mapM_vertex fun v hv =>
            vertex_of_checkVertices hVertices (List.mem_append_left right hv)
          obtain ⟨ws, hws⟩ := mapM_vertex fun v hv =>
            vertex_of_checkVertices hVertices (List.mem_append_right left hv)
          refine ⟨.sides us ws, ?_⟩
          rw [Connectivity.resolve, hus, hws]
          rfl

/-- A demand that can be put on a graph of the builder can be taken in. -/
theorem ends_addDemand (h : b.Sound) {id : Nat} {demand : Connectivity Nat}
    (hGrounded : (Constraint.graph id demand).Grounded b.names.size b.graphs) :
    Ends (addConstraint (.graph id demand)) b (fun _ => Sound) fun _ => Sound := by
  rw [addConstraint, ends_bind, ends_get]
  apply (checks_all (fun v => v) _ b).andThen fun _ => h
  intro _ _
  exact h.push hGrounded

theorem keeps_demand (id : Nat) (d : Connectivity Nat) : Keeps (demand id d) Sound := by
  intro b h
  apply (checks_graph id b).andThen fun _ => h
  intro g hGraph
  apply (checks_outcome (d.check id g) b).andThen fun _ => h
  intro _ hCheck
  obtain ⟨d', hResolve⟩ := resolve_of_check hCheck
  exact ends_addDemand h ⟨g, d', hGraph, hResolve⟩

theorem keeps_boundEdges (id min max : Nat) : Keeps (boundEdges id min max) Sound := by
  intro b h
  apply (checks_graph id b).andThen fun _ => h
  intro g _
  exact keeps_addClause _ _ h

/-! ## Requests -/

/-- What a builder can be asked for. Graphs may come from anywhere, also from
`completeGraph` or as parts of other graphs; demands name a graph that was taken
in before. Constraints that somebody else has made, clauses or demands, are
handed over by `addConstraint`. -/
inductive Request where
  | newProposition (name : String)
  | newPropositions (stem : String) (count : Nat)
  | setPrior (v : Nat) (p : Float)
  | addClause (c : Clause)
  | addConstraint (c : Constraint)
  | require (l : Literal)
  | completeGraph (vertexCount : Nat)
  | addGraph (g : Graph)
  | demand (graph : Nat) (d : Connectivity Nat)
  | boundEdges (graph min max : Nat)

/-- The request as a step, without its answer. -/
def Request.perform : Request → Build Unit
  | newProposition name => do let _v ← Builder.newProposition name
  | newPropositions stem count => do let _vs ← Builder.newPropositions stem count
  | setPrior v p => Builder.setPrior v p
  | addClause c => do let _id ← Builder.addClause c
  | addConstraint c => do let _id ← Builder.addConstraint c
  | require l => do let _id ← Builder.require l
  | completeGraph vertexCount => do let _g ← Builder.completeGraph vertexCount
  | addGraph g => do let _id ← Builder.addGraph g
  | demand graph d => do let _id ← Builder.demand graph d
  | boundEdges graph min max => do let _id ← Builder.boundEdges graph min max

/-- The builder after some requests, any of which it may have refused. -/
def run (b : Builder) (requests : List Request) : Builder :=
  requests.foldl (fun b request => leftBy request.perform b) b

/-- A new builder after some requests. -/
def after (requests : List Request) : Builder := empty.run requests

/-- A demand that is handed over was made for a graph that the builder has taken in, and
names vertices of it. For other requests nothing is asked. -/
def Request.Proper (b : Builder) : Request → Prop
  | addConstraint (.graph id d) => ∃ g d', b.graphs[id]? = some g ∧ d.resolve g = .ok d'
  | _ => True

/-- Requests that are proper, each at the time when it is made. -/
def Proper (b : Builder) : List Request → Prop
  | [] => True
  | request :: requests => request.Proper b ∧ Proper (leftBy request.perform b) requests

/-- A proper request keeps the tables sound, also when it is refused. -/
theorem Sound.leftBy (h : b.Sound) {request : Request} (hProper : request.Proper b) :
    (leftBy request.perform b).Sound := by
  apply Ends.leftBy
  cases request with
  | newProposition name => exact (keeps_newProposition name).bind (fun _ => .pure _) b h
  | newPropositions stem count =>
      exact (keeps_newPropositions stem count).bind (fun _ => .pure _) b h
  | setPrior v p => exact keeps_setPrior v p b h
  | addClause c => exact (keeps_addClause c).bind (fun _ => .pure _) b h
  | addConstraint c =>
      cases c with
      | clause c => exact (keeps_addClause c).bind (fun _ => .pure _) b h
      | graph id d =>
          have hGrounded : (Constraint.graph id d).Grounded b.names.size b.graphs := hProper
          exact (ends_addDemand h hGrounded).andThen fun _ _ hSound => hSound
  | require l => exact (keeps_addClause (.unit l)).bind (fun _ => .pure _) b h
  | completeGraph vertexCount => exact (keeps_completeGraph vertexCount).bind (fun _ => .pure _) b h
  | addGraph g => exact (keeps_addGraph g).bind (fun _ => .pure _) b h
  | demand graph d => exact (keeps_demand graph d).bind (fun _ => .pure _) b h
  | boundEdges graph min max => exact (keeps_boundEdges graph min max).bind (fun _ => .pure _) b h

theorem sound_empty : empty.Sound :=
  ⟨rfl, by simp [empty], by simp [empty], by simp [empty]⟩

/-- The tables stay sound through proper requests. -/
theorem Sound.run (requests : List Request) :
    ∀ b : Builder, b.Sound → b.Proper requests → (b.run requests).Sound := by
  induction requests with
  | nil => exact fun b h _ => h
  | cons request requests ih => exact fun b h hProper => ih _ (h.leftBy hProper.1) hProper.2

end Builder

/-- A problem that a builder makes after some requests, and whose numbers of propositions
and of true literals fit 32 bits. Clauses on more literals than that are left out, as are
demands that somebody else has made for a graph that the builder has not taken in. -/
def Problem.Built (p : Problem) : Prop :=
  ∃ requests, p = (Builder.after requests).toProblem ∧ Builder.empty.Proper requests ∧ p.Fits

/-- Problems that were built are well-formed. -/
theorem Problem.Built.wellFormed {p : Problem} (h : p.Built) : p.WellFormed := by
  obtain ⟨requests, rfl, hProper, hFits⟩ := h
  exact (Builder.Sound.run requests _ Builder.sound_empty hProper).wellFormed hFits

/-- A small problem: a clause with a repeated literal, and two demands on a graph
with a loop and a double edge. -/
def Problem.small : Problem :=
  Builder.toProblem <| Builder.after [
    .newPropositions "x" 3,
    .addClause (.exactly [⟨1⟩, ⟨1⟩, ⟨-2⟩] 3),
    .addGraph ⟨2, #[⟨0, 1, 1⟩, ⟨1, 1, 2⟩, ⟨1, 0, 3⟩], by decide⟩,
    .demand 0 .whole,
    .demand 0 (.pair 0 1)]

theorem Problem.built_small : small.Built :=
  ⟨_, rfl, ⟨trivial, trivial, trivial, trivial, trivial, trivial⟩, by decide, by decide⟩

end LocalRepair
