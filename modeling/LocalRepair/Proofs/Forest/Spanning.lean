import LocalRepair.Proofs.Forest.Union
import LocalRepair.Proofs.Graph.Walk

/-!
# What a forest knows about its graph

`Spans f present` says that a forest is right about a set of present edges. Its
classes are the pieces of the graph; its edges are present, join what the present
edges join, and contain no cycle; and both of its counters are what they count.

The invariant follows the forest through its life. The forest of no edge has it,
a union along an edge adds that edge to the present ones, and an edge that is
not in the forest can leave. An edge that *is* in the forest cannot leave, and
the forest is stale from then on, which is all that `Mirrors` leaves open: it
asks for the invariant only of a forest that is built.

## Main results

* `Spans.union`: a union adds an edge.
* `Spans.minus`: an edge outside the forest can leave.
* `buildFrom_spans`: a forest that is made from scratch is right.
* `Mirrors.note`: so is a forest that was told of a flip, unless it is stale.
* `Mirrors.bringUpToDate`: and then it is made right again.
-/

namespace LocalRepair.Forest

open LocalRepair.Graph (AllBridges Acyclic)

variable {g : Graph} {f f' : Forest g} {present : g.EdgeId → Prop} {e : g.EdgeId}

/-- The forest is right about a set of present edges. -/
structure Spans (f : Forest g) (present : g.EdgeId → Prop) : Prop where
  ranked : f.Ranked
  root_eq_iff : ∀ u v, f.root u = f.root v ↔ g.Joined present u v
  present_of_contains : ∀ e, f.contains e = true → present e
  joined_of_root_eq : ∀ u v, f.root u = f.root v → g.Joined (fun e => f.contains e = true) u v
  bridges : AllBridges g fun e => f.contains e = true
  size : f.size = f.joiningEdges.length
  components : f.components = f.roots.length
  total : f.size + f.components = g.vertexCount

/-! ## The edges of a forest -/

@[simp] theorem mem_joiningEdges : e ∈ f.joiningEdges ↔ f.contains e = true := by
  simp [joiningEdges, Graph.edgeIds]

/-- An edge that is recorded for the first time is one edge more. -/
theorem length_joiningEdges_of_contains (hNew : f.contains e = false)
    (h : ∀ d, f'.contains d = true ↔ f.contains d = true ∨ d = e) :
    f'.joiningEdges.length = f.joiningEdges.length + 1 := by
  have hNodup : ∀ f : Forest g, f.joiningEdges.Nodup :=
    fun f => (List.nodup_finRange _).filter _
  have hPerm : f'.joiningEdges.Perm (e :: f.joiningEdges) := by
    refine (List.perm_ext_iff_of_nodup (hNodup f') ?_).mpr ?_
    · exact List.nodup_cons.mpr ⟨by simp [hNew], hNodup f⟩
    · intro d
      simp only [mem_joiningEdges, List.mem_cons, h, or_comm]
  simpa using hPerm.length_eq

namespace Spans

theorem congr {other : g.EdgeId → Prop} (h : f.Spans present) (hIff : ∀ e, present e ↔ other e) :
    f.Spans other :=
  { h with
    root_eq_iff := fun u v => (h.root_eq_iff u v).trans (Graph.Joined.congr hIff)
    present_of_contains := fun e he => (hIff e).mp (h.present_of_contains e he) }

/-- Redirected parents leave a forest right. -/
theorem redirected (h : f.Spans present) (k : Redirected f f') : f'.Spans present := by
  have hContains : (fun e => f'.contains e = true) = fun e => f.contains e = true := by
    funext e
    rw [k.contains]
  have hEdges : f'.joiningEdges = f.joiningEdges :=
    List.filter_congr fun e _ => k.contains e
  exact
    { ranked := k.ranked
      root_eq_iff := fun u v => by rw [k.root, k.root, h.root_eq_iff]
      present_of_contains := fun e he => h.present_of_contains e (by rwa [k.contains] at he)
      joined_of_root_eq := fun u v huv => by
        rw [k.root, k.root] at huv
        rw [hContains]
        exact h.joined_of_root_eq u v huv
      bridges := by rw [hContains]; exact h.bridges
      size := by rw [k.size, hEdges, h.size]
      components := by rw [k.components, k.roots, h.components]
      total := by rw [k.size, k.components, h.total] }

/-- Whether a forest counts as built does not matter for what it knows. -/
theorem of_fields (h : f.Spans present) (built : Bool) (builds : Nat) :
    Spans { f with built, builds } present :=
  ⟨h.ranked, h.root_eq_iff, h.present_of_contains, h.joined_of_root_eq, h.bridges, h.size,
    h.components, h.total⟩

/-- The edges of the forest join what the present edges join. -/
theorem joined_contains_iff (h : f.Spans present) (u v : g.Vertex) :
    g.Joined (fun e => f.contains e = true) u v ↔ g.Joined present u v := by
  constructor
  · exact Graph.Joined.mono h.present_of_contains
  · intro huv
    exact h.joined_of_root_eq u v ((h.root_eq_iff u v).mpr huv)

/-- The roots represent the pieces of the graph. -/
theorem representatives (h : f.Spans present) : g.Representatives present f.roots := by
  constructor
  · intro v
    refine ⟨f.root v, ?_, ?_⟩
    · rw [mem_roots, h.ranked.root_root]
    · rw [← h.root_eq_iff, h.ranked.root_root]
  · refine (roots_nodup f).pairwise_of_forall_ne fun r hr s hs hNe hJoined => hNe ?_
    rw [mem_roots] at hr hs
    rw [← hr, ← hs]
    exact (h.root_eq_iff r s).mpr hJoined

/-- Every row of representatives is as long as the forest counts components. -/
theorem length_of_representatives (h : f.Spans present) {row : List g.Vertex}
    (hRow : g.Representatives present row) : row.length = f.components := by
  rw [h.components]
  exact hRow.length_eq h.representatives

/-! ## One edge more or less -/

/-- An edge between vertices of one class can be present or not. -/
theorem plus_of_same (h : f.Spans present) (hSame : f.root (g.edge e).a = f.root (g.edge e).b) :
    f.Spans (Graph.plus present e) := by
  have hJoined := (h.root_eq_iff _ _).mp hSame
  exact
    { h with
      root_eq_iff := fun u v =>
        (h.root_eq_iff u v).trans (Graph.Joined.plus_iff_of_joined hJoined).symm
      present_of_contains := fun d hd => Or.inl (h.present_of_contains d hd) }

/-- An edge that links two classes becomes an edge of the forest. -/
theorem plus_of_linked (h : f.Spans present)
    (hApart : f.root (g.edge e).a ≠ f.root (g.edge e).b)
    (hLinked : Linked f (g.edge e).a (g.edge e).b e f') : f'.Spans (Graph.plus present e) := by
  have hNew : f.contains e = false := by
    rw [Bool.eq_false_iff]
    intro hOld
    have hJoined := Graph.Joined.single (h.present_of_contains e hOld) (Graph.leads_ends g e)
    exact hApart ((h.root_eq_iff _ _).mpr hJoined)
  have hContains : (fun d => f'.contains d = true)
      = Graph.plus (fun d => f.contains d = true) e := by
    funext d
    exact propext (hLinked.contains d)
  have hRoots := hLinked.roots
  have hSize : f'.size = f'.joiningEdges.length := by
    rw [hLinked.size, h.size, length_joiningEdges_of_contains hNew hLinked.contains]
  have hComponents : f'.components = f'.roots.length := by
    rw [hLinked.components, h.components]
    omega
  have hTotal : f'.size + f'.components = g.vertexCount := by
    have hOld := h.total
    have hOldComponents := h.components
    rw [hLinked.size, hComponents]
    omega
  refine
    { ranked := hLinked.ranked
      root_eq_iff := fun u v => ?_
      present_of_contains := fun d hd =>
        ((hLinked.contains d).mp hd).imp (h.present_of_contains d) id
      joined_of_root_eq := fun u v huv => ?_
      bridges := ?_
      size := hSize
      components := hComponents
      total := hTotal }
  · rw [hLinked.root_eq_iff, Graph.Joined.plus_iff]
    simp only [h.root_eq_iff]
  · rw [hContains, Graph.Joined.plus_iff]
    rw [hLinked.root_eq_iff] at huv
    simpa only [h.root_eq_iff, ← h.joined_contains_iff] using huv
  · rw [hContains]
    refine h.bridges.plus fun hJoined => hApart ?_
    rwa [h.root_eq_iff, ← h.joined_contains_iff]

/-- A union along an edge adds it to the present ones. -/
theorem union (h : f.Spans present) (e : g.EdgeId) :
    (Forest.union (g.edge e).a (g.edge e).b e f).2.Spans (Graph.plus present e) := by
  by_cases hSame : f.root (g.edge e).a = f.root (g.edge e).b
  · exact (h.plus_of_same hSame).redirected (union_of_same h.ranked hSame).2
  · exact h.plus_of_linked hSame (union_of_apart h.ranked hSame).2

/-- An edge outside the forest can leave: the edges of the forest still join the
same vertices. -/
theorem minus (h : f.Spans present) (hOutside : f.contains e = false) :
    f.Spans (Graph.minus present e) := by
  have hPresent : ∀ d, f.contains d = true → Graph.minus present e d := by
    intro d hd
    refine ⟨h.present_of_contains d hd, ?_⟩
    rintro rfl
    rw [hOutside] at hd
    exact Bool.noConfusion hd
  refine
    { h with
      root_eq_iff := fun u v => ⟨fun huv => ?_, fun huv => ?_⟩
      present_of_contains := hPresent }
  · exact (h.joined_of_root_eq u v huv).mono hPresent
  · exact (h.root_eq_iff u v).mpr huv.of_minus

end Spans

/-! ## A forest from scratch -/

@[simp] theorem contains_clear (f : Forest g) (e : g.EdgeId) : f.clear.contains e = false :=
  Vector.getElem_replicate e.isLt

@[simp] theorem up_clear (f : Forest g) (v : g.Vertex) : f.clear.up v = v :=
  Vector.getElem_ofFn v.isLt

/-- Where every vertex is its own parent, nothing needs to rank above. -/
theorem ranked_clear (f : Forest g) : f.clear.Ranked :=
  fun v hv => absurd (up_clear f v) hv

@[simp] theorem root_clear (f : Forest g) (v : g.Vertex) : f.clear.root v = v :=
  (ranked_clear f).root_of_own (up_clear f v)

/-- The forest of no edge. -/
theorem clear_spans (f : Forest g) : f.clear.Spans fun _ => False := by
  have hNone : ∀ u v : g.Vertex, g.Joined (fun _ => False) u v ↔ u = v := by
    intro u v
    constructor
    · intro h
      cases h with
      | here => rfl
      | along _ hPresent _ => exact hPresent.elim
    · rintro rfl
      exact Graph.Joined.here
  have hEdges : f.clear.joiningEdges = [] := by
    simp [joiningEdges]
  have hRoots : f.clear.roots = g.vertices := by
    simp [roots]
  exact
    { ranked := ranked_clear f
      root_eq_iff := fun u v => by rw [root_clear, root_clear, hNone]
      present_of_contains := fun e he => by simp at he
      joined_of_root_eq := fun u v huv => by
        rw [root_clear, root_clear] at huv
        rw [huv]
        exact Graph.Joined.here
      bridges := AllBridges.of_none fun e => by simp
      size := by rw [hEdges]; rfl
      components := by rw [hRoots]; simp [clear, singletons, Graph.vertices]
      total := by simp [clear, singletons] }

/-- Unions along the present edges of a row add them. -/
theorem unionPresent_spans (isPresent : g.EdgeId → Bool) :
    ∀ (row : List g.EdgeId) (f : Forest g) (before : g.EdgeId → Prop), f.Spans before →
      (unionPresent isPresent row f).Spans
        fun e => before e ∨ (e ∈ row ∧ isPresent e = true) := by
  intro row
  induction row with
  | nil =>
      intro f before h
      exact h.congr fun e => by simp
  | cons d row ih =>
      intro f before h
      rw [unionPresent]
      by_cases hd : isPresent d = true
      · rw [if_pos hd]
        apply (ih _ _ (h.union d)).congr
        intro e
        simp only [Graph.plus, List.mem_cons]
        grind
      · rw [if_neg hd]
        apply (ih _ _ h).congr
        intro e
        simp only [List.mem_cons]
        grind

/-- A forest that is made from scratch is right, whatever it was before. -/
theorem buildFrom_spans (isPresent : g.EdgeId → Bool) (f : Forest g) :
    (f.buildFrom isPresent).Spans fun e => isPresent e = true := by
  have hUnions := unionPresent_spans isPresent g.edgeIds f.clear _ (clear_spans f)
  have hFresh : (unionPresent isPresent g.edgeIds f.clear).Spans
      fun e => isPresent e = true := by
    apply hUnions.congr
    intro e
    simp [Graph.edgeIds]
  exact hFresh.of_fields true _

/-! ## Keeping up with an assignment -/

/-- The forest is right about the edges an assignment makes present, as far as it
claims to be up to date. -/
def Mirrors (f : Forest g) (a : Assignment) : Prop :=
  f.built = true → f.Spans fun e => g.presentIn a e = true

/-- A forest that has not been built claims nothing. -/
theorem mirrors_of_stale {a : Assignment} (h : f.built = false) : f.Mirrors a := by
  intro hBuilt
  rw [h] at hBuilt
  exact Bool.noConfusion hBuilt

namespace Mirrors

variable {a : Assignment}

/-- A forest that is told what became of an edge stays right or becomes stale.
It may have known before. -/
theorem note {before : g.EdgeId → Prop} {isPresent : Bool}
    (h : f.built = true → f.Spans before)
    (hOther : ∀ d, d ≠ e → (before d ↔ g.presentIn a d = true))
    (hSelf : g.presentIn a e = isPresent) : (f.note e isPresent).Mirrors a := by
  cases isPresent with
  | true =>
      intro hBuilt
      by_cases hUp : f.built = true
      · have hAppeared : f.note e true = (union (g.edge e).a (g.edge e).b e f).2 := if_pos hUp
        rw [hAppeared]
        apply ((h hUp).union e).congr
        intro d
        by_cases hd : d = e
        · simp [Graph.plus, hd, hSelf]
        · simp [Graph.plus, hd, hOther d hd]
      · have hStale : f.note e true = f := if_neg hUp
        rw [hStale] at hBuilt
        exact absurd hBuilt hUp
  | false =>
      intro hBuilt
      by_cases hUp : f.built = true
      · cases hContains : f.contains e with
        | true =>
            have hStale : f.note e false = f.invalidate := by
              simp [Forest.note, noteGone, hUp, hContains]
            rw [hStale] at hBuilt
            exact Bool.noConfusion hBuilt
        | false =>
            have hKeep : f.note e false = f := by
              simp [Forest.note, noteGone, hContains]
            rw [hKeep]
            apply ((h hUp).minus hContains).congr
            intro d
            by_cases hd : d = e
            · simp [Graph.minus, hd, hSelf]
            · simp [Graph.minus, hd, hOther d hd]
      · have hKeep : f.note e false = f := by
          simp [Forest.note, noteGone, hUp]
        rw [hKeep] at hBuilt
        exact absurd hBuilt hUp

/-- A forest that is brought up to date is built and right, and it is left alone
if it was built already. -/
theorem bringUpToDate (h : f.Mirrors a) (hCovered : g.coveredBy a = true) :
    ∃ f', f.bringUpToDate a = .ok f' ∧ f'.built = true
      ∧ f'.Spans (fun e => g.presentIn a e = true) ∧ (f.built = true → f' = f) := by
  by_cases hBuilt : f.built = true
  · exact ⟨f, if_pos hBuilt, hBuilt, h hBuilt, fun _ => rfl⟩
  · refine ⟨f.buildFrom (g.presentIn a), ?_, rfl, buildFrom_spans _ f, fun hUp => ?_⟩
    · rw [Forest.bringUpToDate, if_neg hBuilt, rebuild, if_pos hCovered]
    · exact absurd hUp hBuilt

end Mirrors
end LocalRepair.Forest
