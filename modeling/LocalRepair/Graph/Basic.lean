import LocalRepair.Assignment

/-!
# Graphs whose edges are propositions

A graph has vertices `0 .. vertexCount - 1` and a row of edges, each backed by
a proposition of its own: the edge is present in an assignment exactly when its
proposition is true. Self-loops and several edges between the same vertices
are allowed.

A graph is made by adding edges one at a time, and adding checks the edge. What
the checks establish stays with the graph: endpoints are vertices by their
type, and no proposition backs two edges by the field `distinct`. Everything
after that works on vertices and edges of the graph and needs no checks. Only
numbers that come from outside are turned into vertices and edges first, by
`Graph.vertex` and `Graph.edgeNumber`.

## Main definitions

* `Graph`, `Graph.ofEdges`.
* `Graph.edgeBackedBy?`: the edge that a proposition backs.
* `Graph.inducedOn`: the part of a graph on some of its vertices.
* `Graph.crossingEdges`: the edges between two vertex sets.
* `Graph.presentIn`: the edges that an assignment makes present.
-/

namespace LocalRepair

/-- A table with another entry at a place that is in range by its type, as it is for
`Vector.get`. -/
def withEntry {α : Type} {n : Nat} (table : Vector α n) (i : Fin n) (x : α) : Vector α n :=
  table.set i x i.isLt

theorem get_withEntry {α : Type} {n : Nat} (table : Vector α n) (i j : Fin n) (x : α) :
    (withEntry table i x).get j = if j = i then x else table.get j := by
  show (table.set i x i.isLt)[j.val] = if j = i then x else table[j.val]
  rw [Vector.getElem_set]
  simp only [Fin.ext_iff, eq_comm]

/-- After a mark was set, the marked ones are this one and those that were marked before. -/
theorem marked_withEntry {n : Nat} {marks : Vector Bool n} {i j : Fin n} :
    (withEntry marks j true).get i = true ↔ i = j ∨ marks.get i = true := by
  rw [get_withEntry]
  by_cases h : i = j <;> simp [h]

/-- An edge between two of `n` vertices, present when its proposition is true.
-/
structure Edge (n : Nat) where
  a : Fin n
  b : Fin n
  proposition : Nat
  deriving DecidableEq, Repr

/-- The other end of an edge, seen from one of its ends. -/
def Edge.opposite (e : Edge n) (v : Fin n) : Fin n := if e.a = v then e.b else e.a

/-- Whether a vertex is an end of an edge. -/
def Edge.touches (e : Edge n) (v : Fin n) : Bool := e.a == v || e.b == v

/-- A graph. -/
structure Graph where
  vertexCount : Nat
  edges : Array (Edge vertexCount)
  distinct : (edges.toList.map Edge.proposition).Nodup

namespace Graph

/-- The vertices of a graph. -/
abbrev Vertex (g : Graph) : Type := Fin g.vertexCount

/-- Number of edges. -/
def edgeCount (g : Graph) : Nat := g.edges.size

/-- The edges of a graph, by their position in the row. -/
abbrev EdgeId (g : Graph) : Type := Fin g.edgeCount

/-- The edge at a position. -/
def edge (g : Graph) (e : g.EdgeId) : Edge g.vertexCount :=
  have inRow : e.val < g.edges.size := e.isLt
  g.edges[e.val]

/-- All edges in order. -/
def edgeIds (g : Graph) : List g.EdgeId := List.finRange g.edgeCount

/-- All vertices in order. -/
def vertices (g : Graph) : List g.Vertex := List.finRange g.vertexCount

/-- The propositions that back the edges, in the order of the edges. -/
def propositions (g : Graph) : List Nat := g.edges.toList.map Edge.proposition

/-! ## Making graphs -/

/-- A graph without edges. -/
def edgeless (vertexCount : Nat) : Graph :=
  { vertexCount, edges := #[], distinct := List.nodup_nil }

/-- Adds an edge. The first end is checked first, then the second, then the
proposition. -/
def addEdge (g : Graph) (a b proposition : Nat) : Except Rejection Graph :=
  if ha : a < g.vertexCount then
    if hb : b < g.vertexCount then
      if hp : proposition ∈ g.edges.toList.map Edge.proposition then
        .error (.sharedProposition proposition)
      else
        .ok {
          vertexCount := g.vertexCount
          edges := g.edges.push ⟨⟨a, ha⟩, ⟨b, hb⟩, proposition⟩
          distinct := by
            simp only [Array.toList_push, List.map_append, List.map_cons, List.map_nil]
            refine List.nodup_append.mpr ⟨g.distinct, by simp, ?_⟩
            intro p hMem q hLast hEq
            simp only [List.mem_singleton] at hLast
            exact hp (hLast ▸ hEq ▸ hMem) }
    else .error (.unknownVertex b g.vertexCount)
  else .error (.unknownVertex a g.vertexCount)

/-- A graph with the given edges; the first edge that fails is reported. -/
def ofEdges (vertexCount : Nat) (edges : List (Nat × Nat × Nat)) : Except Rejection Graph :=
  edges.foldlM (fun g (a, b, proposition) => g.addEdge a b proposition) (edgeless vertexCount)

/-! ## Numbers from outside -/

/-- The vertex with a number. -/
def vertex (g : Graph) (v : Nat) : Except Fault g.Vertex :=
  if h : v < g.vertexCount then .ok ⟨v, h⟩ else .error .outOfRange

/-- The edge with a number. -/
def edgeNumber (g : Graph) (e : Nat) : Except Fault g.EdgeId :=
  if h : e < g.edgeCount then .ok ⟨e, h⟩ else .error .outOfRange

/-- The first number of the list that is no vertex is reported. -/
def checkVertices (g : Graph) (vs : List Nat) : Except Rejection Unit :=
  match vs.find? fun v => decide (g.vertexCount ≤ v) with
  | some v => .error (.unknownVertex v g.vertexCount)
  | none => .ok ()

/-! ## Asking a graph -/

/-- The edge that a proposition backs. -/
def edgeBackedBy? (g : Graph) (proposition : Nat) : Option g.EdgeId :=
  g.edgeIds.find? fun e => (g.edge e).proposition == proposition

/-- The edges at a vertex, in order. -/
def incident (g : Graph) (v : g.Vertex) : List g.EdgeId :=
  g.edgeIds.filter fun e => (g.edge e).touches v

/-- The edges with one end in each of two vertex sets, in order. -/
def crossingEdges (g : Graph) (left right : List Nat) : List g.EdgeId :=
  g.edgeIds.filter fun e =>
    let (a, b) := ((g.edge e).a.val, (g.edge e).b.val)
    (left.contains a && right.contains b) || (left.contains b && right.contains a)

/-- Whether an edge is present. -/
def isPresent (g : Graph) (a : Assignment) (e : g.EdgeId) : Except Fault Bool :=
  a.value (g.edge e).proposition

/-- Whether an assignment has a value for every edge. -/
def coveredBy (g : Graph) (a : Assignment) : Bool :=
  g.propositions.all fun p => decide (p < a.values.size)

/-- The present edges of an assignment, as a total function. On a graph that
the assignment covers it agrees with `isPresent`. -/
def presentIn (g : Graph) (a : Assignment) (e : g.EdgeId) : Bool :=
  a.isTrue (g.edge e).proposition

/-! ## Parts of a graph -/

/-- The last position of a number in a list. -/
def lastPosition? (x : Nat) : List Nat → Option Nat
  | [] => none
  | y :: rest =>
    match lastPosition? x rest with
    | some i => some (i + 1)
    | none => if x = y then some 0 else none

/-- The graph on the listed vertices, renumbered in the order of the list, with
the edges that have both ends in the list. Edges keep their propositions. A
vertex that is listed twice counts twice, and its edges go to the later one. -/
def inducedOn (g : Graph) (vs : List Nat) : Except Rejection Graph := do
  g.checkVertices vs
  ofEdges vs.length <| g.edges.toList.filterMap fun e => do
    return (← lastPosition? e.a.val vs, ← lastPosition? e.b.val vs, e.proposition)

end Graph
end LocalRepair
