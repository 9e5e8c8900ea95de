import LocalRepair.Graph.Basic

/-!
# Shortest paths

A breadth-first search over the present edges. The queue holds the vertices
that were reached but not yet looked around from. For every vertex except the
source the search notes the edge along which it was reached. Once the target is
reached, the path is read off backwards: from the target along its noted edge to
the other end of that edge, and on from there, until a vertex without a noted
edge. Edges are tried in the order of the graph, and the search ends the moment
the target is reached, so of several shortest paths the one found is always the
same.

Presence is asked edge by edge, as the search comes to it: an edge that the
assignment does not cover is a fault only if the search needs it.

Every vertex enters the queue at most once, and the way back comes to no vertex
twice. So as many rounds as there are vertices empty the queue, as many steps as
there are vertices lead back to the source, and the number of vertices serves as
fuel for both.

## Main definitions

* `Graph.walkBack`: the noted edges from a vertex back to the source.
* `Graph.pathWithin`: the search with its fuel.
* `Graph.shortestPath`: the edges of a shortest path, none when there is none.
-/

namespace LocalRepair.Graph

/-- A search under way: which vertices were reached, along which edges, and the
queue. -/
structure Frontier (g : Graph) where
  reached : Vector Bool g.vertexCount
  via : Vector (Option g.EdgeId) g.vertexCount
  queue : List g.Vertex

namespace Frontier

variable {g : Graph}

/-- The search before its first round. -/
def start (source : g.Vertex) : Frontier g :=
  { reached := withEntry (Vector.replicate g.vertexCount false) source true
    via := Vector.replicate g.vertexCount none
    queue := [source] }

/-- The search after it reached a vertex along an edge. -/
def reach (search : Frontier g) (w : g.Vertex) (e : g.EdgeId) : Frontier g :=
  { reached := withEntry search.reached w true
    via := withEntry search.via w (some e)
    queue := search.queue ++ [w] }

end Frontier

/-- The noted edges on the way back from a vertex, the edge at the vertex first. -/
def walkBack (g : Graph) (via : Vector (Option g.EdgeId) g.vertexCount) :
    Nat → g.Vertex → List g.EdgeId
  | 0, _ => []
  | steps + 1, v =>
    match via.get v with
    | none => []
    | some e => e :: walkBack g via steps ((g.edge e).opposite v)

/-- Looks along some edges at vertex `v`. The result is the path, once the target
is reached, or the search with the vertices that were reached for the first time. -/
def lookAround (g : Graph) (present : g.EdgeId → Except Fault Bool) (target steps : Nat)
    (v : g.Vertex) : List g.EdgeId → Frontier g → Except Fault (List g.EdgeId ⊕ Frontier g)
  | [], search => .ok (.inr search)
  | e :: rest, search => do
    if ← present e then
      let w := (g.edge e).opposite v
      let further := search.reach w e
      if search.reached.get w then lookAround g present target steps v rest search
      else if w.val = target then return .inl (walkBack g further.via steps w).reverse
      else lookAround g present target steps v rest further
    else lookAround g present target steps v rest search

/-- Takes vertices from the queue until the target is reached or the queue is
empty. -/
def explore (g : Graph) (present : g.EdgeId → Except Fault Bool) (target steps : Nat) :
    Nat → Frontier g → Except Fault (Option (List g.EdgeId))
  | 0, _ => .ok none
  | rounds + 1, search =>
    match search.queue with
    | [] => .ok none
    | v :: waiting => do
      match ← lookAround g present target steps v (g.incident v)
          { search with queue := waiting } with
      | .inl path => return some path
      | .inr search => explore g present target steps rounds search

/-- The search for a path from `source` to `target`, with so many rounds and so many
steps for the way back. From a number to itself the path is empty, and a target
that is no vertex is never reached; a source has to be a vertex. -/
def pathWithin (g : Graph) (a : Assignment) (rounds steps source target : Nat) :
    Except Fault (Option (List g.EdgeId)) := do
  if source = target then return some []
  else
    let source ← g.vertex source
    explore g (g.isPresent a) target steps rounds (.start source)

/-- The edges of a path from `source` to `target` with as few present edges as
possible, none when there is no path. -/
def shortestPath (g : Graph) (a : Assignment) (source target : Nat) :
    Except Fault (Option (List g.EdgeId)) :=
  g.pathWithin a g.vertexCount g.vertexCount source target

end LocalRepair.Graph
