import LocalRepair.Forest

/-!
# Demands on the connectivity of a graph

Four kinds of demand can be put on the present edges of a graph: the whole graph
is connected, it falls into a given number of pieces, two vertices are
connected, or some vertex of one set is connected to some vertex of another.

All four are answered from a spanning forest, and so is the estimate of what a
single edge would do: its *risk*. A negative risk promises that the edge helps,
a positive one that it hurts. Losing a forest edge is estimated as if nothing
could replace it.

A demand is written with vertex numbers. Before it is put to a graph it is
resolved into vertices of that graph, once, so that questions cannot go astray
on the way.

## Main definitions

* `Connectivity`, with the kind of vertex as a parameter.
* `Connectivity.check`: whether a graph admits the demand at all.
* `Connectivity.resolve`: the demand on the vertices of a graph.
* `Connectivity.isMet`: whether the demand holds, asked of an up-to-date forest.
* `Connectivity.risk`: the estimated effect of one edge.
-/

namespace LocalRepair

/-- A demand on the connectivity of a graph, with vertices named by `V`. -/
inductive Connectivity (V : Type) where
  /-- The graph is connected. -/
  | whole
  /-- The graph falls into `count` pieces. -/
  | pieces (count : Nat)
  /-- Two vertices are connected. -/
  | pair (source target : V)
  /-- Some vertex of `left` is connected to some vertex of `right`. -/
  | sides (left right : List V)
  deriving DecidableEq, Repr

namespace Connectivity

/-! ## Text -/

/-- The name of a kind of demand. -/
def kindName : Connectivity V → String
  | whole => "ConnectedConstraint"
  | pieces _ => "ComponentCountConstraint"
  | pair _ _ => "NodePairConnectedConstraint"
  | sides _ _ => "SubsetsConnectedConstraint"

/-- Vertex numbers in a row. -/
def listVertices (vs : List Nat) : String := ", ".intercalate (vs.map toString)

/-- The text of a demand on a numbered graph. -/
def describe (graph vertexCount : Nat) : Connectivity Nat → String
  | whole =>
    "graph #" ++ toString graph ++ " (" ++ toString vertexCount ++ " vertices) is connected"
  | pieces count =>
    "graph #" ++ toString graph ++ " has exactly " ++ toString count ++ " components"
  | pair source target =>
    toString source ++ " ~ " ++ toString target ++ " in graph #" ++ toString graph
  | sides left right =>
    "\x7b" ++ listVertices left ++ "\x7d ~ \x7b" ++ listVertices right ++ "\x7d in graph #"
      ++ toString graph

/-! ## Demands and graphs -/

/-- Whether a graph admits a demand: its vertices exist, its number of pieces is
possible, and neither of two sides is empty. Vertices come first. -/
def check (graph : Nat) (g : Graph) : Connectivity Nat → Except Rejection Unit
  | whole => .ok ()
  | pieces count =>
    if g.vertexCount < count ∨ (count = 0 ∧ 0 < g.vertexCount) then
      .error (.contradiction (.componentCount graph g.vertexCount count))
    else .ok ()
  | pair source target => g.checkVertices [source, target]
  | sides left right => do
    g.checkVertices (left ++ right)
    if left.isEmpty || right.isEmpty then throw (.contradiction (.emptySide graph))

/-- The demand on the vertices of a graph. -/
def resolve (g : Graph) : Connectivity Nat → Except Fault (Connectivity g.Vertex)
  | whole => .ok whole
  | pieces count => .ok (pieces count)
  | pair source target => do return pair (← g.vertex source) (← g.vertex target)
  | sides left right => do return sides (← left.mapM g.vertex) (← right.mapM g.vertex)

variable {g : Graph}

/-- Whether some root of `left` is a root of `right`. -/
def sidesMeet (left right : List g.Vertex) : Forest.Query g Bool := do
  Forest.anyRootIn (← Forest.findAll left) right

/-- Whether the demand holds, asked of a forest that is up to date. -/
def isMet : Connectivity g.Vertex → Forest.Query g Bool
  | whole => do return decide ((← get).components ≤ 1)
  | pieces count => do return (← get).components == count
  | pair source target => Forest.joined source target
  | sides left right => sidesMeet left right

/-! ## The effect of one edge -/

/-- What a number of pieces adds to the number of violated constraints. -/
def piecesPenalty (wanted count : Nat) : Int := if count = wanted then 0 else 1

/-- Whether an end of an edge is in the class of one of two vertices. -/
def touchesClass (source target : g.Vertex) : List g.Vertex → Forest.Query g Bool
  | [] => return false
  | v :: rest => do
    if ← Forest.joined v source then return true
    else if ← Forest.joined v target then return true
    else touchesClass source target rest

/-- The estimate for an edge that appears. Between vertices of one class it does
nothing. Otherwise it joins two classes: for the whole graph that is a step
forward, for a number of pieces the change is known exactly, and for a pair or
two sides it is decisive if it closes the gap and a step forward if it extends
one of the two. -/
def riskOfAdding (e : g.EdgeId) : Connectivity g.Vertex → Forest.Query g Int
  | whole => do
    if ← Forest.joined (g.edge e).a (g.edge e).b then return 0 else return -1
  | pieces wanted => do
    let count := (← get).components
    if ← Forest.joined (g.edge e).a (g.edge e).b then return 0
    else return piecesPenalty wanted (count - 1) - piecesPenalty wanted count
  | pair source target => do
    if ← Forest.joined source target then return 0
    else if ← Forest.joined (g.edge e).a (g.edge e).b then return 0
    else if (← get).bridges source target e then return -2
    else if ← touchesClass source target [(g.edge e).a, (g.edge e).b] then return -1
    else return 0
  | sides left right => do
    if ← sidesMeet left right then return 0
    else if ← Forest.joined (g.edge e).a (g.edge e).b then return 0
    else
      let left ← Forest.findAll left
      let right ← Forest.findAll right
      let ra ← Forest.find (g.edge e).a
      let rb ← Forest.find (g.edge e).b
      if (left.contains ra && right.contains rb) || (left.contains rb && right.contains ra) then
        return -2
      else if [ra, rb].any fun r => left.contains r || right.contains r then return -1
      else return 0

/-- The estimate for an edge that disappears. An edge that is not in the forest
does nothing, and one that is counts as a split of its class; a demand that is
not met has nothing to lose. An edge on the path that is kept for a pair weighs
twice. -/
def riskOfRemoving (e : g.EdgeId) (onPath : Bool) : Connectivity g.Vertex → Forest.Query g Int
  | whole => do if (← get).contains e then return 1 else return 0
  | pieces wanted => do
    let count := (← get).components
    if (← get).contains e then
      return piecesPenalty wanted (count + 1) - piecesPenalty wanted count
    else return 0
  | pair source target => do
    if ← Forest.joined source target then
      if onPath then return 2
      else if (← get).contains e then return 1
      else return 0
    else return 0
  | sides left right => do
    if ← sidesMeet left right then
      if (← get).contains e then return 1 else return 0
    else return 0

/-- The estimated effect on the number of violated constraints when an edge
appears or disappears. -/
def risk (demand : Connectivity g.Vertex) (e : g.EdgeId) (appears onPath : Bool) :
    Forest.Query g Int :=
  if appears then demand.riskOfAdding e else demand.riskOfRemoving e onPath

end Connectivity
end LocalRepair
