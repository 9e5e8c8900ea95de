import LocalRepair.Graph.Basic

/-!
# Spanning forests, rebuilt lazily

Which vertices of a graph are connected by present edges is kept as a union-find
structure. An edge that appears is a union, which is cheap. An edge that
disappears is another matter, as unions cannot be undone. But only an edge that
once joined two classes can matter: those *forest edges* are recorded, and when
one of them disappears the structure is marked stale and rebuilt from the
present edges the next time somebody needs it. When any other edge disappears
nothing changes, because the forest edges alone still connect the same vertices.

Classes are joined by rank, and asking for the root of a vertex makes every
vertex on the way point to the root directly. Asking is therefore a step with a
state, `Query`, although it changes no answer to any question.

## Main definitions

* `Forest`, `Forest.singletons`.
* `Forest.root`: the root of a vertex. Following parents as often as there are
  vertices is enough, because ranks grow on the way.
* `Forest.find`, `Forest.joined`: the same with path compression.
* `Forest.union`, `Forest.bridges`.
* `Forest.noteAppeared`, `Forest.noteGone`, `Forest.bringUpToDate`,
  `Forest.rebuild`: keeping up with an assignment.
-/

namespace LocalRepair

/-- A union-find structure over the vertices of a graph, with the edges that
joined classes. `components` counts the classes, `size` the forest edges, and
`builds` how often the structure was built from scratch. `built` says whether
it is up to date. -/
structure Forest (g : Graph) where
  parent : Vector g.Vertex g.vertexCount
  rank : Vector Nat g.vertexCount
  joining : Vector Bool g.edgeCount
  size : Nat
  components : Nat
  built : Bool
  builds : Nat

namespace Forest

variable {g : Graph}

/-- Every vertex is its own parent. -/
def ownParents (g : Graph) : Vector g.Vertex g.vertexCount :=
  Vector.ofFn id

/-- Every vertex is a class of its own, and nothing has been built yet. -/
def singletons (g : Graph) : Forest g :=
  { parent := ownParents g
    rank := Vector.replicate g.vertexCount 0
    joining := Vector.replicate g.edgeCount false
    size := 0
    components := g.vertexCount
    built := false
    builds := 0 }

/-- Takes all classes apart. -/
def clear (f : Forest g) : Forest g :=
  { singletons g with built := f.built, builds := f.builds }

/-! ## Roots and classes -/

/-- The vertex that is reached by following parents at most `steps` times. -/
def climb (parent : Vector (Fin n) n) : Nat → Fin n → Fin n
  | 0, v => v
  | steps + 1, v => if parent[v] = v then v else climb parent steps parent[v]

/-- The root of a vertex. -/
def root (f : Forest g) (v : g.Vertex) : g.Vertex := climb f.parent g.vertexCount v

/-- Makes the vertices from `v` upwards point to `root`, up to the one that
does so already. -/
def pointTo (root : Fin n) : Nat → Fin n → Vector (Fin n) n → Vector (Fin n) n
  | 0, _, parent => parent
  | steps + 1, v, parent =>
    if parent[v] = root then parent
    else pointTo root steps parent[v] (parent.set v root)

/-- A question to a forest. It may redirect parents on the way. -/
abbrev Query (g : Graph) (α : Type) : Type := StateM (Forest g) α

/-- The root of a vertex; everything on the way to it is made to point to it.
-/
def find (v : g.Vertex) : Query g g.Vertex := fun f =>
  let root := f.root v
  (root, { f with parent := pointTo root g.vertexCount v f.parent })

/-- Whether two vertices are in one class. -/
def joined (a b : g.Vertex) : Query g Bool := do
  return (← find a) == (← find b)

/-- The roots of some vertices, in order. -/
def findAll : List g.Vertex → Query g (List g.Vertex)
  | [] => return []
  | v :: rest => do
    let r ← find v
    return r :: (← findAll rest)

/-- Whether the root of some vertex is among `roots`; later vertices are left
alone once one is found. -/
def anyRootIn (roots : List g.Vertex) : List g.Vertex → Query g Bool
  | [] => return false
  | v :: rest => do
    let r ← find v
    if roots.contains r then return true else anyRootIn roots rest

/-! ## Joining classes -/

/-- Makes one of two different roots the parent of the other: the one with the
higher rank, or the first, which then gains a rank. -/
def linkRoots (f : Forest g) (ra rb : g.Vertex) : Forest g :=
  match compare f.rank[ra] f.rank[rb] with
  | .lt => { f with parent := f.parent.set ra rb }
  | .gt => { f with parent := f.parent.set rb ra }
  | .eq => { f with
      parent := f.parent.set rb ra
      rank := f.rank.set ra (f.rank[ra] + 1) }

/-- Records an edge as one that joined two classes. -/
def record (f : Forest g) (e : g.EdgeId) : Forest g :=
  { f with
    joining := withEntry f.joining e true
    size := f.size + 1
    components := f.components - 1 }

/-- Joins the classes of two vertices by an edge. The answer tells whether they
were different. -/
def union (a b : g.Vertex) (e : g.EdgeId) : Query g Bool := do
  let ra ← find a
  let rb ← find b
  if ra = rb then return false
  else
    modify fun f => (f.linkRoots ra rb).record e
    return true

/-- Whether two vertices are in different classes that the edge would join. -/
def bridges (f : Forest g) (a b : g.Vertex) (e : g.EdgeId) : Bool :=
  let (ra, rb) := (f.root a, f.root b)
  if ra = rb then false
  else
    let (ea, eb) := (f.root (g.edge e).a, f.root (g.edge e).b)
    (ea == ra && eb == rb) || (ea == rb && eb == ra)

/-- Whether an edge joined two classes. -/
def contains (f : Forest g) (e : g.EdgeId) : Bool := f.joining.get e

/-- The edges that joined classes, in order. -/
def joiningEdges (f : Forest g) : List g.EdgeId := g.edgeIds.filter f.contains

/-! ## Keeping up with an assignment -/

/-- Marks the forest as stale. -/
def invalidate (f : Forest g) : Forest g := { f with built := false }

/-- Takes note that an edge appeared. A stale forest is going to be rebuilt
anyway; a second note of the same edge changes nothing. -/
def noteAppeared (f : Forest g) (e : g.EdgeId) : Forest g :=
  if f.built then (union (g.edge e).a (g.edge e).b e f).2 else f

/-- Takes note that an edge disappeared. -/
def noteGone (f : Forest g) (e : g.EdgeId) : Forest g :=
  if f.built && f.contains e then f.invalidate else f

/-- Takes note that an edge appeared or disappeared. -/
def note (f : Forest g) (e : g.EdgeId) (present : Bool) : Forest g :=
  if present then f.noteAppeared e else f.noteGone e

/-- Joins the classes along the present edges, in the order of the graph. -/
def unionPresent (present : g.EdgeId → Bool) : List g.EdgeId → Forest g → Forest g
  | [], f => f
  | e :: rest, f =>
    unionPresent present rest
      (if present e then (union (g.edge e).a (g.edge e).b e f).2 else f)

/-- The forest of a set of present edges, made from scratch. -/
def buildFrom (present : g.EdgeId → Bool) (f : Forest g) : Forest g :=
  let fresh := unionPresent present g.edgeIds f.clear
  { fresh with built := true, builds := fresh.builds + 1 }

/-- Makes the forest of an assignment from scratch. The assignment has to cover
every edge. -/
def rebuild (f : Forest g) (a : Assignment) : Except Fault (Forest g) :=
  if g.coveredBy a then .ok (f.buildFrom (g.presentIn a)) else .error .outOfRange

/-- Makes the forest anew if it is stale. -/
def bringUpToDate (f : Forest g) (a : Assignment) : Except Fault (Forest g) :=
  if f.built then .ok f else f.rebuild a

/-! ## Numbers from outside -/

/-- Takes note that a numbered edge appeared or disappeared. A stale forest does
not look at the number. -/
def noteNumbered (f : Forest g) (e : Nat) (present : Bool) : Except Fault (Forest g) :=
  if f.built then do return f.note (← g.edgeNumber e) present else .ok f

/-- Joins the classes of two numbered vertices. The edge number matters only if
the classes differ, since only then is the edge recorded. -/
def unionNumbered (f : Forest g) (a b e : Nat) : Except Fault (Bool × Forest g) := do
  let a ← g.vertex a
  let b ← g.vertex b
  if f.root a = f.root b then return (false, (joined a b f).2)
  else return union a b (← g.edgeNumber e) f

/-- Whether two numbered vertices are in different classes that the edge would
join. The edge number matters only if the classes differ. -/
def bridgesNumbered (f : Forest g) (a b e : Nat) : Except Fault Bool := do
  let a ← g.vertex a
  let b ← g.vertex b
  if f.root a = f.root b then return false
  else return f.bridges a b (← g.edgeNumber e)

end Forest
end LocalRepair
