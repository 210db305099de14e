import CutCover.Graph.Basic

/-!
# CutCover — graphs from edges

Builds the compressed rows of a graph from its list of edges. Every edge is checked first, in
order, and the first faulty one is named. The rows are then filled by a counting sort of the
*half-edges*, each edge seen from each of its endpoints: the lengths of the rows are counted,
summed up to the places where the rows begin, and the half-edges are put into their rows in the
order of the edges.

* `Edge.fault?`         — what is wrong with an edge.
* `Graph.halfEdges`     — the edges seen from their endpoints.
* `Graph.rowOffsets`    — where the rows begin.
* `Graph.placeHalfEdges` — the filled rows.
* `Graph.rowWeights`    — the sums of the weights in the rows.
* `Graph.ofEdges`       — the graph over a given number of nodes.
* `Graph.spanning`      — the graph over as many nodes as the edges mention.
-/

namespace CutCover

variable {R : Type} [Weight R]

-- ---------------------------------------------------------------------------
-- Validation
-- ---------------------------------------------------------------------------

/-- The first of the three faults an edge can have: an endpoint outside the graph, equal
endpoints, a weight that is not finite. -/
def Edge.fault? (numNodes : Nat) (e : Edge R) : Option EdgeFault :=
  if numNodes ≤ e.u ∨ numNodes ≤ e.v then some (.endpointOutside e.u e.v numNodes)
  else if e.u = e.v then some (.selfLoop e.u)
  else if Weight.isFinite e.weight then none
  else some (.nonFiniteWeight (Weight.toFloat e.weight))

namespace Graph

/-- Refuses a list of edges for its first faulty edge. `position` is the number of edges before the
list. -/
def validate (numNodes position : Nat) : List (Edge R) → Except Refusal Unit
  | [] => .ok ()
  | e :: rest =>
    match e.fault? numNodes with
    | some fault => .error (.invalidGraph position fault)
    | none => validate numNodes (position + 1) rest

-- ---------------------------------------------------------------------------
-- Compressed rows
-- ---------------------------------------------------------------------------

/-- Every edge from each of its endpoints: the row it belongs to and its entry there. -/
def halfEdges (edges : List (Edge R)) : List (Nat × Neighbor R) :=
  edges.flatMap fun e => [(e.u, ⟨e.v, e.weight⟩), (e.v, ⟨e.u, e.weight⟩)]

/-- Counts one more entry in a row. Counts stand one place after their row, where the next row will
begin. -/
def countEntry (counts : Array Nat) (row : Nat) : Checked (Array Nat) := do
  let count ← fetch counts (row + 1)
  store counts (row + 1) (count + 1)

/-- Adds the end of the rows before to the count of a row. -/
def addPreceding (offsets : Array Nat) (row : Nat) : Checked (Array Nat) := do
  let before ← fetch offsets row
  let count ← fetch offsets (row + 1)
  store offsets (row + 1) (count + before)

/-- Where the rows begin, and after the last of them where they end. -/
def rowOffsets (numNodes : Nat) (halves : List (Nat × Neighbor R)) : Checked (Array Nat) := do
  let counts ← (halves.map Prod.fst).foldlM countEntry (Array.replicate (numNodes + 1) 0)
  (List.range numNodes).foldlM addPreceding counts

/-- Puts one half-edge at the free place of its row and moves that place on. -/
def placeHalfEdge (rows : Array Nat × Array (Neighbor R)) (half : Nat × Neighbor R) :
    Checked (Array Nat × Array (Neighbor R)) := do
  let place ← fetch rows.1 half.1
  let adjacency ← store rows.2 place half.2
  let free ← store rows.1 half.1 (place + 1)
  return (free, adjacency)

/-- The rows filled with all half-edges, in order. -/
def placeHalfEdges (offsets : Array Nat) (halves : List (Nat × Neighbor R)) :
    Checked (Array (Neighbor R)) := do
  let empty := Array.replicate halves.length ⟨0, Weight.ofNat 0⟩
  let rows ← halves.foldlM placeHalfEdge (offsets, empty)
  return rows.2

/-- Adds the weight of one half-edge to its node. -/
def addWeight (degrees : Array R) (half : Nat × Neighbor R) : Checked (Array R) := do
  let degree ← fetch degrees half.1
  store degrees half.1 (degree + half.2.weight)

/-- The sum of the weights in each row, added up in the order of the edges. -/
def rowWeights (numNodes : Nat) (halves : List (Nat × Neighbor R)) : Checked (Array R) :=
  halves.foldlM addWeight (Array.replicate numNodes (Weight.ofNat 0))

-- ---------------------------------------------------------------------------
-- Graphs
-- ---------------------------------------------------------------------------

/-- The graph over `numNodes` nodes with the given edges. -/
def ofEdges (numNodes : Nat) (edges : List (Edge R)) : Fallible (Graph R) := do
  validate numNodes 0 edges
  let halves := halfEdges edges
  let offsets ← rowOffsets numNodes halves
  let adjacency ← placeHalfEdges offsets halves
  let weightedDegrees ← rowWeights numNodes halves
  return { numNodes, edges, offsets, adjacency, weightedDegrees }

/-- The largest of the words after the endpoints; none if there are no edges. This is one more than
the largest endpoint, unless that is the last word, which counts for nothing. -/
def spannedNodes (edges : List (Edge R)) : Nat :=
  edges.foldl (fun n e => max n (nextWord (max e.u e.v))) 0

/-- The graph over as many nodes as the edges need, if these can be counted. -/
def spanning (edges : List (Edge R)) : Fallible (Graph R) :=
  ofEdges (spannedNodes edges) edges

end Graph

end CutCover
