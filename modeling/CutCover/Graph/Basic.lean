import CutCover.Refusal
import CutCover.Weight

/-!
# CutCover — graphs

An undirected graph with weighted edges over the nodes `0`, `1`, …, `numNodes - 1`. The edges are
kept in the order in which they were given; parallel edges are allowed and act as one edge with the
sum of their weights.

The adjacency is stored in compressed rows: the neighbours of node `i` are the entries from
`offsets[i]` up to `offsets[i + 1]`, and every edge has an entry in the row of each of its
endpoints. `CutCover.Graph.Build` fills the rows from the edges.

* `Edge`, `Neighbor`, `Graph` — the data.
* `Graph.neighbors`, `Graph.degree`, `Graph.weightedDegree` — what is known of a node.
* `Graph.totalWeight`, `Graph.numEdges` — what is known of the whole graph.
-/

namespace CutCover

/-- An undirected edge between two nodes. -/
structure Edge (R : Type) where
  u : Nat
  v : Nat
  weight : R
deriving DecidableEq, Repr

/-- An entry of a node's row: the node at the other end of an edge, and the weight of that edge. -/
structure Neighbor (R : Type) where
  node : Nat
  weight : R
deriving DecidableEq, Repr

/-- A graph with its adjacency. -/
structure Graph (R : Type) where
  numNodes : Nat
  edges : List (Edge R)
  offsets : Array Nat
  adjacency : Array (Neighbor R)
  weightedDegrees : Array R
deriving DecidableEq, Repr

namespace Graph

variable {R : Type}

/-- The number of edges, parallel ones counted apart. -/
def numEdges (g : Graph R) : Nat :=
  g.edges.length

/-- The row of a node, one entry for each edge at it; aborts outside the graph. -/
def neighbors (g : Graph R) (node : Nat) : Checked (List (Neighbor R)) := do
  let first ← fetch g.offsets node
  let last ← fetch g.offsets (node + 1)
  slice g.adjacency first last

/-- The number of edges at a node; aborts outside the graph. -/
def degree (g : Graph R) (node : Nat) : Checked Nat := do
  let last ← fetch g.offsets (node + 1)
  let first ← fetch g.offsets node
  difference last first

/-- The sum of the weights of the edges at a node; aborts outside the graph. -/
def weightedDegree (g : Graph R) (node : Nat) : Checked R :=
  fetch g.weightedDegrees node

/-- The sum of the weights of all edges. -/
def totalWeight [Weight R] (g : Graph R) : R :=
  Weight.total (g.edges.map Edge.weight)

/-- Refuses a graph without nodes or without edges, on which a solver has nothing to search. -/
def checkSearchable (g : Graph R) : Except Refusal Unit :=
  if g.numNodes = 0 ∨ g.numEdges = 0 then .error (.degenerateGraph g.numNodes g.numEdges)
  else .ok ()

/-- Refuses an assignment whose length is not the number of nodes. -/
def checkLength (g : Graph R) (length : Nat) : Except Refusal Unit :=
  if length = g.numNodes then .ok () else .error (.lengthMismatch g.numNodes length)

end Graph

end CutCover
