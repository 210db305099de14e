import CutCover.Refusal

/-!
# CutCover — kinds of problem

The four problems by name, for choosing one from a configuration. Several names are accepted for
each, in any mixture of ASCII upper and lower case; each kind is shown under one of them.

* `Kind.all`, `Kind.index` — the kinds in their usual order.
* `Kind.name`, `Kind.names`, `Kind.ofName` — their names.
-/

namespace CutCover

/-- A kind of problem. -/
inductive Kind where
  | maxCut
  | graphPartitioning
  | minimumVertexCover
  | maximumIndependentSet
deriving DecidableEq, Repr

namespace Kind

/-- All kinds, in their usual order. -/
def all : List Kind :=
  [maxCut, graphPartitioning, minimumVertexCover, maximumIndependentSet]

/-- The place of a kind among all kinds. -/
def index (kind : Kind) : Nat :=
  all.idxOf kind

/-- The name under which a kind is shown. -/
def name : Kind → String
  | maxCut => "maxcut"
  | graphPartitioning => "graph_partitioning"
  | minimumVertexCover => "minimum_vertex_cover"
  | maximumIndependentSet => "maximum_independent_set"

/-- The names that denote a kind, in lower case. -/
def names : Kind → List String
  | maxCut => ["maxcut", "max_cut"]
  | graphPartitioning => ["graph_partitioning", "partitioning"]
  | minimumVertexCover => ["minimum_vertex_cover", "vertex_cover", "mvc"]
  | maximumIndependentSet => ["maximum_independent_set", "independent_set", "mis"]

/-- The kind that a name in lower case denotes. -/
def ofLowerName? (lower : String) : Option Kind :=
  all.find? fun kind => lower ∈ kind.names

/-- The kind with a given name; the case of ASCII letters is ignored. -/
def ofName (text : String) : Except Refusal Kind :=
  let lower := text.map Char.toLower
  match ofLowerName? lower with
  | some kind => .ok kind
  | none => .error (.invalidConfig (.unknownKind lower))

end Kind

end CutCover
