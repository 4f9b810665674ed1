import LinkedCommit.Rdf.Term
/-!
# Datasets

A dataset holds the statements of each graph in order, and the graphs sorted by their names.
-/

set_option autoImplicit false

namespace LinkedCommit

def defaultGraph : String := "@default"

def Quad.graphName (q : Quad) : String :=
  match q.graph with
  | none => defaultGraph
  | some (.iri name) => name
  | some (.blank label) => label
  | some (.literal l) => l.value

structure Dataset where
  graphs : NameMap (List Quad)
  sorted : graphs.Sorted
deriving DecidableEq

namespace Dataset

def empty : Dataset := ⟨[], List.Pairwise.nil⟩

instance : Inhabited Dataset := ⟨empty⟩

def push (d : Dataset) (q : Quad) : Dataset where
  graphs := NameMap.update q.graphName (fun quads => quads.getD [] ++ [q]) d.graphs
  sorted := d.sorted.update _ _

def setGraph (d : Dataset) (name : String) (quads : List Quad) : Dataset where
  graphs := NameMap.insert d.graphs name quads
  sorted := d.sorted.update _ _

def ofQuads (quads : List Quad) : Dataset := quads.foldl push empty

/-- The statements of a graph; none if there is no graph with the name. -/
def graph? (d : Dataset) (name : String) : Option (List Quad) := NameMap.get? d.graphs name

def size (d : Dataset) : Nat := d.graphs.foldl (fun n (_, quads) => n + quads.length) 0

def quads (d : Dataset) : List Quad := d.graphs.flatMap Prod.snd

end Dataset

end LinkedCommit
