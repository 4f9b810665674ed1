import Mathlib.Data.List.Nodup
import LinkedCommit.Commitment.Relationship
/-!
# The quads of a dataset and their identities

`Dataset.identified` lists the quads graph by graph; `mem_identified_iff` says that it lists what
`Dataset.lookup` finds, and `identified_nodup` that no identity is listed twice.  Two quads of a
graph form one property when they have the same subject and predicate (`sameProperty`).
-/

set_option autoImplicit false

namespace LinkedCommit

abbrev Item := QuadId × Quad

theorem mem_identified_of_graph {graph : String} {quads : List Quad} {item : Item} :
    item ∈ identified graph quads ↔ item.1.graph = graph ∧ quads[item.1.index]? = some item.2 := by
  obtain ⟨⟨name, index⟩, q⟩ := item
  simp only [identified, List.mem_map, Prod.mk.injEq, QuadId.mk.injEq]
  constructor
  · rintro ⟨⟨q', i⟩, member, ⟨rfl, rfl⟩, rfl⟩
    exact ⟨rfl, List.mem_zipIdx_iff_getElem?.mp member⟩
  · rintro ⟨rfl, found⟩
    exact ⟨(q, index), List.mem_zipIdx_iff_getElem?.mpr found, ⟨rfl, rfl⟩, rfl⟩

theorem identified_ids_nodup (graph : String) (quads : List Quad) :
    ((identified graph quads).map Prod.fst).Nodup := by
  have ids : (identified graph quads).map Prod.fst =
      (List.range' 0 quads.length).map fun i => QuadId.mk graph i := by
    rw [identified, List.map_map, ← List.zipIdx_map_snd, List.map_map]
    rfl
  rw [ids]
  refine List.Nodup.map ?_ List.nodup_range'
  intro i j same
  exact (QuadId.mk.inj same).2

namespace Dataset

variable {d : Dataset}

theorem lookup_eq_ok_iff {id : QuadId} {q : Quad} :
    d.lookup id = .ok q ↔ ∃ quads, d.graph? id.graph = some quads ∧ quads[id.index]? = some q := by
  rw [lookup]
  cases found : (d.graph? id.graph).bind fun quads => quads[id.index]? with
  | none =>
      rw [Option.bind_eq_none_iff] at found
      constructor
      · intro absurd
        cases absurd
      · rintro ⟨quads, graph, there⟩
        rw [found quads graph] at there
        cases there
  | some q' =>
      obtain ⟨quads, graph, there⟩ := Option.bind_eq_some_iff.mp found
      simp [graph, there, eq_comm]

theorem graph?_eq_some_iff {name : String} {quads : List Quad} :
    d.graph? name = some quads ↔ (name, quads) ∈ d.graphs :=
  d.sorted.get?_eq_some_iff

theorem mem_identified_iff {item : Item} :
    item ∈ d.identified ↔ d.lookup item.1 = .ok item.2 := by
  rw [lookup_eq_ok_iff, identified, List.mem_flatMap]
  simp only [mem_identified_of_graph, graph?_eq_some_iff, Prod.exists]
  constructor
  · rintro ⟨name, quads, member, same, found⟩
    exact ⟨quads, same ▸ member, found⟩
  · rintro ⟨quads, member, found⟩
    exact ⟨item.1.graph, quads, member, rfl, found⟩

theorem identified_nodup (d : Dataset) : (d.identified.map Prod.fst).Nodup := by
  rw [identified, List.map_flatMap, List.nodup_flatMap]
  refine ⟨fun graph _ => identified_ids_nodup graph.1 graph.2, ?_⟩
  have apart := List.pairwise_map.mp d.sorted
  refine apart.imp ?_
  intro a b before id inA inB
  obtain ⟨itemA, memberA, rfl⟩ := List.mem_map.mp inA
  obtain ⟨itemB, memberB, sameId⟩ := List.mem_map.mp inB
  have sameGraph : a.1 = b.1 := by
    rw [← (mem_identified_of_graph.mp memberA).1, ← (mem_identified_of_graph.mp memberB).1, sameId]
  exact String.lt_irrefl _ (sameGraph ▸ before)

theorem item_eq_of_id_eq {a b : Item} (memberA : a ∈ d.identified) (memberB : b ∈ d.identified)
    (same : a.1 = b.1) : a = b := by
  rw [mem_identified_iff] at memberA memberB
  rw [same, memberB] at memberA
  exact Prod.ext same (Except.ok.inj memberA).symm

end Dataset

/-! ## Properties -/

def Quad.sameProperty (a b : Quad) : Bool := a.subject = b.subject && a.predicate = b.predicate

end LinkedCommit
