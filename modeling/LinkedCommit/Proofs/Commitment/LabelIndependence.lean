import Mathlib.Data.List.Count
import Mathlib.Logic.Equiv.Basic
import LinkedCommit.Commitment.Extract
import LinkedCommit.Proofs.Relationship.Relabelling
/-!
# Entries do not depend on labels

The labels of blank nodes are no part of a commitment: under other labels a dataset has the same
entries, in the same order, or fails for the same reason (`extractEntries_relabelled`).  The paths
are the same by `Relabelling.path_renames`; what is left are the values, for which a blank node is
only asked whether something hangs under it, and their numbers, for which the statements of a
property are counted.
-/

set_option autoImplicit false

namespace LinkedCommit

namespace Relabelling

variable (ρ : Relabelling)

/-! ## Validity -/

theorem label_eq_defaultGraph_iff {name : String} :
    ρ.label name = defaultGraph ↔ name = defaultGraph := by
  rw [← ρ.label_eq_iff (a := name), ρ.label_defaultGraph]

theorem isEmpty_label (name : String) : (ρ.label name).isEmpty = name.isEmpty := by
  rw [Bool.eq_iff_iff, String.isEmpty_iff, String.isEmpty_iff, ← ρ.label_eq_iff (a := name),
    ρ.label_empty]

theorem validateQuad_renames (name : String) (q : Quad) :
    ρ.Renames id (validateQuad name q) (validateQuad (ρ.label name) (ρ.quad q)) := by
  have predicate : ρ.Renames id (discard q.predicateIri) (discard (ρ.quad q).predicateIri) :=
    (ρ.predicateIri_renames q).bind fun _ => .ok
  have graph : (ρ.quad q).graph = q.graph.map ρ.term := rfl
  unfold validateQuad
  rw [graph]
  cases q.graph with
  | none =>
      simp only [Option.map_none, ne_eq, ρ.label_eq_defaultGraph_iff]
      split
      · exact .error
      · exact predicate
  | some node =>
      have named : ρ.term node = .blank (ρ.label name) ↔ node = .blank name :=
        ρ.term_injective.eq_iff (b := .blank name)
      simp only [Option.map_some, ne_eq, ρ.label_eq_defaultGraph_iff, named]
      split
      · exact .error
      · split
        · exact .error
        · exact predicate

theorem validateDataset_renames {d d' : Dataset} (renamed : d'.graphs = d.graphs.map ρ.graph) :
    ρ.Renames id (validateDataset d) (validateDataset d') := by
  rw [validateDataset, validateDataset, renamed]
  refine Renames.forM fun g => ?_
  obtain ⟨name, quads⟩ := g
  dsimp only [graph]
  rw [ρ.isEmpty_label]
  split
  · exact .error
  · exact Renames.forM (ρ.validateQuad_renames name)

/-! ## Entries -/

theorem objectValue_renames (r : Relationships) (prime : Nat) (i : QuadId) (q : Quad) :
    ρ.Renames id (Extract.objectValue r prime i q)
      (Extract.objectValue (ρ.relationships r) prime (ρ.quadId i) (ρ.quad q)) := by
  obtain ⟨subject, predicate, object, graph⟩ := q
  cases object with
  | iri name => exact .ok
  | blank label =>
      dsimp only [Extract.objectValue, quad, term]
      rw [ρ.hasChildren_quadId]
      split
      · exact .ok
      · exact .error
  | literal l => exact .mapError (fun _ => rfl) _

section Datasets

variable {d d' : Dataset} (renamed : d'.graphs = d.graphs.map ρ.graph)

include renamed

theorem graphEntries_renames (r : Relationships) (prime : Nat) (keys valued : List PropertyKey)
    (items : List (QuadId × Quad)) :
    ρ.Renames id (Extract.graphEntries d r prime keys valued items)
      (Extract.graphEntries d' (ρ.relationships r) prime (keys.map ρ.key) (valued.map ρ.key)
        (items.map ρ.item)) := by
  induction items generalizing valued with
  | nil => exact .ok
  | cons item rest ih =>
      obtain ⟨i, q⟩ := item
      rw [List.map_cons, item, Extract.graphEntries, Extract.graphEntries]
      refine (ρ.objectValue_renames r prime i q).bind fun found => ?_
      cases found with
      | none => exact ih valued
      | some found =>
          obtain ⟨value, datatype⟩ := found
          refine (ρ.ofQuad_renames q i.graph).bind fun key => ?_
          dsimp only
          -- The number of a value counts keys, and different keys stay different.
          rw [List.count_map_of_injective keys ρ.key ρ.key_injective,
            List.count_map_of_injective valued ρ.key ρ.key_injective]
          refine (ρ.path_renames renamed r i _).bind fun path => ?_
          refine (Renames.mapError (fun _ => rfl) (Entry.make path value datatype)).bind fun e => ?_
          exact (ih (key :: valued)).bind fun others => .ok

theorem graph_renames (r : Relationships) (prime : Nat) (name : String) (quads : List Quad) :
    ρ.Renames id
      (do
        let keys ← quads.mapM fun q => PropertyKey.ofQuad q name
        Extract.graphEntries d r prime keys [] (identified name quads))
      (do
        let keys ← (quads.map ρ.quad).mapM fun q => PropertyKey.ofQuad q (ρ.label name)
        Extract.graphEntries d' (ρ.relationships r) prime keys []
          (identified (ρ.label name) (quads.map ρ.quad))) := by
  refine (Renames.mapM fun q => ρ.ofQuad_renames q name).bind fun keys => ?_
  rw [ρ.identified_map]
  exact ρ.graphEntries_renames renamed r prime keys [] (identified name quads)

theorem extractEntries_renames (prime : Nat) :
    ρ.Renames id (extractEntries d prime) (extractEntries d' prime) := by
  refine (ρ.validateDataset_renames renamed).bind fun _ => ?_
  refine (ρ.ofDataset_renames renamed).bind fun r => ?_
  rw [renamed]
  have each := fun g : String × List Quad => ρ.graph_renames renamed r prime g.1 g.2
  refine (Renames.mapM each).bind fun lists => ?_
  rw [List.map_id]
  exact .ok

end Datasets

def exchange (a b : String) (first : a.startsWith "_:" = true)
    (second : b.startsWith "_:" = true) : Relabelling where
  label := Equiv.swap a b
  injective := (Equiv.swap a b).injective
  unmarked := by
    intro text plain
    refine Equiv.swap_apply_of_ne_of_ne ?_ ?_
    · rintro rfl
      exact Bool.noConfusion (plain.symm.trans first)
    · rintro rfl
      exact Bool.noConfusion (plain.symm.trans second)

end Relabelling

/-- Under other labels, a dataset has the same entries in the same order, or fails for the same
reason, told of the relabelled quads. -/
theorem extractEntries_relabelled (ρ : Relabelling) (d : Dataset) (keeps : ρ.KeepsOrder d)
    (prime : Nat) :
    extractEntries (ρ.dataset d keeps) prime = (extractEntries d prime).mapError ρ.error := by
  have renames : extractEntries (ρ.dataset d keeps) prime =
      ((extractEntries d prime).map id).mapError ρ.error :=
    ρ.extractEntries_renames rfl prime
  rw [renames]
  cases extractEntries d prime <;> rfl

/-- Two blank nodes are children of one property, and a graph hangs under one of them.  The labels
of the graph and of that child are exchanged. -/
theorem extractEntries_exchanged :
    let ρ := Relabelling.exchange "_:a" "_:g" (by decide +kernel) (by decide +kernel)
    let text (s : String) : Term := .literal ⟨s, Xsd.string, none⟩
    let d := Dataset.ofQuads
      [⟨.iri "urn:s", .iri "urn:p", .blank "_:b", none⟩,
       ⟨.iri "urn:s", .iri "urn:p", .blank "_:a", none⟩,
       ⟨.blank "_:a", .iri "urn:q", .blank "_:g", none⟩,
       ⟨.blank "_:b", .iri "urn:q", text "x", none⟩,
       ⟨.iri "urn:t", .iri "urn:r", text "y", some (.blank "_:g")⟩]
    ∃ keeps : ρ.KeepsOrder d, ρ.dataset d keeps ≠ d ∧
      extractEntries (ρ.dataset d keeps) 101 = .ok
        [⟨⟨[.term "urn:p", .index 1, .term "urn:q"]⟩, .string "x", Xsd.string⟩,
         ⟨⟨[.term "urn:p", .index 0, .term "urn:q", .term "urn:r"]⟩, .string "y", Xsd.string⟩] := by
  intro ρ text d
  have keeps : ρ.KeepsOrder d := by decide +kernel
  have others : d.graphs.map ρ.graph ≠ d.graphs := by decide +kernel
  refine ⟨keeps, fun same => others (congrArg Dataset.graphs same), ?_⟩
  exact (extractEntries_relabelled ρ d keeps 101).trans (by decide +kernel)

end LinkedCommit
