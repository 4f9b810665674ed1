import Mathlib.Data.Set.Finite.List
import LinkedCommit.Proofs.Commitment.Extraction
/-!
# What of a dataset is committed

Where extraction succeeds, every value has its one entry.  A quad with a blank object is committed
through the values below it: it is an ancestor of one of them, unless it is its own ancestor
(`extractEntries_covers`).  Such a quad passes for one with children, and as no value hangs below it
the cycle is never climbed.
-/

set_option autoImplicit false

namespace LinkedCommit

namespace Relationships

variable {d : Dataset} {r : Relationships}

/-- A way down that never ends comes back to its start, as a quad has one parent. -/
theorem cyclic_of_descent (way : Nat → QuadId) (down : ∀ n, r.Under (way (n + 1)) (way n))
    {ids : List QuadId} (inIds : ∀ n, way n ∈ ids) : Relation.TransGen r.Under (way 0) (way 0) := by
  have below : ∀ n, Relation.TransGen r.Under (way (n + 1)) (way 0) := by
    intro n
    induction n with
    | zero => exact .single (down 0)
    | succ n ih => exact .head (down (n + 1)) ih
  have back : ∀ n m, way n = way (n + m) → way 0 = way m := by
    intro n m same
    induction n with
    | zero => simpa using same
    | succ n ih =>
        have up := down n
        have up' := down (n + m)
        rw [Under, same, Nat.add_right_comm] at up
        exact ih (Option.some.inj (up.symm.trans up'))
  have notInjective : ¬ Function.Injective way := by
    intro injective
    exact Set.infinite_of_injective_forall_mem injective inIds ids.finite_toSet
  obtain ⟨n, m, lt, same⟩ : ∃ n m, n < m ∧ way n = way m := by
    simp only [Function.Injective, not_forall] at notInjective
    obtain ⟨n, m, same, differ⟩ := notInjective
    rcases Nat.lt_or_gt_of_ne differ with lt | lt
    · exact ⟨n, m, lt, same⟩
    · exact ⟨m, n, lt, same.symm⟩
  obtain ⟨k, rfl⟩ := Nat.exists_eq_add_of_lt lt
  have start := back n (k + 1) same
  have cycle := below k
  rwa [← start] at cycle

/-- Below a quad that is not its own ancestor there is a value, if every quad without a value has
something below it. -/
theorem exists_value_below (built : ofDataset d = .ok r)
    (blanks : ∀ item ∈ d.identified, item.2.isValue = false → r.hasChildren item.1 = true)
    {item : Item} (member : item ∈ d.identified)
    (acyclic : ¬ Relation.TransGen r.Under item.1 item.1) :
    ∃ leaf ∈ d.valued, Relation.ReflTransGen r.Under leaf.1 item.1 := by
  by_contra none
  have child : ∀ a : Item, a ∈ d.identified → Relation.ReflTransGen r.Under a.1 item.1 →
      ∃ b ∈ d.identified, r.Under b.1 a.1 := by
    intro a inDataset above
    have isBlank : a.2.isValue = false := by
      rw [← Bool.not_eq_true]
      intro isValue
      exact none ⟨a, List.mem_filter.mpr ⟨inDataset, isValue⟩, above⟩
    exact (hasChildren_iff built).mp (blanks a inDataset isBlank)
  choose! next nextIn nextUnder using child
  have invariant : ∀ n, next^[n] item ∈ d.identified ∧
      Relation.ReflTransGen r.Under (next^[n] item).1 item.1 := by
    intro n
    induction n with
    | zero => exact ⟨member, .refl⟩
    | succ n ih =>
        rw [Function.iterate_succ_apply']
        exact ⟨nextIn _ ih.1 ih.2, .head (nextUnder _ ih.1 ih.2) ih.2⟩
  refine acyclic (cyclic_of_descent (fun n => (next^[n] item).1) ?_
    fun n => List.mem_map_of_mem (invariant n).1)
  intro n
  rw [Function.iterate_succ_apply']
  exact nextUnder _ (invariant n).1 (invariant n).2

end Relationships

/-- Every value of a dataset has its one entry, in the order of the dataset; a quad with a blank
object is an ancestor of a value or of itself, never of both. -/
theorem extractEntries_covers {d : Dataset} {prime : Nat} {entries : List Entry}
    (extracted : extractEntries d prime = .ok entries) :
    ∃ r, Relationships.ofDataset d = .ok r ∧
      List.Forall₂ (Extract.Yields d r prime) d.valued entries ∧
      ∀ item ∈ d.identified, item.2.isValue = false →
        ((∃ leaf ∈ d.valued, ∃ chain, r.Lineage d leaf chain ∧ item ∈ chain) ↔
          ¬ Relation.TransGen r.Under item.1 item.1) := by
  obtain ⟨r, built, yields, blanks⟩ := Extract.extractEntries_eq_ok extracted
  refine ⟨r, built, yields, ?_⟩
  intro item member _
  constructor
  · rintro ⟨leaf, isLeaf, chain, lineage, inChain⟩
    obtain ⟨before, after, -, own, -⟩ := lineage.split inChain
    exact own.not_cyclic member
  · intro acyclic
    obtain ⟨leaf, isLeaf, above⟩ := Relationships.exists_value_below built blanks member acyclic
    obtain ⟨e, -, yielded⟩ := yields.exists_of_mem_left isLeaf
    have inDataset := List.mem_of_mem_filter isLeaf
    obtain ⟨chain, lineage, -⟩ := Relationships.path_eq_ok built inDataset yielded.path
    obtain ⟨a, inChain, same⟩ := lineage.mem_of_reflTransGen above
    have sameItem :=
      Dataset.item_eq_of_id_eq (lineage.mem_identified inDataset a inChain) member same
    exact ⟨leaf, isLeaf, chain, lineage, sameItem ▸ inChain⟩

/-- A blank node with a name is committed through the name, and two that refer to each other are
not. -/
theorem extractEntries_covers_beside_cycle :
    let refersTo (a : Term) (b : String) : Quad := ⟨a, .iri "urn:p", .blank b, none⟩
    let name : Quad := ⟨.blank "_:c", .iri "urn:name", .literal ⟨"x", Xsd.string, none⟩, none⟩
    let d := Dataset.ofQuads [refersTo (.blank "_:a") "_:b", refersTo (.blank "_:b") "_:a",
      refersTo (.iri "urn:r") "_:c", name]
    let lost : Item := (⟨defaultGraph, 0⟩, refersTo (.blank "_:a") "_:b")
    let kept : Item := (⟨defaultGraph, 2⟩, refersTo (.iri "urn:r") "_:c")
    ∃ r, extractEntries d 101 =
        .ok [⟨⟨[.term "urn:p", .term "urn:name"]⟩, .string "x", Xsd.string⟩] ∧
      Relationships.ofDataset d = .ok r ∧
      (∃ leaf ∈ d.valued, ∃ chain, r.Lineage d leaf chain ∧ kept ∈ chain) ∧
      ¬ ∃ leaf ∈ d.valued, ∃ chain, r.Lineage d leaf chain ∧ lost ∈ chain := by
  intro refersTo name d lost kept
  have extracted : extractEntries d 101 =
      .ok [⟨⟨[.term "urn:p", .term "urn:name"]⟩, .string "x", Xsd.string⟩] := by decide +kernel
  have evaluated : ∃ r, Relationships.ofDataset d = .ok r ∧ r.parent? kept.1 = none ∧
      r.parent? ⟨defaultGraph, 0⟩ = some ⟨defaultGraph, 1⟩ ∧
      r.parent? ⟨defaultGraph, 1⟩ = some ⟨defaultGraph, 0⟩ := by
    have computed : (Relationships.ofDataset d).passes (fun r => r.parent? kept.1 = none ∧
        r.parent? ⟨defaultGraph, 0⟩ = some ⟨defaultGraph, 1⟩ ∧
        r.parent? ⟨defaultGraph, 1⟩ = some ⟨defaultGraph, 0⟩) = true := by decide +kernel
    obtain ⟨r, built, holds⟩ := Except.exists_of_passes computed
    exact ⟨r, built, of_decide_eq_true holds⟩
  obtain ⟨r, built, parentless, up, back⟩ := evaluated
  obtain ⟨r', built', -, covers⟩ := extractEntries_covers extracted
  cases built.symm.trans built'
  refine ⟨r, extracted, built, ?_, ?_⟩
  · refine (covers kept (by decide) (by decide)).mpr ?_
    intro cyclic
    obtain ⟨above, under, -⟩ := Relation.TransGen.head'_iff.mp cyclic
    rw [Relationships.Under, parentless] at under
    cases under
  · intro onLineage
    exact (covers lost (by decide) (by decide)).mp onLineage (.head up (.single back))

/-- Two blank nodes that refer to each other pass unnoticed. -/
theorem extractEntries_of_blank_cycle :
    let refersTo (a b : String) : Quad := ⟨.blank a, .iri "http://example.com/p", .blank b, none⟩
    let d := Dataset.ofQuads [refersTo "_:a" "_:b", refersTo "_:b" "_:a"]
    d.identified.length = 2 ∧ extractEntries d 101 = .ok [] := by
  decide +kernel

end LinkedCommit
