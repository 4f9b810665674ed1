import Mathlib.Data.Set.Finite.List
import Mathlib.Order.Preorder.Finite
import LinkedCommit.Proofs.Relationship.Lineage
/-!
# Where the parents of a quad lead

From a quad the parents lead up to a quad without one, or come back to a quad that was met before
(`lineage_or_revisits`), and never both (`Lineage.not_revisits`).  In the first case the quads met
are different and all but the last have a parent, so the number of links bounds them
(`Lineage.length_le`) and the path is found.  In the second no bound is enough, and the climb ends
with the report of a cycle.  There is no other end (`path_ends`).
-/

set_option autoImplicit false

namespace LinkedCommit

namespace Relationships

open Relation (ReflTransGen TransGen)

variable {d : Dataset} {r : Relationships}

/-- The parents of a quad lead up to one that has no parent. -/
def ReachesTop (r : Relationships) (id : QuadId) : Prop :=
  ∃ top, ReflTransGen r.Under id top ∧ r.parent? top = none

/-- The parents of a quad lead to one that is its own ancestor. -/
def Revisits (r : Relationships) (id : QuadId) : Prop :=
  ∃ again, ReflTransGen r.Under id again ∧ TransGen r.Under again again

/-! ## Lineages and their lengths -/

theorem Lineage.reachesTop {item : Item} {chain : List Item} (lineage : Lineage r d item chain) :
    r.ReachesTop item.1 := by
  induction lineage with
  | top parentless => exact ⟨_, .refl, parentless⟩
  | under above _ ih =>
      obtain ⟨top, way, parentless⟩ := ih
      exact ⟨top, .head (parentItem?_eq_some_iff.mp above).1 way, parentless⟩

theorem ReachesTop.exists_lineage (built : ofDataset d = .ok r) {item : Item}
    (member : item ∈ d.identified) (reaches : r.ReachesTop item.1) :
    ∃ chain, Lineage r d item chain := by
  obtain ⟨top, way, parentless⟩ := reaches
  generalize start : item.1 = id at way
  induction way using ReflTransGen.head_induction_on generalizing item with
  | refl => exact ⟨[item], .top (start ▸ parentless)⟩
  | @head id parentId under _ ih =>
      obtain ⟨parent, -, -, above, -⟩ := parent_cases built member (start ▸ under)
      have there := Dataset.mem_identified_iff.mpr (parentItem?_eq_some_iff.mp above).2
      obtain ⟨chain, higher⟩ := ih there rfl
      exact ⟨chain ++ [item], .under above higher⟩

theorem Lineage.not_revisits {item : Item} {chain : List Item} (lineage : Lineage r d item chain)
    (member : item ∈ d.identified) : ¬ r.Revisits item.1 := by
  rintro ⟨again, way, cyclic⟩
  obtain ⟨a, inChain, rfl⟩ := lineage.mem_of_reflTransGen way
  obtain ⟨before, after, -, own, -⟩ := lineage.split inChain
  exact own.not_cyclic (lineage.mem_identified member a inChain) cyclic

theorem Lineage.ids_nodup {item : Item} {chain : List Item} (lineage : Lineage r d item chain)
    (member : item ∈ d.identified) : (chain.map Prod.fst).Nodup := by
  induction lineage with
  | top _ => exact List.nodup_singleton _
  | @under item parent chain above higher ih =>
      have there := Dataset.mem_identified_iff.mpr (parentItem?_eq_some_iff.mp above).2
      rw [List.map_append, List.nodup_append]
      refine ⟨ih there, List.nodup_singleton _, ?_⟩
      intro id inChain id' isItem same
      obtain ⟨a, isAncestor, rfl⟩ := List.mem_map.mp inChain
      obtain rfl := List.mem_singleton.mp isItem
      obtain rfl := Dataset.item_eq_of_id_eq (higher.mem_identified there a isAncestor) member same
      -- The lineage of the quad would be a part of the one that ends with it.
      obtain ⟨before, after, split, own, -⟩ := higher.split isAncestor
      have lengths := congrArg List.length (own.unique (.under above higher))
      rw [split] at lengths
      simp only [List.length_append, List.length_cons, List.length_nil] at lengths
      omega

theorem mem_parents {id parentId : QuadId} (found : r.parent? id = some parentId) :
    id ∈ r.parents.map Prod.fst := by
  obtain ⟨entry, search, -⟩ := Option.map_eq_some_iff.mp found
  exact List.mem_map.mpr
    ⟨entry, List.mem_of_find?_eq_some search, by simpa using List.find?_some search⟩

theorem Lineage.mem_parents_of_tail {item : Item} {chain : List Item}
    (lineage : Lineage r d item chain) : ∀ a ∈ chain.tail, a.1 ∈ r.parents.map Prod.fst := by
  induction lineage with
  | top _ => exact fun _ inTail => (List.not_mem_nil inTail).elim
  | under above higher ih =>
      obtain ⟨before, rfl⟩ := higher.exists_concat
      rw [List.tail_append_of_ne_nil (by simp)]
      intro a inTail
      rcases List.mem_append.mp inTail with ancestor | last
      · exact ih a ancestor
      · rw [List.mem_singleton.mp last]
        exact mem_parents (parentItem?_eq_some_iff.mp above).1

theorem Lineage.length_le {item : Item} {chain : List Item} (lineage : Lineage r d item chain)
    (member : item ∈ d.identified) : chain.length ≤ r.parents.length + 1 := by
  have nodup : (chain.tail.map Prod.fst).Nodup :=
    (lineage.ids_nodup member).sublist ((List.tail_sublist chain).map Prod.fst)
  have subset : chain.tail.map Prod.fst ⊆ r.parents.map Prod.fst := by
    intro id inTail
    obtain ⟨a, isAncestor, rfl⟩ := List.mem_map.mp inTail
    exact lineage.mem_parents_of_tail a isAncestor
  have bound := (nodup.subperm subset).length_le
  simp only [List.length_map, List.length_tail] at bound
  omega

/-! ## The way up ends at the top or turns back -/

/-- Where every member of a finite set is related to another one, there is a way into a cycle. -/
theorem exists_cycle {α : Type} {R : α → α → Prop} {S : Set α} (finite : S.Finite)
    (next : ∀ a ∈ S, ∃ b ∈ S, R a b) {a : α} (start : a ∈ S) :
    ∃ b, ReflTransGen R a b ∧ TransGen R b b := by
  choose! step stepIn related using next
  have inside : ∀ n, step^[n] a ∈ S := by
    intro n
    induction n with
    | zero => exact start
    | succ n ih =>
        rw [Function.iterate_succ_apply']
        exact stepIn _ ih
  have on : ∀ n, R (step^[n] a) (step^[n + 1] a) := by
    intro n
    rw [Function.iterate_succ_apply']
    exact related _ (inside n)
  have way : ∀ n k, ReflTransGen R (step^[n] a) (step^[n + k] a) := by
    intro n k
    induction k with
    | zero => exact .refl
    | succ k ih => exact ih.tail (on (n + k))
  obtain ⟨n, m, lt, same⟩ := Set.Finite.exists_lt_map_eq_of_forall_mem inside finite
  obtain ⟨k, rfl⟩ := Nat.exists_eq_add_of_lt lt
  refine ⟨step^[n] a, by simpa using way 0 n, ?_⟩
  have cycle := TransGen.tail' (way n k) (on (n + k))
  rwa [← same] at cycle

theorem exists_endless_parent (built : ofDataset d = .ok r) {item : Item}
    (member : item ∈ d.identified) (endless : ¬ ∃ chain, Lineage r d item chain) :
    ∃ parent ∈ d.identified, (¬ ∃ chain, Lineage r d parent chain) ∧
      r.Under item.1 parent.1 := by
  cases found : r.parent? item.1 with
  | none => exact absurd ⟨[item], .top found⟩ endless
  | some parentId =>
      obtain ⟨q, -, -, above, -⟩ := parent_cases built member found
      refine ⟨(parentId, q), Dataset.mem_identified_iff.mpr (parentItem?_eq_some_iff.mp above).2, ?_,
        found⟩
      rintro ⟨chain, higher⟩
      exact endless ⟨chain ++ [item], .under above higher⟩

theorem lineage_or_revisits (built : ofDataset d = .ok r) {item : Item}
    (member : item ∈ d.identified) :
    (∃ chain, Lineage r d item chain) ∨ r.Revisits item.1 := by
  by_cases lineage : ∃ chain, Lineage r d item chain
  · exact Or.inl lineage
  let endless : Set QuadId :=
    {id | ∃ a ∈ d.identified, (¬ ∃ chain, Lineage r d a chain) ∧ a.1 = id}
  have finite : endless.Finite := by
    refine (List.finite_toSet (d.identified.map Prod.fst)).subset ?_
    rintro id ⟨a, inDataset, -, rfl⟩
    exact List.mem_map_of_mem inDataset
  have parent : ∀ id ∈ endless, ∃ parentId ∈ endless, r.Under id parentId := by
    rintro id ⟨a, inDataset, noLineage, rfl⟩
    obtain ⟨b, there, noneHigher, under⟩ := exists_endless_parent built inDataset noLineage
    exact ⟨b.1, ⟨b, there, noneHigher, rfl⟩, under⟩
  exact Or.inr (exists_cycle finite parent ⟨item, member, lineage, rfl⟩)

/-! ## The climb -/

theorem climb_of_lineage (built : ofDataset d = .ok r) {item : Item} {chain : List Item}
    (lineage : Lineage r d item chain) (member : item ∈ d.identified) (start : QuadId) {fuel : Nat}
    (enough : chain.length ≤ fuel + 1) (below : List Segment) :
    climb r d start fuel item.1 item.2 below = .ok (r.trail d chain ++ below) := by
  induction lineage generalizing fuel below with
  | top parentless => exact climb_of_parentless parentless
  | @under item parent chain above higher ih =>
      have found := (parentItem?_eq_some_iff.mp above).1
      have there := Dataset.mem_identified_iff.mpr (parentItem?_eq_some_iff.mp above).2
      obtain ⟨parent', above', step⟩ := climb_succ built member found
      rw [above] at above'
      cases above'
      obtain ⟨before, isChain⟩ := higher.exists_concat
      have positive : 0 < chain.length := by simp [isChain]
      obtain ⟨fuel, rfl⟩ : ∃ n, fuel = n + 1 := by
        refine Nat.exists_eq_succ_of_ne_zero fun zero => ?_
        simp only [zero, List.length_append, List.length_singleton] at enough
        omega
      rw [step, ih there (by simpa using enough), higher.trail_concat]
      simp

theorem climb_eq_error (built : ofDataset d = .ok r) {item : Item} (member : item ∈ d.identified)
    {start : QuadId} {fuel : Nat} {below : List Segment} {e : CommitError}
    (failed : climb r d start fuel item.1 item.2 below = .error e) :
    e = .broken (.parentCycle start) := by
  induction fuel generalizing item below with
  | zero =>
      cases found : r.parent? item.1 with
      | none =>
          rw [climb_of_parentless found] at failed
          cases failed
      | some parentId =>
          rw [climb_zero found] at failed
          exact (Except.error.inj failed).symm
  | succ fuel ih =>
      cases found : r.parent? item.1 with
      | none =>
          rw [climb_of_parentless found] at failed
          cases failed
      | some parentId =>
          obtain ⟨parent, above, step⟩ := climb_succ built member found
          rw [step] at failed
          exact ih (Dataset.mem_identified_iff.mpr (parentItem?_eq_some_iff.mp above).2) failed

theorem path_eq_climb {item : Item} {name : String} (member : item ∈ d.identified)
    (isIri : item.2.predicate = .iri name) (index : Option Nat) :
    r.path d item.1 index =
      (climb r d item.1 r.parents.length item.1 item.2
        (.term name :: (index.map Segment.index).toList)).map Path.mk := by
  rw [path, Dataset.mem_identified_iff.mp member]
  simp only [bind, Except.bind, Quad.predicateIri_eq_ok_iff.mpr isIri]
  cases climb r d item.1 r.parents.length item.1 item.2
    (.term name :: (index.map Segment.index).toList) <;> rfl

/-- Where all predicates are identifiers, the path of a quad is found if its parents lead up to a
quad without one, and a cycle is reported if they come back to a quad; nothing else is reported. -/
theorem path_ends (allIris : ∀ item ∈ d.identified, ∃ name, item.2.predicate = .iri name)
    (built : ofDataset d = .ok r) {id : QuadId} {q : Quad} (there : d.lookup id = .ok q)
    (index : Option Nat) :
    ((∃ p, r.path d id index = .ok p) ↔ r.ReachesTop id) ∧
      (r.path d id index = .error (.broken (.parentCycle id)) ↔ r.Revisits id) ∧
      ∀ e, r.path d id index = .error e → e = .broken (.parentCycle id) := by
  have member : (id, q) ∈ d.identified := Dataset.mem_identified_iff.mpr there
  obtain ⟨name, isIri⟩ := allIris _ member
  have climbs := path_eq_climb (r := r) member isIri index
  have onlyCycle : ∀ e, r.path d id index = .error e → e = .broken (.parentCycle id) := by
    intro e failed
    rw [climbs] at failed
    exact climb_eq_error built member (Except.map_eq_error_iff.mp failed)
  have found : r.ReachesTop id → ∃ p, r.path d id index = .ok p := by
    intro reaches
    obtain ⟨chain, lineage⟩ := reaches.exists_lineage built member
    rw [climbs, climb_of_lineage built lineage member id (lineage.length_le member)]
    exact ⟨_, rfl⟩
  have notFound : r.Revisits id → ¬ ∃ p, r.path d id index = .ok p := by
    rintro revisits ⟨p, isPath⟩
    obtain ⟨chain, lineage, -⟩ := path_eq_ok built member isPath
    exact lineage.not_revisits member revisits
  refine ⟨⟨?_, found⟩, ⟨?_, ?_⟩, onlyCycle⟩
  · rintro ⟨p, isPath⟩
    obtain ⟨chain, lineage, -⟩ := path_eq_ok built member isPath
    exact lineage.reachesTop
  · intro failed
    rcases lineage_or_revisits built member with ⟨chain, lineage⟩ | revisits
    · obtain ⟨p, isPath⟩ := found lineage.reachesTop
      rw [isPath] at failed
      cases failed
    · exact revisits
  · intro revisits
    cases outcome : r.path d id index with
    | ok p => exact absurd ⟨p, outcome⟩ (notFound revisits)
    | error e => rw [onlyCycle e outcome]

/-- A quad whose object is its own graph is its own parent; the value beside it has no path, and the
value below a quad of the default graph has one. -/
theorem path_ends_beside_own_parent :
    let name : Term := .literal ⟨"x", Xsd.string, none⟩
    let d := Dataset.ofQuads [⟨.iri "urn:r", .iri "urn:p", .iri "urn:a", none⟩,
      ⟨.iri "urn:a", .iri "urn:name", name, none⟩,
      ⟨.iri "urn:s", .iri "urn:p", .blank "_:g", some (.blank "_:g")⟩,
      ⟨.iri "urn:b", .iri "urn:name", name, some (.blank "_:g")⟩]
    let inGraph : QuadId := ⟨"_:g", 1⟩
    let below : QuadId := ⟨defaultGraph, 1⟩
    (∀ item ∈ d.identified, ∃ name, item.2.predicate = .iri name) ∧ ∃ r, ofDataset d = .ok r ∧
      (∃ q, d.lookup inGraph = .ok q) ∧ (∃ q, d.lookup below = .ok q) ∧
      r.path d inGraph none = .error (.broken (.parentCycle inGraph)) ∧
      ∃ p, r.path d below none = .ok p := by
  intro name d inGraph below
  have allIris : ∀ item ∈ d.identified, ∃ name, item.2.predicate = .iri name := by
    have named : ∀ item ∈ d.identified, item.2.predicate = .iri item.2.predicateName := by
      decide +kernel
    exact fun item member => ⟨_, named item member⟩
  have computed : (ofDataset d).passes (fun r =>
      r.parent? inGraph = some ⟨"_:g", 0⟩ ∧ r.parent? ⟨"_:g", 0⟩ = some ⟨"_:g", 0⟩ ∧
      r.parent? below = some ⟨defaultGraph, 0⟩ ∧ r.parent? ⟨defaultGraph, 0⟩ = none) = true := by
    decide +kernel
  obtain ⟨r, built, holds⟩ := Except.exists_of_passes computed
  obtain ⟨up, again, above, parentless⟩ := of_decide_eq_true holds
  have there : d.lookup inGraph = .ok ⟨.iri "urn:b", .iri "urn:name", name, some (.blank "_:g")⟩ := by
    decide +kernel
  have there' : d.lookup below = .ok ⟨.iri "urn:a", .iri "urn:name", name, none⟩ := by decide +kernel
  have revisits : r.Revisits inGraph := ⟨⟨"_:g", 0⟩, .single up, .single again⟩
  have reaches : r.ReachesTop below := ⟨⟨defaultGraph, 0⟩, .single above, parentless⟩
  obtain ⟨-, cycle, -⟩ := path_ends allIris built there none
  obtain ⟨found, -, -⟩ := path_ends allIris built there' none
  refine ⟨allIris, r, built, ?_, ?_, cycle.mpr revisits, found.mpr reaches⟩
  · exact ⟨_, there⟩
  · exact ⟨_, there'⟩

end Relationships

end LinkedCommit
