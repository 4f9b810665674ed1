import Mathlib.Logic.Relation
import LinkedCommit.Proofs.Relationship.Parents
/-!
# Lineages and paths

The lineage of a quad are the quads from the top down to it, each the parent of the next.  The path
of a quad is spelled by its lineage (`path_eq_ok`): `trail` has the property of each ancestor, with
the number of the next quad's subject where several subjects hang under the property, and after it
come the quad's own property and number.

A quad has at most one lineage (`Lineage.unique`), and none if it is its own ancestor
(`Lineage.not_cyclic`).
-/

set_option autoImplicit false

namespace LinkedCommit

/-- The name of a predicate; all predicates of the quads that paths are made of have one. -/
def Quad.predicateName (q : Quad) : String := q.predicate.iri?.getD ""

theorem Quad.predicateName_of_iri {q : Quad} {name : String} (isIri : q.predicate = .iri name) :
    q.predicateName = name := by
  rw [predicateName, isIri]
  rfl

namespace Relationships

variable {d : Dataset} {r : Relationships}

inductive Lineage (r : Relationships) (d : Dataset) : Item → List Item → Prop
  | top {item : Item} : r.parent? item.1 = none → Lineage r d item [item]
  | under {item parent : Item} {chain : List Item} : r.parentItem? d item.1 = some parent →
      Lineage r d parent chain → Lineage r d item (chain ++ [item])

/-- The number of a quad's subject under the property of its parent, if other subjects hang there
too. -/
def number (r : Relationships) (d : Dataset) (parent child : Item) : List Segment :=
  let subjects := r.childSubjects d parent
  if 1 < subjects.length then
    (((Resource.ofTerm? child.2.subject).bind subjects.idxOf?).map Segment.index).toList
  else []

/-- The segments of the quads above the last one. -/
def trail (r : Relationships) (d : Dataset) : List Item → List Segment
  | [] => []
  | [_] => []
  | parent :: child :: rest =>
    .term parent.2.predicateName :: (r.number d parent child ++ trail r d (child :: rest))

theorem trail_split (before after : List Item) (parent child : Item) :
    r.trail d (before ++ parent :: child :: after) =
      r.trail d (before ++ [parent]) ++
        .term parent.2.predicateName ::
          (r.number d parent child ++ r.trail d (child :: after)) := by
  induction before with
  | nil => rfl
  | cons first rest ih =>
      cases rest with
      | nil => simp [trail]
      | cons second rest =>
          simp only [List.cons_append, trail] at ih ⊢
          simp [ih]

/-! ## Lineages -/

theorem Lineage.exists_concat {item : Item} {chain : List Item} (lineage : Lineage r d item chain) :
    ∃ before, chain = before ++ [item] := by
  cases lineage with
  | top _ => exact ⟨[], rfl⟩
  | under _ _ => exact ⟨_, rfl⟩

theorem Lineage.trail_concat {parent child : Item} {chain : List Item}
    (lineage : Lineage r d parent chain) :
    r.trail d (chain ++ [child]) =
      r.trail d chain ++ .term parent.2.predicateName :: r.number d parent child := by
  obtain ⟨before, rfl⟩ := lineage.exists_concat
  rw [List.append_assoc]
  exact (trail_split before [] parent child).trans (by simp [trail])

theorem Lineage.head {item : Item} {chain : List Item} (lineage : Lineage r d item chain) :
    ∃ top, chain.head? = some top ∧ r.parent? top.1 = none := by
  induction lineage with
  | top parentless => exact ⟨_, rfl, parentless⟩
  | under _ _ ih =>
      obtain ⟨top, first, parentless⟩ := ih
      exact ⟨top, by rw [List.head?_append, first]; rfl, parentless⟩

theorem Lineage.mem_identified {item : Item} {chain : List Item} (lineage : Lineage r d item chain)
    (member : item ∈ d.identified) : ∀ a ∈ chain, a ∈ d.identified := by
  induction lineage with
  | top _ =>
      intro a inChain
      rwa [List.mem_singleton.mp inChain]
  | under above _ ih =>
      intro a inChain
      rcases List.mem_append.mp inChain with higher | last
      · exact ih (Dataset.mem_identified_iff.mpr (parentItem?_eq_some_iff.mp above).2) a higher
      · rwa [List.mem_singleton.mp last]

theorem Lineage.unique {item : Item} {chain chain' : List Item} (lineage : Lineage r d item chain)
    (lineage' : Lineage r d item chain') : chain = chain' := by
  induction lineage generalizing chain' with
  | top parentless =>
      cases lineage' with
      | top _ => rfl
      | under above _ =>
          rw [(parentItem?_eq_some_iff.mp above).1] at parentless
          cases parentless
  | under above _ ih =>
      cases lineage' with
      | top parentless =>
          rw [(parentItem?_eq_some_iff.mp above).1] at parentless
          cases parentless
      | under above' lineage' =>
          rw [above] at above'
          cases above'
          rw [ih lineage']

/-- A lineage at one of its quads: what stands before it is the quad's own lineage, and what comes
next is a child of it. -/
theorem Lineage.split {item a : Item} {chain : List Item} (lineage : Lineage r d item chain)
    (member : a ∈ chain) :
    ∃ before after, chain = before ++ a :: after ∧ Lineage r d a (before ++ [a]) ∧
      match after with
      | [] => a = item
      | child :: _ => r.parentItem? d child.1 = some a := by
  induction lineage with
  | top parentless =>
      obtain rfl := List.mem_singleton.mp member
      exact ⟨[], [], rfl, .top parentless, rfl⟩
  | @under item parent chain above higher ih =>
      rcases List.mem_append.mp member with inChain | last
      · obtain ⟨before, after, rfl, own, next⟩ := ih inChain
        refine ⟨before, after ++ [item], by simp, own, ?_⟩
        cases after with
        | nil => exact next ▸ above
        | cons child _ => exact next
      · obtain rfl := List.mem_singleton.mp last
        exact ⟨chain, [], rfl, .under above higher, rfl⟩

/-- What has the subject and the parent of a quad hangs where the quad hangs. -/
theorem Lineage.sibling {a b : Item} {chain : List Item} (lineage : Lineage r d a chain)
    (sameSubject : a.2.subject = b.2.subject) (sameParent : r.parent? a.1 = r.parent? b.1) :
    ∃ chain', Lineage r d b chain' ∧ r.trail d chain' = r.trail d chain := by
  cases lineage with
  | top parentless => exact ⟨[b], .top (sameParent ▸ parentless), rfl⟩
  | @under _ parent higher above lineage =>
      have above' : r.parentItem? d b.1 = some parent := by
        rw [parentItem?_eq_some_iff, ← sameParent]
        exact parentItem?_eq_some_iff.mp above
      refine ⟨higher ++ [b], .under above' lineage, ?_⟩
      rw [lineage.trail_concat, lineage.trail_concat, number, number, sameSubject]

/-! ## Ancestors -/

def Under (r : Relationships) (a b : QuadId) : Prop := r.parent? a = some b

theorem Lineage.of_under {item : Item} {chain : List Item} (lineage : Lineage r d item chain)
    {parentId : QuadId} (above : r.Under item.1 parentId) :
    ∃ parent chain', parent.1 = parentId ∧ parent ∈ d.identified ∧ Lineage r d parent chain' ∧
      chain'.length < chain.length := by
  cases lineage with
  | top parentless =>
      rw [Under, parentless] at above
      cases above
  | @under _ parent chain' found higher =>
      have same : parent.1 = parentId := by
        rw [Under, (parentItem?_eq_some_iff.mp found).1] at above
        exact Option.some.inj above
      have there := Dataset.mem_identified_iff.mpr (parentItem?_eq_some_iff.mp found).2
      exact ⟨parent, chain', same, there, higher, by simp⟩

theorem Lineage.mem_of_reflTransGen {item : Item} {chain : List Item}
    (lineage : Lineage r d item chain) {id : QuadId}
    (above : Relation.ReflTransGen r.Under item.1 id) : ∃ a ∈ chain, a.1 = id := by
  induction lineage with
  | top parentless =>
      rcases above.cases_head with same | ⟨parentId, under, -⟩
      · exact ⟨_, List.mem_singleton_self _, same⟩
      · rw [Under, parentless] at under
        cases under
  | @under item parent chain found higher ih =>
      rcases above.cases_head with same | ⟨parentId, under, rest⟩
      · exact ⟨item, by simp, same⟩
      · rw [Under, (parentItem?_eq_some_iff.mp found).1] at under
        cases under
        obtain ⟨a, inChain, same⟩ := ih rest
        exact ⟨a, by simp [inChain], same⟩

theorem Lineage.of_transGen {item : Item} {chain : List Item} (lineage : Lineage r d item chain)
    {id : QuadId} (above : Relation.TransGen r.Under item.1 id) :
    ∃ ancestor chain', ancestor.1 = id ∧ ancestor ∈ d.identified ∧ Lineage r d ancestor chain' ∧
      chain'.length < chain.length := by
  induction above with
  | single under => exact lineage.of_under under
  | tail _ under ih =>
      obtain ⟨ancestor, chain', rfl, -, higher, shorter⟩ := ih
      obtain ⟨parent, chain'', same, there, top, shorter'⟩ := higher.of_under under
      exact ⟨parent, chain'', same, there, top, Nat.lt_trans shorter' shorter⟩

theorem Lineage.not_cyclic {item : Item} {chain : List Item} (lineage : Lineage r d item chain)
    (member : item ∈ d.identified) : ¬ Relation.TransGen r.Under item.1 item.1 := by
  intro cyclic
  obtain ⟨ancestor, chain', same, there, lineage', shorter⟩ := lineage.of_transGen cyclic
  obtain rfl := Dataset.item_eq_of_id_eq there member same
  rw [lineage.unique lineage'] at shorter
  exact Nat.lt_irrefl _ shorter

/-! ## Climbing -/

theorem number_eq {parent child : Item} {subject : Resource} {position : Nat}
    (subjectEq : Resource.ofTerm? child.2.subject = some subject)
    (found : (r.childSubjects d parent).idxOf? subject = some position) :
    r.number d parent child =
      if 1 < (r.childSubjects d parent).length then [Segment.index position] else [] := by
  simp [number, subjectEq, found]

section Climb

variable {start : QuadId} {fuel : Nat} {item : Item} {below segments : List Segment}

theorem climb_of_parentless (parentless : r.parent? item.1 = none) :
    climb r d start fuel item.1 item.2 below = .ok below := by
  rw [climb, parentless]

theorem climb_zero {parentId : QuadId} (found : r.parent? item.1 = some parentId) :
    climb r d start 0 item.1 item.2 below = .error (.broken (.parentCycle start)) := by
  rw [climb, found]

/-- A step of the climb puts the property of the parent, and the number under it, in front. -/
theorem climb_succ (built : ofDataset d = .ok r) (member : item ∈ d.identified) {parentId : QuadId}
    (found : r.parent? item.1 = some parentId) :
    ∃ parent, r.parentItem? d item.1 = some parent ∧ ∀ start fuel below,
      climb r d start (fuel + 1) item.1 item.2 below =
        climb r d start fuel parent.1 parent.2
          (.term parent.2.predicateName :: (r.number d parent item ++ below)) := by
  obtain ⟨parent, key, subject, above, keyEq, subjectEq, -, -⟩ := parent_cases built member found
  refine ⟨_, above, ?_⟩
  intro start fuel below
  have there : d.lookup parentId = .ok parent := (parentItem?_eq_some_iff.mp above).2
  have inSubjects := mem_childSubjects member above subjectEq
  have children : r.children? key = some (r.childSubjects d (parentId, parent)) := by
    rw [children?_eq built (parentId, parent) keyEq, if_neg (List.ne_nil_of_mem inSubjects)]
  have isIri := (PropertyKey.ofQuad_eq_ok_iff.mp keyEq).2.1
  have predicate := Quad.predicateIri_eq_ok_iff.mpr isIri
  have subjectOk := Quad.subjectResource_eq_ok_iff.mpr subjectEq
  cases position : (r.childSubjects d (parentId, parent)).idxOf? subject with
  | none => exact absurd inSubjects (List.idxOf?_eq_none_iff.mp position)
  | some n =>
      rw [climb, found, number_eq subjectEq position, Quad.predicateName_of_iri isIri]
      simp [there, keyEq, children, subjectOk, position, predicate, bind, Except.bind]

theorem climb_eq_ok (built : ofDataset d = .ok r) (member : item ∈ d.identified)
    (climbed : climb r d start fuel item.1 item.2 below = .ok segments) :
    ∃ chain, Lineage r d item chain ∧ segments = r.trail d chain ++ below := by
  induction fuel generalizing item below with
  | zero =>
      cases found : r.parent? item.1 with
      | none =>
          rw [climb_of_parentless found] at climbed
          cases climbed
          exact ⟨[item], .top found, rfl⟩
      | some parentId =>
          rw [climb_zero found] at climbed
          cases climbed
  | succ fuel ih =>
      cases found : r.parent? item.1 with
      | none =>
          rw [climb_of_parentless found] at climbed
          cases climbed
          exact ⟨[item], .top found, rfl⟩
      | some parentId =>
          obtain ⟨parent, above, step⟩ := climb_succ built member found
          rw [step] at climbed
          have there := Dataset.mem_identified_iff.mpr (parentItem?_eq_some_iff.mp above).2
          obtain ⟨chain, higher, rfl⟩ := ih there climbed
          refine ⟨chain ++ [item], .under above higher, ?_⟩
          rw [higher.trail_concat]
          simp

end Climb

theorem path_eq_ok (built : ofDataset d = .ok r) {item : Item} {index : Option Nat} {p : Path}
    (member : item ∈ d.identified) (found : r.path d item.1 index = .ok p) :
    ∃ chain, Lineage r d item chain ∧ item.2.predicate = .iri item.2.predicateName ∧
      p.segments = r.trail d chain ++
        .term item.2.predicateName :: (index.map Segment.index).toList := by
  rw [path, Dataset.mem_identified_iff.mp member] at found
  simp only [Except.bind_eq_ok_iff, Quad.predicateIri_eq_ok_iff] at found
  obtain ⟨q, same, name, isIri, segments, climbed, made⟩ := found
  cases same
  cases made
  obtain ⟨chain, lineage, spelled⟩ := climb_eq_ok built member climbed
  rw [Quad.predicateName_of_iri isIri]
  exact ⟨chain, lineage, isIri, spelled⟩

end Relationships

end LinkedCommit
