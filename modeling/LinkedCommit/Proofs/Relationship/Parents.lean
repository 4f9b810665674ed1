import LinkedCommit.Proofs.Relationship.Links
/-!
# Parents and child subjects

What the relationships of a dataset say, without regard to the tables that they are kept in.  The
parent of a quad is what `findParent` finds (`findParent_eq`): a quad of its graph whose object is
its subject, or a quad whose object is its graph.  Under a property hang the quads whose parent is a
value of it, and `children?` lists their subjects in the order in which they are first met
(`children?_eq`).
-/

set_option autoImplicit false

namespace LinkedCommit

namespace Relationships

variable {d : Dataset} {r : Relationships}

/-! ## Where a parent is looked for -/

theorem mem_siblings {d : Dataset} {graph : String} {item : Item} :
    item ∈ identified graph ((d.graph? graph).getD []) ↔
      item.1.graph = graph ∧ d.lookup item.1 = .ok item.2 := by
  rw [mem_identified_of_graph, Dataset.lookup_eq_ok_iff]
  constructor
  · rintro ⟨rfl, found⟩
    refine ⟨rfl, ?_⟩
    cases there : d.graph? item.1.graph with
    | none => simp [there] at found
    | some quads => exact ⟨quads, rfl, by simpa [there] using found⟩
  · rintro ⟨rfl, quads, there, found⟩
    exact ⟨rfl, by simpa [there] using found⟩

/-- A quad hangs under one of its graph whose object is its subject, or under one whose object is
its graph. -/
def HangsUnder (child parent : Item) : Prop :=
  (parent.1.graph = child.1.graph ∧ parent.2.object = child.2.subject) ∨
    ∃ label, child.2.graph = some (.blank label) ∧ parent.2.object = .blank label

theorem mem_candidates {item : Item} {subject : Resource} {parentId : QuadId}
    (subjectEq : Resource.ofTerm? item.2.subject = some subject)
    (member : parentId ∈ candidates d item.1 item.2 subject) :
    ∃ parent, d.lookup parentId = .ok parent ∧ HangsUnder item (parentId, parent) := by
  rw [candidates] at member
  split at member
  · obtain ⟨parent, near, rfl⟩ := List.mem_map.mp member
    obtain ⟨inGraph, chosen⟩ := List.mem_filter.mp near
    obtain ⟨sameGraph, found⟩ := mem_siblings.mp inGraph
    have objectEq : Resource.ofTerm? parent.2.object = some subject := by
      simp only [Bool.and_eq_true, decide_eq_true_eq] at chosen
      exact chosen.2
    exact ⟨parent.2, found, Or.inl ⟨sameGraph, Resource.ofTerm?_injective objectEq subjectEq⟩⟩
  · split at member
    · rename_i label graphEq
      obtain ⟨parent, far, rfl⟩ := List.mem_map.mp member
      obtain ⟨inDataset, chosen⟩ := List.mem_filter.mp far
      exact ⟨parent.2, Dataset.mem_identified_iff.mp inDataset,
        Or.inr ⟨label, graphEq, of_decide_eq_true chosen⟩⟩
    · cases member

theorem findParent_eq_some {item : Item} {parentId : QuadId}
    (found : findParent d item.1 item.2 = .ok (some parentId)) :
    ∃ parent, d.lookup parentId = .ok parent ∧ HangsUnder item (parentId, parent) := by
  simp only [findParent, Except.bind_eq_ok_iff, Quad.subjectResource_eq_ok_iff] at found
  obtain ⟨subject, subjectEq, found⟩ := found
  split at found
  · cases found
  · rename_i only
    cases found
    exact mem_candidates subjectEq (by rw [only]; exact List.mem_singleton_self _)
  · cases found

/-! ## The parent of a quad -/

theorem link_of_member (built : ofDataset d = .ok r) {item : Item} (member : item ∈ d.identified) :
    link d item = .ok (link? d item) ∧ r.parent? item.1 = (link? d item).map Link.parent := by
  obtain ⟨linked, rfl⟩ := ofDataset_eq_ok built
  obtain ⟨l?, found⟩ := linked item member
  have same : link? d item = l? := by
    rw [link?, found]
    rfl
  refine ⟨same ▸ found, ?_⟩
  rw [same, parent?, parents_ofLinks]
  -- A link with the identity of the quad is the link of the quad.
  have unique : ∀ l ∈ links d, l.child = item.1 → l? = some l := by
    intro l inLinks sameId
    obtain ⟨other, inDataset, linkedOther⟩ := mem_links_iff.mp inLinks
    have childEq := (linkTo_eq_ok_iff.mp ((link_eq_ok_iff.mp linkedOther).2 l rfl)).1
    have sameItem := Dataset.item_eq_of_id_eq inDataset member (childEq.symm.trans sameId)
    rw [sameItem, found] at linkedOther
    exact Except.ok.inj linkedOther
  cases search : ((links d).map fun l => (l.child, l.parent)).find? fun entry =>
      entry.1 = item.1 with
  | none =>
      cases l? with
      | none => rfl
      | some l =>
          have inLinks : l ∈ links d := mem_links_iff.mpr ⟨item, member, found⟩
          have childEq := (linkTo_eq_ok_iff.mp ((link_eq_ok_iff.mp found).2 l rfl)).1
          have absent := List.find?_eq_none.mp search _ (List.mem_map_of_mem inLinks)
          simp [childEq] at absent
  | some entry =>
      obtain ⟨l, inLinks, rfl⟩ := List.mem_map.mp (List.mem_of_find?_eq_some search)
      have sameId : l.child = item.1 := by simpa using List.find?_some search
      rw [unique l inLinks sameId]
      rfl

theorem findParent_eq (built : ofDataset d = .ok r) {item : Item} (member : item ∈ d.identified) :
    findParent d item.1 item.2 = .ok (r.parent? item.1) := by
  obtain ⟨linked, parentEq⟩ := link_of_member built member
  rw [parentEq]
  exact (link_eq_ok_iff.mp linked).1

/-- A quad is left out of where its parent is looked for, which makes no difference if its object is
no subject. -/
theorem near_of_leaf {item : Item} (member : item ∈ d.identified)
    (leaf : Resource.ofTerm? item.2.object = none) (subject : Resource) :
    ((identified item.1.graph ((d.graph? item.1.graph).getD [])).filter fun (other, c) =>
        other.index ≠ item.1.index && Resource.ofTerm? c.object = some subject) =
      (identified item.1.graph ((d.graph? item.1.graph).getD [])).filter fun other =>
        Resource.ofTerm? other.2.object = some subject := by
  refine List.filter_congr fun other inGraph => ?_
  obtain ⟨sameGraph, found⟩ := mem_siblings.mp inGraph
  by_cases here : other.1.index = item.1.index
  · have same : other = item := by
      refine Dataset.item_eq_of_id_eq (Dataset.mem_identified_iff.mpr found) member ?_
      rw [QuadId.mk.injEq]
      exact ⟨sameGraph, here⟩
    simp [same, leaf]
  · simp [here]

/-- Quads of one subject in one graph whose objects are no subjects have one parent. -/
theorem parent?_congr (built : ofDataset d = .ok r) {a b : Item} (member : a ∈ d.identified)
    (member' : b ∈ d.identified) (sameGraph : a.1.graph = b.1.graph)
    (sameNode : a.2.graph = b.2.graph) (sameSubject : a.2.subject = b.2.subject)
    (leaf : Resource.ofTerm? a.2.object = none) (leaf' : Resource.ofTerm? b.2.object = none) :
    r.parent? a.1 = r.parent? b.1 := by
  have alike : ∀ subject, candidates d a.1 a.2 subject = candidates d b.1 b.2 subject := by
    intro subject
    rw [candidates, candidates, near_of_leaf member leaf, near_of_leaf member' leaf', sameGraph,
      sameNode]
  have found := findParent_eq built member
  have found' := findParent_eq built member'
  simp only [findParent, Quad.subjectResource, sameSubject, alike, Except.bind_eq_ok_iff]
    at found found'
  obtain ⟨subject, subjectEq, found⟩ := found
  obtain ⟨_, subjectEq', found'⟩ := found'
  cases subjectEq.symm.trans subjectEq'
  generalize candidates d b.1 b.2 subject = parents at found found'
  match parents with
  | [] => exact (Except.ok.inj found).symm.trans (Except.ok.inj found')
  | [only] => exact (Except.ok.inj found).symm.trans (Except.ok.inj found')
  | first :: second :: _ => cases found

theorem hasChildren_iff (built : ofDataset d = .ok r) {parentId : QuadId} :
    r.hasChildren parentId = true ↔ ∃ item ∈ d.identified, r.parent? item.1 = some parentId := by
  constructor
  · intro has
    obtain ⟨-, tables⟩ := ofDataset_eq_ok built
    rw [hasChildren, tables, parents_ofLinks, List.any_map, List.any_eq_true] at has
    obtain ⟨l, inLinks, same⟩ := has
    obtain ⟨item, member, linked⟩ := mem_links_iff.mp inLinks
    refine ⟨item, member, ?_⟩
    rw [(link_of_member built member).2, link?_eq_some_iff.mpr linked]
    simpa using same
  · rintro ⟨item, -, found⟩
    obtain ⟨entry, search, rfl⟩ := Option.map_eq_some_iff.mp found
    exact List.any_eq_true.mpr ⟨entry, List.mem_of_find?_eq_some search, decide_eq_true rfl⟩

def parentItem? (r : Relationships) (d : Dataset) (id : QuadId) : Option Item := do
  let parentId ← r.parent? id
  let parent ← (d.lookup parentId).toOption
  return (parentId, parent)

theorem parentItem?_eq_some_iff {id : QuadId} {parent : Item} :
    r.parentItem? d id = some parent ↔
      r.parent? id = some parent.1 ∧ d.lookup parent.1 = .ok parent.2 := by
  simp only [parentItem?, Option.bind_eq_bind, Option.bind_eq_some_iff,
    Except.toOption_eq_some_iff]
  constructor
  · rintro ⟨parentId, found, q, there, same⟩
    cases same
    exact ⟨found, there⟩
  · rintro ⟨found, there⟩
    exact ⟨parent.1, found, parent.2, there, rfl⟩

/-- What is known of a quad that has a parent: the parent is there, it has a key, and the quad
hangs under it. -/
theorem parent_cases (built : ofDataset d = .ok r) {item : Item} (member : item ∈ d.identified)
    {parentId : QuadId} (found : r.parent? item.1 = some parentId) :
    ∃ parent key subject, r.parentItem? d item.1 = some (parentId, parent) ∧
      PropertyKey.ofQuad parent parentId.graph = .ok key ∧
      Resource.ofTerm? item.2.subject = some subject ∧ HangsUnder item (parentId, parent) ∧
      link? d item = some ⟨item.1, parentId, key, subject⟩ := by
  obtain ⟨linked, parentEq⟩ := link_of_member built member
  rw [found] at parentEq
  obtain ⟨⟨child, above, key, subject⟩, someLink, rfl⟩ := Option.map_eq_some_iff.mp parentEq.symm
  rw [someLink] at linked
  obtain ⟨search, linkedTo⟩ := link_eq_ok_iff.mp linked
  obtain ⟨rfl, -, ⟨parent, there, keyEq⟩, subjectEq⟩ := linkTo_eq_ok_iff.mp (linkedTo _ rfl)
  obtain ⟨parent', there', hangs⟩ := findParent_eq_some search
  rw [there] at there'
  cases there'
  exact ⟨parent, key, subject, parentItem?_eq_some_iff.mpr ⟨found, there⟩, keyEq, subjectEq, hangs,
    someLink⟩

theorem parentItem_cases (built : ofDataset d = .ok r) {item parent : Item}
    (member : item ∈ d.identified) (above : r.parentItem? d item.1 = some parent) :
    parent ∈ d.identified ∧ HangsUnder item parent ∧
      (∃ subject, Resource.ofTerm? item.2.subject = some subject) ∧
      ∃ name, parent.2.predicate = .iri name := by
  obtain ⟨parentId, q⟩ := parent
  obtain ⟨found, there⟩ := parentItem?_eq_some_iff.mp above
  obtain ⟨q', key, subject, aboveEq, keyEq, subjectEq, hangs, -⟩ := parent_cases built member found
  cases above.symm.trans aboveEq
  exact ⟨Dataset.mem_identified_iff.mpr there, hangs, ⟨subject, subjectEq⟩,
    key.predicate, (PropertyKey.ofQuad_eq_ok_iff.mp keyEq).2.1⟩

/-! ## The subjects under a property -/

def sameArray (a b : Item) : Bool := a.1.graph = b.1.graph && a.2.sameProperty b.2

/-- The subjects that hang under the property of a quad, in the order in which they are first
met. -/
def childSubjects (r : Relationships) (d : Dataset) (parent : Item) : List Resource :=
  ((d.identified.filter fun item => (r.parentItem? d item.1).any (sameArray parent)).filterMap
    fun item => Resource.ofTerm? item.2.subject).eraseDups

theorem subjectsOf_links (built : ofDataset d = .ok r) {parent : Item} {key : PropertyKey}
    (keyEq : PropertyKey.ofQuad parent.2 parent.1.graph = .ok key) :
    subjectsOf (links d) key = r.childSubjects d parent := by
  rw [subjectsOf, childSubjects, links, List.filter_filterMap, List.map_filterMap,
    List.filterMap_filter]
  congr 1
  refine List.filterMap_congr ?_
  intro item member
  cases found : r.parent? item.1 with
  | none =>
      have noLink : link? d item = none := by
        have parentEq := (link_of_member built member).2
        rw [found] at parentEq
        exact Option.map_eq_none_iff.mp parentEq.symm
      simp [noLink, parentItem?, found]
  | some parentId =>
      obtain ⟨above, key', subject, aboveEq, keyEq', subjectEq, -, linked⟩ :=
        parent_cases built member found
      have same : (key' = key) ↔ sameArray parent (parentId, above) = true := by
        rw [eq_comm, PropertyKey.eq_iff keyEq keyEq']
        simp [sameArray]
      by_cases here : key' = key
      · simp [linked, aboveEq, subjectEq, here, same.mp here]
      · simp [linked, aboveEq, here, mt same.mpr here]

theorem children?_eq (built : ofDataset d = .ok r) (parent : Item) {key : PropertyKey}
    (keyEq : PropertyKey.ofQuad parent.2 parent.1.graph = .ok key) :
    r.children? key =
      if r.childSubjects d parent = [] then none else some (r.childSubjects d parent) := by
  rw [← subjectsOf_links built keyEq, (ofDataset_eq_ok built).2]
  exact children?_ofLinks _ key

theorem mem_childSubjects {item parent : Item} {subject : Resource} (member : item ∈ d.identified)
    (found : r.parentItem? d item.1 = some parent)
    (subjectEq : Resource.ofTerm? item.2.subject = some subject) :
    subject ∈ r.childSubjects d parent := by
  rw [childSubjects, List.mem_eraseDups, List.mem_filterMap]
  refine ⟨item, List.mem_filter.mpr ⟨member, ?_⟩, subjectEq⟩
  simp [found, sameArray, Quad.sameProperty]

theorem childSubjects_congr {a b : Item} (same : sameArray a b = true) :
    r.childSubjects d a = r.childSubjects d b := by
  have alike : sameArray a = sameArray b := by
    funext item
    simp only [sameArray, Quad.sameProperty, Bool.and_eq_true, decide_eq_true_eq] at same ⊢
    rw [same.1, same.2.1, same.2.2]
  rw [childSubjects, childSubjects, alike]

end Relationships

end LinkedCommit
