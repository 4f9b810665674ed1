import LinkedCommit.Proofs.FirstMet
import LinkedCommit.Proofs.Relationship.Identified
import LinkedCommit.Proofs.Result
/-!
# The links between quads

A dataset determines at most one link for each quad, to its parent (`link`).  The relationships of
a dataset are those of its links, taken in the order of the quads (`ofDataset_eq_ok`); `parents` are
the links themselves, and `children?` lists the subjects linked to a property in the order in which
they are first met (`children?_ofLinks`).
-/

set_option autoImplicit false

namespace LinkedCommit

/-! ## Subjects, predicates and keys -/

theorem Resource.ofTerm?_injective {a b : Term} {r : Resource} (first : ofTerm? a = some r)
    (second : ofTerm? b = some r) : a = b := by
  cases a <;> cases b <;> cases first <;> cases second <;> rfl

theorem Quad.subjectResource_eq_ok_iff {q : Quad} {r : Resource} :
    q.subjectResource = .ok r ↔ Resource.ofTerm? q.subject = some r := by
  rw [subjectResource]
  cases Resource.ofTerm? q.subject <;> simp

theorem Quad.predicateIri_eq_ok_iff {q : Quad} {name : String} :
    q.predicateIri = .ok name ↔ q.predicate = .iri name := by
  rw [predicateIri]
  cases q.predicate <;> simp [Term.iri?]

theorem PropertyKey.ofQuad_eq_ok_iff {q : Quad} {graph : String} {key : PropertyKey} :
    ofQuad q graph = .ok key ↔ Resource.ofTerm? q.subject = some key.subject ∧
      q.predicate = .iri key.predicate ∧ graph = key.graph := by
  obtain ⟨subject, predicate, name⟩ := key
  simp only [ofQuad, Except.bind_eq_ok_iff, Quad.subjectResource_eq_ok_iff,
    Quad.predicateIri_eq_ok_iff]
  constructor
  · rintro ⟨s, subjectEq, p, predicateEq, same⟩
    cases same
    exact ⟨subjectEq, predicateEq, rfl⟩
  · rintro ⟨subjectEq, predicateEq, rfl⟩
    exact ⟨subject, subjectEq, predicate, predicateEq, rfl⟩

theorem Quad.sameProperty_iff {a b : Quad} :
    a.sameProperty b = true ↔ a.subject = b.subject ∧ a.predicate = b.predicate := by
  simp [sameProperty]

theorem PropertyKey.eq_iff {a b : Quad} {graph graph' : String} {key key' : PropertyKey}
    (first : ofQuad a graph = .ok key) (second : ofQuad b graph' = .ok key') :
    key = key' ↔ graph = graph' ∧ a.sameProperty b = true := by
  obtain ⟨s, p, g⟩ := key
  obtain ⟨s', p', g'⟩ := key'
  rw [ofQuad_eq_ok_iff] at first second
  obtain ⟨subject, predicate, rfl⟩ := first
  obtain ⟨subject', predicate', rfl⟩ := second
  rw [Quad.sameProperty_iff, predicate, predicate']
  constructor
  · intro same
    cases same
    exact ⟨rfl, Resource.ofTerm?_injective subject subject', rfl⟩
  · rintro ⟨rfl, sameSubject, samePredicate⟩
    rw [sameSubject, subject'] at subject
    cases subject
    cases samePredicate
    rfl

namespace Relationships

/-! ## Links -/

structure Link where
  child : QuadId
  parent : QuadId
  key : PropertyKey
  subject : Resource

def linkTo (d : Dataset) (item : Item) (parentId : QuadId) : Except CommitError Link := do
  let parent ← d.lookup parentId
  let key ← PropertyKey.ofQuad parent parentId.graph
  let subject ← item.2.subjectResource
  return ⟨item.1, parentId, key, subject⟩

def link (d : Dataset) (item : Item) : Except CommitError (Option Link) := do
  match ← findParent d item.1 item.2 with
  | none => return none
  | some parentId => return some (← linkTo d item parentId)

def addLink (r : Relationships) (l : Link) : Relationships :=
  ⟨r.parents ++ [(l.child, l.parent)], addChild l.key l.subject r.children⟩

def ofLinks (links : List Link) : Relationships := links.foldl addLink empty

theorem linkTo_eq_ok_iff {d : Dataset} {item : Item} {parentId : QuadId} {l : Link} :
    linkTo d item parentId = .ok l ↔ l.child = item.1 ∧ l.parent = parentId ∧
      (∃ parent, d.lookup l.parent = .ok parent ∧
        PropertyKey.ofQuad parent l.parent.graph = .ok l.key) ∧
      Resource.ofTerm? item.2.subject = some l.subject := by
  simp only [linkTo, Except.bind_eq_ok_iff, Quad.subjectResource_eq_ok_iff]
  constructor
  · rintro ⟨parent, there, key, keyEq, subject, subjectEq, same⟩
    cases same
    exact ⟨rfl, rfl, ⟨parent, there, keyEq⟩, subjectEq⟩
  · obtain ⟨child, above, key, subject⟩ := l
    rintro ⟨rfl, rfl, ⟨parent, there, keyEq⟩, subjectEq⟩
    exact ⟨parent, there, key, keyEq, subject, subjectEq, rfl⟩

theorem link_eq_ok_iff {d : Dataset} {item : Item} {l? : Option Link} :
    link d item = .ok l? ↔ findParent d item.1 item.2 = .ok (l?.map Link.parent) ∧
      ∀ l, l? = some l → linkTo d item l.parent = .ok l := by
  rw [link, Except.bind_eq_ok_iff]
  constructor
  · rintro ⟨_ | parentId, found, done⟩
    · cases done
      exact ⟨found, nofun⟩
    · obtain ⟨l, linked, same⟩ := Except.bind_eq_ok_iff.mp done
      cases same
      have parentEq := (linkTo_eq_ok_iff.mp linked).2.1
      refine ⟨by rw [found, Option.map_some, parentEq], ?_⟩
      intro l' same
      cases same
      rw [parentEq, linked]
  · rintro ⟨found, linked⟩
    refine ⟨_, found, ?_⟩
    cases l? with
    | none => rfl
    | some l => exact Except.bind_eq_ok_iff.mpr ⟨l, linked l rfl, rfl⟩

theorem add_eq (d : Dataset) (r : Relationships) (item : Item) :
    add d r item = (link d item).map fun l => (l.map (addLink r)).getD r := by
  obtain ⟨id, q⟩ := item
  simp only [add, link, linkTo]
  rcases findParent d id q with _ | _ | parentId
  · rfl
  · rfl
  · show (d.lookup parentId >>= _) = Except.map _ ((d.lookup parentId >>= _) >>= _)
    rcases d.lookup parentId with _ | parent
    · rfl
    · show (PropertyKey.ofQuad parent parentId.graph >>= _) =
        Except.map _ ((PropertyKey.ofQuad parent parentId.graph >>= _) >>= _)
      rcases PropertyKey.ofQuad parent parentId.graph with _ | key
      · rfl
      · show (q.subjectResource >>= _) = Except.map _ ((q.subjectResource >>= _) >>= _)
        cases q.subjectResource <;> rfl

/-- The link of a quad where it can be told. -/
def link? (d : Dataset) (item : Item) : Option Link := (link d item).toOption.join

theorem link?_eq_some_iff {d : Dataset} {item : Item} {l : Link} :
    link? d item = some l ↔ link d item = .ok (some l) := by
  rw [link?]
  rcases link d item with e | _ | l' <;> simp [Except.toOption]

def links (d : Dataset) : List Link := d.identified.filterMap (link? d)

theorem mem_links_iff {d : Dataset} {l : Link} :
    l ∈ links d ↔ ∃ item ∈ d.identified, link d item = .ok (some l) := by
  simp only [links, List.mem_filterMap, link?_eq_some_iff]

theorem foldlM_add {d : Dataset} {items : List Item} {r r' : Relationships}
    (built : items.foldlM (add d) r = .ok r') :
    (∀ item ∈ items, ∃ l?, link d item = .ok l?) ∧
      r' = (items.filterMap (link? d)).foldl addLink r := by
  induction items generalizing r with
  | nil =>
      cases built
      exact ⟨fun item member => (List.not_mem_nil member).elim, rfl⟩
  | cons item rest ih =>
      rw [List.foldlM_cons, add_eq] at built
      obtain ⟨next, linked, built⟩ := Except.bind_eq_ok_iff.mp built
      obtain ⟨others, rfl⟩ := ih built
      cases first : link d item with
      | error e =>
          rw [first] at linked
          cases linked
      | ok l? =>
          rw [first] at linked
          cases linked
          refine ⟨List.forall_mem_cons.mpr ⟨⟨l?, first⟩, others⟩, ?_⟩
          have head : link? d item = l? := by
            rw [link?, first]
            rfl
          cases l? <;> simp [head]

theorem ofDataset_eq_ok {d : Dataset} {r : Relationships} (built : ofDataset d = .ok r) :
    (∀ item ∈ d.identified, ∃ l?, link d item = .ok l?) ∧ r = ofLinks (links d) :=
  foldlM_add built

/-! ## What the links make of the tables -/

theorem ofLinks_append_singleton (links : List Link) (l : Link) :
    ofLinks (links ++ [l]) = addLink (ofLinks links) l := by
  simp [ofLinks]

theorem parents_ofLinks (links : List Link) :
    (ofLinks links).parents = links.map fun l => (l.child, l.parent) := by
  induction links using List.reverseRecOn with
  | nil => rfl
  | append_singleton links l ih =>
      rw [ofLinks_append_singleton, List.map_append, ← ih]
      rfl

theorem lookup_addChild (key other : PropertyKey) (child : Resource)
    (table : List (PropertyKey × List Resource)) :
    ((addChild key child table).find? fun entry => entry.1 = other).map Prod.snd =
      if key = other then
        let old := ((table.find? fun entry => entry.1 = other).map Prod.snd).getD []
        some (if child ∈ old then old else old ++ [child])
      else (table.find? fun entry => entry.1 = other).map Prod.snd := by
  induction table with
  | nil =>
      by_cases same : key = other <;> simp [addChild, same]
  | cons entry rest ih =>
      obtain ⟨first, children⟩ := entry
      by_cases here : first = key
      · subst here
        by_cases same : first = other <;> simp [addChild, same]
      · by_cases same : first = other
        · subst same
          simp [addChild, here, Ne.symm here]
        · simp [addChild, here, same, ih]

def subjectsOf (links : List Link) (key : PropertyKey) : List Resource :=
  ((links.filter fun l => l.key = key).map Link.subject).eraseDups

theorem children?_ofLinks (links : List Link) (key : PropertyKey) :
    (ofLinks links).children? key =
      if subjectsOf links key = [] then none else some (subjectsOf links key) := by
  induction links using List.reverseRecOn with
  | nil => rfl
  | append_singleton links l ih =>
      rw [ofLinks_append_singleton]
      show ((addChild l.key l.subject (ofLinks links).children).find? _).map Prod.snd = _
      rw [lookup_addChild]
      by_cases same : l.key = key
      · have old : (((ofLinks links).children.find? fun entry => entry.1 = key).map
            Prod.snd).getD [] = subjectsOf links key := by
          show ((ofLinks links).children? key).getD [] = _
          rw [ih]
          split
          · rename_i none
            rw [none]
            rfl
          · rfl
        have grown : subjectsOf (links ++ [l]) key =
            if l.subject ∈ subjectsOf links key then subjectsOf links key
            else subjectsOf links key ++ [l.subject] := by
          simp only [subjectsOf, List.filter_append, List.filter_singleton, same, decide_true,
            List.map_append, List.mem_eraseDups]
          exact eraseDups_append_singleton _ _
        have nonempty : subjectsOf (links ++ [l]) key ≠ [] := by
          rw [grown]
          split
          · rename_i member
            exact List.ne_nil_of_mem member
          · simp
        rw [if_pos same, if_neg nonempty, grown, old]
      · have unchanged : subjectsOf (links ++ [l]) key = subjectsOf links key := by
          simp [subjectsOf, same]
        rw [if_neg same, unchanged]
        exact ih

end Relationships

end LinkedCommit
