import LinkedCommit.Proofs.FirstMet
import LinkedCommit.Proofs.Relationship.Ascent
/-!
# The numbers of child subjects

`subjectsUnder` are the subjects of the quads that hang under a property, one for each quad, in the
order of the dataset.  `childIndex?` numbers the different ones among them without a gap, in the
order in which their first quads are met (`childIndex?_numbers`).  The path of a quad goes on from
the path of each quad above it with the number of the subject that comes next, if there are several
(`Lineage.exists_segments`).
-/

set_option autoImplicit false

namespace LinkedCommit

/-! ## The subjects under a property -/

def PropertyKey.ofItem? (item : Item) : Option PropertyKey :=
  (PropertyKey.ofQuad item.2 item.1.graph).toOption

namespace Relationships

variable {d : Dataset} {r : Relationships}

def subjectsUnder (r : Relationships) (d : Dataset) (key : PropertyKey) : List Resource :=
  (d.identified.filter fun item =>
    (r.parentItem? d item.1).any fun parent => PropertyKey.ofItem? parent = some key).filterMap
    fun item => Resource.ofTerm? item.2.subject

theorem ofItem?_eq_some_iff {item : Item} {key : PropertyKey} :
    PropertyKey.ofItem? item = some key ↔ PropertyKey.ofQuad item.2 item.1.graph = .ok key :=
  Except.toOption_eq_some_iff

theorem ofItem?_eq_some_iff_sameArray {parent other : Item} {key : PropertyKey}
    (keyEq : PropertyKey.ofItem? parent = some key) :
    PropertyKey.ofItem? other = some key ↔ sameArray parent other = true := by
  rw [ofItem?_eq_some_iff] at keyEq ⊢
  constructor
  · intro keyEq'
    simpa [sameArray] using (PropertyKey.eq_iff keyEq keyEq').mp rfl
  · intro alike
    obtain ⟨sameGraph, sameSubject, samePredicate⟩ :
        parent.1.graph = other.1.graph ∧ parent.2.subject = other.2.subject ∧
          parent.2.predicate = other.2.predicate := by
      simpa [sameArray, Quad.sameProperty] using alike
    rwa [PropertyKey.ofQuad_eq_ok_iff, ← sameGraph, ← sameSubject, ← samePredicate,
      ← PropertyKey.ofQuad_eq_ok_iff]

theorem eraseDups_subjectsUnder {parent : Item} {key : PropertyKey}
    (keyEq : PropertyKey.ofItem? parent = some key) :
    (r.subjectsUnder d key).eraseDups = r.childSubjects d parent := by
  have alike : ∀ other, decide (PropertyKey.ofItem? other = some key) = sameArray parent other := by
    intro other
    rw [Bool.eq_iff_iff, decide_eq_true_iff]
    exact ofItem?_eq_some_iff_sameArray keyEq
  rw [subjectsUnder, childSubjects]
  simp only [alike]

theorem subjectsOf_links_eq (built : ofDataset d = .ok r) (key : PropertyKey) :
    subjectsOf (links d) key = (r.subjectsUnder d key).eraseDups := by
  by_cases found : ∃ parent, PropertyKey.ofItem? parent = some key
  · obtain ⟨parent, keyEq⟩ := found
    rw [subjectsOf_links built (ofItem?_eq_some_iff.mp keyEq), eraseDups_subjectsUnder keyEq]
  · have noLink : (links d).filter (fun l => l.key = key) = [] := by
      rw [List.filter_eq_nil_iff]
      intro l inLinks same
      obtain ⟨item, member, linked⟩ := mem_links_iff.mp inLinks
      obtain ⟨-, -, ⟨parent, -, keyEq⟩, -⟩ :=
        linkTo_eq_ok_iff.mp ((link_eq_ok_iff.mp linked).2 l rfl)
      exact found ⟨(l.parent, parent), ofItem?_eq_some_iff.mpr (of_decide_eq_true same ▸ keyEq)⟩
    have noSubject : r.subjectsUnder d key = [] := by
      rw [subjectsUnder, List.filter_eq_nil_iff.mpr, List.filterMap_nil]
      intro item _ under
      obtain ⟨parent, -, same⟩ := (Option.any_eq_true _ _).mp under
      exact found ⟨parent, of_decide_eq_true same⟩
    rw [subjectsOf, noLink, noSubject]
    rfl

theorem childIndex?_eq (built : ofDataset d = .ok r) (key : PropertyKey) (s : Resource) :
    r.childIndex? key s = (r.subjectsUnder d key).eraseDups.idxOf? s := by
  rw [childIndex?, (ofDataset_eq_ok built).2, children?_ofLinks, ← (ofDataset_eq_ok built).2,
    subjectsOf_links_eq built]
  split
  · rename_i none
    rw [none]
    rfl
  · rfl

/-- The numbers under a property: every subject that hangs there has one and no other has, they are
the numbers from zero on without a gap, and they grow with the place where a subject is first met.
-/
theorem childIndex?_numbers (built : ofDataset d = .ok r) (key : PropertyKey) :
    ∃ number : Resource → Nat,
      (∀ s, r.childIndex? key s = if s ∈ r.subjectsUnder d key then some (number s) else none) ∧
      Set.BijOn number {s | s ∈ r.subjectsUnder d key}
        (Set.Iio (r.subjectsUnder d key).toFinset.card) ∧
      ∀ s ∈ r.subjectsUnder d key, ∀ s' ∈ r.subjectsUnder d key,
        (number s < number s' ↔
          (r.subjectsUnder d key).idxOf s < (r.subjectsUnder d key).idxOf s') := by
  refine ⟨(r.subjectsUnder d key).eraseDups.idxOf, fun s => ?_, ⟨?_, ?_, ?_⟩,
    fun s member s' member' => idxOf_eraseDups_lt_iff member member'⟩
  · rw [childIndex?_eq built]
    split
    · rename_i member
      exact idxOf?_of_mem (List.mem_eraseDups.mpr member)
    · rename_i absent
      exact List.idxOf?_eq_none_iff.mpr (mt List.mem_eraseDups.mp absent)
  · intro s member
    rw [Set.mem_Iio, ← length_eraseDups]
    exact List.idxOf_lt_length_of_mem (List.mem_eraseDups.mpr member)
  · intro s member s' _ same
    exact (List.idxOf_inj (List.mem_eraseDups.mpr member)).mp same
  · intro i below
    rw [Set.mem_Iio, ← length_eraseDups] at below
    refine ⟨(r.subjectsUnder d key).eraseDups[i], ?_, (nodup_eraseDups _).idxOf_getElem i below⟩
    exact List.mem_eraseDups.mp (List.getElem_mem below)

/-! ## The numbers in a path -/

/-- What stands in a lineage before one of its quads is the lineage of that quad. -/
theorem Lineage.of_append {item a : Item} {chain before after : List Item}
    (lineage : Lineage r d item chain) (parts : chain = before ++ a :: after) :
    Lineage r d a (before ++ [a]) := by
  induction lineage generalizing after with
  | top parentless =>
      obtain ⟨rfl, rfl, rfl⟩ : before = [] ∧ a = _ ∧ after = [] := by
        cases before with
        | nil => simpa [eq_comm] using parts
        | cons b before => simp at parts
      exact .top parentless
  | @under item parent chain above higher ih =>
      rcases List.eq_nil_or_concat after with rfl | ⟨rest, last, rfl⟩
      · obtain ⟨rfl, same⟩ := List.append_inj' parts rfl
        cases same
        exact .under above higher
      · rw [List.concat_eq_append, ← List.cons_append, ← List.append_assoc] at parts
        exact ih (List.append_inj' parts rfl).1

theorem Lineage.parentItem?_of_append {item parent child : Item} {before after : List Item}
    (lineage : Lineage r d item (before ++ parent :: child :: after)) :
    r.parentItem? d child.1 = some parent := by
  have parts : before ++ parent :: child :: after = (before ++ [parent]) ++ child :: after := by
    simp
  have own := lineage.of_append parts
  generalize parts : (before ++ [parent]) ++ [child] = chain at own
  cases own with
  | top _ => simpa using congrArg List.length parts
  | under above higher =>
      obtain ⟨upper, rfl⟩ := higher.exists_concat
      have same := (List.append_inj' (List.append_inj' parts rfl).1 rfl).2
      cases same
      exact above

theorem path_of_lineage (built : ofDataset d = .ok r) {item : Item} {chain : List Item}
    {name : String} (lineage : Lineage r d item chain) (member : item ∈ d.identified)
    (isIri : item.2.predicate = .iri name) (index : Option Nat) :
    r.path d item.1 index =
      .ok ⟨r.trail d chain ++ .term name :: (index.map Segment.index).toList⟩ := by
  rw [path_eq_climb member isIri,
    climb_of_lineage built lineage member _ (lineage.length_le member)]
  rfl

/-- The path of a quad goes on from that of a quad above it with the number of the next subject, if
several hang there, and the property of the next quad. -/
theorem Lineage.exists_segments (built : ofDataset d = .ok r) {leaf parent child : Item}
    {before after : List Item} (lineage : Lineage r d leaf (before ++ parent :: child :: after))
    (member : leaf ∈ d.identified) {index : Option Nat} {p : Path}
    (found : r.path d leaf.1 index = .ok p) :
    ∃ key s i above below, PropertyKey.ofItem? parent = some key ∧
      Resource.ofTerm? child.2.subject = some s ∧ r.childIndex? key s = some i ∧
      r.path d parent.1 none = .ok above ∧
      p.segments = above.segments ++
        ((if 1 < (r.subjectsUnder d key).toFinset.card then [.index i] else []) ++
          .term child.2.predicateName :: below) := by
  have inDataset := lineage.mem_identified member
  have above := lineage.parentItem?_of_append
  have own := lineage.of_append rfl
  have childIn : child ∈ d.identified := inDataset child (by simp)
  have parentIn : parent ∈ d.identified := inDataset parent (by simp)
  obtain ⟨parentId, parent⟩ := parent
  obtain ⟨q, key, s, aboveEq, keyEq, subjectEq, -, -⟩ :=
    parent_cases built childIn (parentItem?_eq_some_iff.mp above).1
  cases above.symm.trans aboveEq
  have isIri := (PropertyKey.ofQuad_eq_ok_iff.mp keyEq).2.1
  have isKey : PropertyKey.ofItem? (parentId, parent) = some key := ofItem?_eq_some_iff.mpr keyEq
  have inSubjects := mem_childSubjects childIn above subjectEq
  obtain ⟨i, position⟩ : ∃ i, (r.childSubjects d (parentId, parent)).idxOf? s = some i :=
    ⟨_, idxOf?_of_mem inSubjects⟩
  obtain ⟨chain', lineage', -, spelled⟩ := path_eq_ok built member found
  cases lineage.unique lineage'
  obtain ⟨rest, next⟩ : ∃ rest, r.trail d (child :: after) ++
      .term leaf.2.predicateName :: (index.map Segment.index).toList =
        .term child.2.predicateName :: rest := by
    cases after with
    | nil =>
        obtain ⟨upper, parts⟩ := lineage.exists_concat
        rw [List.append_cons] at parts
        cases (List.append_inj' parts rfl).2
        exact ⟨_, rfl⟩
    | cons next after => exact ⟨_, rfl⟩
  refine ⟨key, s, i, _, rest, isKey, subjectEq, ?_,
    path_of_lineage built own parentIn isIri none, ?_⟩
  · rw [childIndex?_eq built, eraseDups_subjectsUnder isKey]
    exact position
  · rw [spelled, trail_split, number_eq subjectEq position, ← length_eraseDups,
      eraseDups_subjectsUnder isKey, Quad.predicateName_of_iri isIri]
    simp [next]

end Relationships

end LinkedCommit
