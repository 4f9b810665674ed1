import LinkedCommit.Proofs.Commitment.Extraction
import LinkedCommit.Proofs.Relationship.Positions
/-!
# The numbers of values and of child subjects

The entries of a property with several quads end with the numbers from zero on, in the order of the
dataset, and the entry of a property with one quad ends with its name.  The numbers within a path
are those of the subjects that hang under a property, and stand there if it has several
(`siblings_numbered`).
-/

set_option autoImplicit false

namespace LinkedCommit

open Relationships (subjectsUnder)

/-! ## The quads of a property -/

theorem identified_append_singleton (graph : String) (quads : List Quad) (q : Quad) :
    identified graph (quads ++ [q]) = identified graph quads ++ [(⟨graph, quads.length⟩, q)] := by
  simp [identified, List.zipIdx_append]

theorem length_filter_identified (graph : String) (quads : List Quad) (holds : Quad → Bool) :
    ((identified graph quads).filter fun item => holds item.2).length = quads.countP holds := by
  have items : (identified graph quads).map Prod.snd = quads := by
    rw [identified, List.map_map]
    exact List.zipIdx_map_fst 0 quads
  conv_rhs => rw [← items, List.countP_map, List.countP_eq_length_filter]
  rfl

/-- Of the quads of a graph with some property the `i`-th has `i` of them before it. -/
theorem countP_take_of_getElem? {graph : String} {quads : List Quad} (holds : Quad → Bool) {i : Nat}
    {item : Item}
    (found : ((identified graph quads).filter fun other => holds other.2)[i]? = some item) :
    (quads.take item.1.index).countP holds = i := by
  induction quads using List.reverseRecOn with
  | nil => simp [identified] at found
  | append_singleton quads q ih =>
      have member := List.mem_of_mem_filter (List.mem_of_getElem? found)
      have inRange := (List.getElem?_eq_some_iff.mp found).1
      rw [length_filter_identified, List.countP_append, List.countP_singleton] at inRange
      rw [identified_append_singleton, List.filter_append, List.getElem?_append,
        length_filter_identified] at found
      split at found
      · have earlier := List.mem_of_mem_filter (List.mem_of_getElem? found)
        have within := (List.getElem?_eq_some_iff.mp (mem_identified_of_graph.mp earlier).2).1
        rw [List.take_append_of_le_length (Nat.le_of_lt within)]
        exact ih found
      · have last := List.mem_of_mem_filter (List.mem_of_getElem? found)
        rw [List.mem_singleton.mp last, List.take_left]
        split at inRange <;> omega

namespace Dataset

variable {d : Dataset}

def ofProperty (d : Dataset) (key : PropertyKey) : List Item :=
  d.identified.filter fun item => PropertyKey.ofItem? item = some key

theorem filter_graphs {graphs : NameMap (List Quad)} (sorted : graphs.Sorted) {graph : String}
    {holds : Item → Bool} (inGraph : ∀ item, holds item = true → item.1.graph = graph) :
    (graphs.flatMap fun (name, quads) => LinkedCommit.identified name quads).filter holds =
      (LinkedCommit.identified graph ((NameMap.get? graphs graph).getD [])).filter holds := by
  induction graphs with
  | nil => rfl
  | cons head rest ih =>
      obtain ⟨name, quads⟩ := head
      obtain ⟨least, sortedRest⟩ := List.pairwise_cons.mp sorted
      rw [List.flatMap_cons, List.filter_append, ih sortedRest, NameMap.get?]
      by_cases here : name = graph
      · have absent : NameMap.get? rest graph = none := by
          rw [NameMap.get?_eq_none_iff]
          intro member
          exact String.lt_irrefl _ (here ▸ least graph member)
        simp [here, absent, LinkedCommit.identified]
      · have none : (LinkedCommit.identified name quads).filter holds = [] := by
          refine List.filter_eq_nil_iff.mpr fun item member found => here ?_
          rw [← (mem_identified_of_graph.mp member).1, inGraph item found]
        rw [if_neg here, none, List.nil_append]

theorem filter_identified (graph : String) {holds : Item → Bool}
    (inGraph : ∀ item, holds item = true → item.1.graph = graph) :
    d.identified.filter holds = (LinkedCommit.identified graph (d.quadsOf graph)).filter holds :=
  filter_graphs d.sorted inGraph

theorem ofItem?_eq_iff {item other : Item} {key : PropertyKey}
    (keyEq : PropertyKey.ofItem? item = some key) :
    PropertyKey.ofItem? other = some key ↔
      other.1.graph = item.1.graph ∧ other.2.sameProperty item.2 = true := by
  rw [Relationships.ofItem?_eq_some_iff_sameArray keyEq, Relationships.sameArray, Bool.and_eq_true,
    decide_eq_true_eq, Quad.sameProperty_iff, Quad.sameProperty_iff]
  exact and_congr eq_comm (and_congr eq_comm eq_comm)

/-- The quads of a property with some mark are those of its graph with the mark and the property. -/
theorem filter_ofProperty {item : Item} {key : PropertyKey}
    (keyEq : PropertyKey.ofItem? item = some key) (marked : Quad → Bool) :
    (d.ofProperty key).filter (fun other => marked other.2) =
      (LinkedCommit.identified item.1.graph (d.quadsOf item.1.graph)).filter
        fun other => marked other.2 && other.2.sameProperty item.2 := by
  rw [ofProperty, List.filter_filter, filter_identified item.1.graph]
  · refine List.filter_congr fun other member => ?_
    have inGraph := (mem_identified_of_graph.mp member).1
    rw [Bool.eq_iff_iff]
    simp [ofItem?_eq_iff keyEq, inGraph]
  · intro other found
    simp only [Bool.and_eq_true, decide_eq_true_eq] at found
    exact ((ofItem?_eq_iff keyEq).mp found.2).1

/-- The place of a value is its number among the values of its property, if the property has several
quads. -/
theorem place_eq {key : PropertyKey} {i : Nat} {item : Item}
    (found : ((d.ofProperty key).filter fun other => other.2.isValue)[i]? = some item) :
    d.place item = if 1 < (d.ofProperty key).length then some i else none := by
  have keyEq : PropertyKey.ofItem? item = some key := by
    have member := List.mem_of_mem_filter (List.mem_of_getElem? found)
    exact of_decide_eq_true (List.mem_filter.mp member).2
  have all := filter_ofProperty (d := d) keyEq fun _ => true
  simp only [List.filter_true, Bool.true_and] at all
  rw [filter_ofProperty keyEq] at found
  have counted := countP_take_of_getElem? (fun c => c.isValue && c.sameProperty item.2) found
  rw [place, counted, all, length_filter_identified _ _ fun c => c.sameProperty item.2]

end Dataset

/-! ## The numbers of entries -/

def entriesOf (d : Dataset) (entries : List Entry) (key : PropertyKey) : List (Item × Entry) :=
  (d.valued.zip entries).filter fun x => PropertyKey.ofItem? x.1 = some key

theorem map_fst_entriesOf {d : Dataset} {entries : List Entry} (key : PropertyKey)
    (sameLength : d.valued.length = entries.length) :
    (entriesOf d entries key).map Prod.fst =
      (d.ofProperty key).filter fun other => other.2.isValue := by
  rw [entriesOf, Dataset.ofProperty, List.filter_comm]
  conv_rhs => rw [← Dataset.valued, ← List.map_fst_zip (Nat.le_of_eq sameLength), List.filter_map]
  rfl

theorem getElem?_entriesOf {d : Dataset} {entries : List Entry} {key : PropertyKey} {i : Nat}
    {x : Item × Entry} (sameLength : d.valued.length = entries.length)
    (found : (entriesOf d entries key)[i]? = some x) :
    x ∈ d.valued.zip entries ∧
      ((d.ofProperty key).filter fun other => other.2.isValue)[i]? = some x.1 := by
  refine ⟨List.mem_of_mem_filter (List.mem_of_getElem? found), ?_⟩
  rw [← map_fst_entriesOf key sameLength, List.getElem?_map, found, Option.map_some]

/-- Of a property with several quads the entries end with the numbers from zero on, in the order of
the dataset; the entry of a property with one quad ends with its name.  The subjects that hang
under a property are numbered from zero on, each once, in the order in which they are first met.
Where the path of an entry goes on below a quad, the number of the next subject stands there if the
property has several of them. -/
theorem siblings_numbered {d : Dataset} {prime : Nat} {entries : List Entry}
    (extracted : extractEntries d prime = .ok entries) :
    ∃ r, Relationships.ofDataset d = .ok r ∧
      List.Forall₂ (Extract.Yields d r prime) d.valued entries ∧
      (∀ (key : PropertyKey) (i : Nat) (item : Item) (e : Entry),
        (entriesOf d entries key)[i]? = some (item, e) →
        .term key.predicate :: (if 1 < (d.ofProperty key).length then [.index i] else []) <:+
          e.path.segments) ∧
      (∀ key, ∃ number : Resource → Nat,
        (∀ s, r.childIndex? key s = if s ∈ r.subjectsUnder d key then some (number s) else none) ∧
        Set.BijOn number {s | s ∈ r.subjectsUnder d key}
          (Set.Iio (r.subjectsUnder d key).toFinset.card) ∧
        ∀ s ∈ r.subjectsUnder d key, ∀ s' ∈ r.subjectsUnder d key,
          (number s < number s' ↔
            (r.subjectsUnder d key).idxOf s < (r.subjectsUnder d key).idxOf s')) ∧
      ∀ leaf e, (leaf, e) ∈ d.valued.zip entries → ∃ chain, r.Lineage d leaf chain ∧
        ∀ before parent child after, chain = before ++ parent :: child :: after →
          ∃ key s i above below, PropertyKey.ofItem? parent = some key ∧
            Resource.ofTerm? child.2.subject = some s ∧ r.childIndex? key s = some i ∧
            r.path d parent.1 none = .ok above ∧
            e.path.segments = above.segments ++
              ((if 1 < (r.subjectsUnder d key).toFinset.card then [.index i] else []) ++
                .term child.2.predicateName :: below) := by
  obtain ⟨r, built, yields, -⟩ := Extract.extractEntries_eq_ok extracted
  obtain ⟨sameLength, related⟩ := List.forall₂_iff_zip.mp yields
  refine ⟨r, built, yields, ?_, Relationships.childIndex?_numbers built, ?_⟩
  · intro key i item e found
    obtain ⟨inZip, atPlace⟩ := getElem?_entriesOf sameLength found
    have member := List.mem_of_mem_filter (List.of_mem_zip inZip).1
    have keyEq : PropertyKey.ofItem? item = some key :=
      of_decide_eq_true (List.mem_filter.mp (List.mem_of_getElem? found)).2
    obtain ⟨chain, -, isIri, spelled⟩ := Relationships.path_eq_ok built member (related inZip).path
    have named : item.2.predicateName = key.predicate :=
      Quad.predicateName_of_iri (PropertyKey.ofQuad_eq_ok_iff.mp
        (Relationships.ofItem?_eq_some_iff.mp keyEq)).2.1
    have numbered : ((d.place item).map Segment.index).toList =
        if 1 < (d.ofProperty key).length then [.index i] else [] := by
      rw [Dataset.place_eq atPlace]
      split <;> rfl
    rw [spelled, named, numbered]
    exact List.suffix_append _ _
  · intro leaf e inZip
    have member := List.mem_of_mem_filter (List.of_mem_zip inZip).1
    have isPath := (related inZip).path
    obtain ⟨chain, lineage, -, -⟩ := Relationships.path_eq_ok built member isPath
    refine ⟨chain, lineage, ?_⟩
    rintro before parent child after rfl
    exact lineage.exists_segments built member isPath

/-- Under one property are a text, a blank node, an identifier, and a blank node with a graph of
its own.  The text and the identifier have the numbers zero and one as values; of the subjects
below, the blank node is the first, the identifier with its two quads the second, and the one in
the graph the third. -/
theorem siblings_numbered_of_mixed_property :
    let has (object : Term) : Quad := ⟨.iri "urn:r", .iri "urn:sub", object, none⟩
    let name (subject : Term) (s : String) (graph : Option Term) : Quad :=
      ⟨subject, .iri "urn:name", .literal ⟨s, Xsd.string, none⟩, graph⟩
    let d := Dataset.ofQuads
      [has (.literal ⟨"t", Xsd.string, none⟩), has (.blank "_:c"), has (.iri "urn:b"),
        has (.blank "_:g"), name (.blank "_:c") "x" none, name (.iri "urn:b") "y" none,
        name (.iri "urn:b") "z" none, name (.iri "urn:s") "w" (some (.blank "_:g"))]
    let sub : PropertyKey := ⟨.iri "urn:r", "urn:sub", defaultGraph⟩
    let nameOfB : PropertyKey := ⟨.iri "urn:b", "urn:name", defaultGraph⟩
    let parent : Item := (⟨defaultGraph, 3⟩, has (.blank "_:g"))
    let leaf : Item := (⟨"_:g", 0⟩, name (.iri "urn:s") "w" (some (.blank "_:g")))
    ∃ entries r, extractEntries d 101 = .ok entries ∧ Relationships.ofDataset d = .ok r ∧
      (∃ item e, (entriesOf d entries sub)[1]? = some (item, e) ∧ e.value = .string "urn:b" ∧
        [.term "urn:sub", .index 1] <:+ e.path.segments) ∧
      (∃ item e, (entriesOf d entries nameOfB)[1]? = some (item, e) ∧ e.value = .string "z" ∧
        [.term "urn:name", .index 1] <:+ e.path.segments) ∧
      (∃ number : Resource → Nat, (∀ s, r.childIndex? sub s =
          if s ∈ r.subjectsUnder d sub then some (number s) else none) ∧
        Set.BijOn number {s | s ∈ r.subjectsUnder d sub} (Set.Iio 3) ∧
        number (.blank "_:c") < number (.iri "urn:b") ∧
        number (.iri "urn:b") < number (.iri "urn:s")) ∧
      ∃ e i above below, (leaf, e) ∈ d.valued.zip entries ∧ r.Lineage d leaf [parent, leaf] ∧
        r.childIndex? sub (.iri "urn:s") = some i ∧ r.path d parent.1 none = .ok above ∧
        e.path.segments = above.segments ++ .index i :: .term "urn:name" :: below := by
  intro has name d sub nameOfB parent leaf
  have computed : (extractEntries d 101).passes (fun entries =>
      (Relationships.ofDataset d).passes fun r =>
        ((entriesOf d entries sub)[1]?.any fun x => x.2.value = .string "urn:b") ∧
        ((entriesOf d entries nameOfB)[1]?.any fun x => x.2.value = .string "z") ∧
        r.subjectsUnder d sub = [.blank "_:c", .iri "urn:b", .iri "urn:b", .iri "urn:s"] ∧
        ((d.valued.zip entries).any fun x => x.1 = leaf) ∧ r.parentItem? d leaf.1 = some parent ∧
        r.parent? parent.1 = none) = true := by decide +kernel
  obtain ⟨entries, extracted, computed⟩ := Except.exists_of_passes computed
  obtain ⟨r, built, holds⟩ := Except.exists_of_passes computed
  obtain ⟨second, second', subjects, leafIn, above, parentless⟩ := of_decide_eq_true holds
  obtain ⟨r', built', -, values, children, paths⟩ := siblings_numbered extracted
  cases built.symm.trans built'
  have several : 1 < (d.ofProperty sub).length := by decide +kernel
  have several' : 1 < (d.ofProperty nameOfB).length := by decide +kernel
  have lineage : r.Lineage d leaf [parent, leaf] := .under above (.top parentless)
  refine ⟨entries, r, extracted, built, ?_, ?_, ?_, ?_⟩
  · obtain ⟨⟨item, e⟩, found, value⟩ := (Option.any_eq_true _ _).mp second
    have ends := values sub 1 item e found
    rw [if_pos several] at ends
    exact ⟨item, e, found, of_decide_eq_true value, ends⟩
  · obtain ⟨⟨item, e⟩, found, value⟩ := (Option.any_eq_true _ _).mp second'
    have ends := values nameOfB 1 item e found
    rw [if_pos several'] at ends
    exact ⟨item, e, found, of_decide_eq_true value, ends⟩
  · obtain ⟨number, indices, bijective, ordered⟩ := children sub
    have three : (r.subjectsUnder d sub).toFinset.card = 3 := by
      rw [subjects]
      decide
    rw [three] at bijective
    refine ⟨number, indices, bijective, (ordered _ ?_ _ ?_).mpr ?_, (ordered _ ?_ _ ?_).mpr ?_⟩ <;>
      rw [subjects] <;> decide
  · obtain ⟨⟨item, e⟩, inZip, same⟩ := List.any_eq_true.mp leafIn
    obtain rfl : item = leaf := of_decide_eq_true same
    obtain ⟨chain, lineage', steps⟩ := paths _ e inZip
    cases lineage.unique lineage'
    obtain ⟨key, s, i, upper, below, keyEq, subject, position, upperPath, spelled⟩ :=
      steps [] parent leaf [] rfl
    obtain rfl : sub = key := Option.some.inj keyEq
    obtain rfl : Resource.iri "urn:s" = s := Option.some.inj subject
    have many : 1 < (r.subjectsUnder d sub).toFinset.card := by
      rw [subjects]
      decide
    rw [if_pos many] at spelled
    exact ⟨e, i, upper, below, inZip, lineage, position, upperPath, spelled⟩

end LinkedCommit
