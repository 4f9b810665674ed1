import LinkedCommit.Proofs.Commitment.Duplicate
import LinkedCommit.Proofs.Commitment.Extraction
/-!
# Quads with one path

A path is spelled by a lineage, and it can be read back: the terms tell how many quads the lineage
has, and the numbers which of several subjects comes next.  What it does not tell is the graph of a
quad, nor the subject and graph of the quad at the top.
-/

set_option autoImplicit false

namespace LinkedCommit

/-- A term followed by indices only is where a path was last extended. -/
theorem Segment.append_term_inj {first first' numbers numbers' : List Segment} {name name' : String}
    (indices : ∀ s ∈ numbers, s.term? = none) (indices' : ∀ s ∈ numbers', s.term? = none)
    (same : first ++ .term name :: numbers = first' ++ .term name' :: numbers') :
    first = first' ∧ name = name' ∧ numbers = numbers' := by
  rcases List.append_eq_append_iff.mp same with ⟨more, rfl, rest⟩ | ⟨more, rfl, rest⟩
  · cases more with
    | nil =>
        cases rest
        exact ⟨by simp, rfl, rfl⟩
    | cons s more =>
        rw [List.cons_append, List.cons.injEq] at rest
        have inNumbers : Segment.term name' ∈ numbers := by simp [rest.2]
        cases indices _ inNumbers
  · cases more with
    | nil =>
        cases rest
        exact ⟨by simp, rfl, rfl⟩
    | cons s more =>
        rw [List.cons_append, List.cons.injEq] at rest
        have inNumbers : Segment.term name ∈ numbers' := by simp [rest.2]
        cases indices' _ inNumbers

namespace Relationships

variable {d : Dataset} {r : Relationships}

theorem number_indices (parent child : Item) : ∀ s ∈ r.number d parent child, s.term? = none := by
  intro s member
  simp only [number] at member
  split at member
  · obtain ⟨position, -, rfl⟩ := Option.map_eq_some_iff.mp (Option.mem_toList.mp member)
    rfl
  · cases member

theorem number_congr {a b : Item} (same : sameArray a b = true) (child : Item) :
    r.number d a child = r.number d b child := by
  rw [number, number, childSubjects_congr same]

theorem eq_of_number_eq {parent child child' : Item} {subject subject' : Resource}
    (subjectEq : Resource.ofTerm? child.2.subject = some subject)
    (subjectEq' : Resource.ofTerm? child'.2.subject = some subject')
    (member : subject ∈ r.childSubjects d parent) (member' : subject' ∈ r.childSubjects d parent)
    (same : r.number d parent child = r.number d parent child') : subject = subject' := by
  cases position : (r.childSubjects d parent).idxOf? subject with
  | none => exact absurd member (List.idxOf?_eq_none_iff.mp position)
  | some n =>
      cases position' : (r.childSubjects d parent).idxOf? subject' with
      | none => exact absurd member' (List.idxOf?_eq_none_iff.mp position')
      | some n' =>
          rw [number_eq subjectEq position, number_eq subjectEq' position'] at same
          obtain ⟨lt, found, -⟩ := List.idxOf?_eq_some_iff.mp position
          obtain ⟨lt', found', -⟩ := List.idxOf?_eq_some_iff.mp position'
          have sameIndex : n = n' := by
            by_cases several : 1 < (r.childSubjects d parent).length
            · simpa [several] using same
            · omega
          subst sameIndex
          exact found.symm.trans found'

/-- Two lineages part without a trace where their tops differ, or where at one depth they have one
subject in two graphs. -/
def Confusable (chain chain' : List Item) : Prop :=
  (∃ top top' : Item, chain.head? = some top ∧ chain'.head? = some top' ∧
    (top.2.subject ≠ top'.2.subject ∨ top.1.graph ≠ top'.1.graph)) ∨
  ∃ (depth : Nat) (a b : Item), chain[depth]? = some a ∧ chain'[depth]? = some b ∧
    a.2.subject = b.2.subject ∧ a.1.graph ≠ b.1.graph

theorem Confusable.append {chain chain' more more' : List Item}
    (confusable : Confusable chain chain') : Confusable (chain ++ more) (chain' ++ more') := by
  rcases confusable with ⟨top, top', first, first', differ⟩ | ⟨depth, a, b, atA, atB, alike⟩
  · left
    refine ⟨top, top', ?_, ?_, differ⟩
    · rw [List.head?_append, first, Option.some_or]
    · rw [List.head?_append, first', Option.some_or]
  · right
    refine ⟨depth, a, b, ?_, ?_, alike⟩
    · rw [List.getElem?_append_left (List.getElem?_eq_some_iff.mp atA).1, atA]
    · rw [List.getElem?_append_left (List.getElem?_eq_some_iff.mp atB).1, atB]

theorem Lineage.same_end (built : ofDataset d = .ok r) {item item' : Item}
    {chain chain' : List Item} (lineage : Lineage r d item chain)
    (lineage' : Lineage r d item' chain') (member : item ∈ d.identified)
    (member' : item' ∈ d.identified) (same : r.trail d chain = r.trail d chain')
    (apart : ¬ Confusable chain chain') :
    chain.length = chain'.length ∧ item.2.subject = item'.2.subject ∧
      item.1.graph = item'.1.graph := by
  induction lineage generalizing item' chain' with
  | @top item parentless =>
      cases lineage' with
      | top _ =>
          refine ⟨rfl, ?_⟩
          by_contra differ
          exact apart (Or.inl ⟨item, item', rfl, rfl, not_and_or.mp differ⟩)
      | under above higher =>
          rw [higher.trail_concat] at same
          simp [trail] at same
  | @under item parent chain above higher ih =>
      cases lineage' with
      | top _ =>
          rw [higher.trail_concat] at same
          simp [trail] at same
      | @under _ parent' chain' above' higher' =>
          rw [higher.trail_concat, higher'.trail_concat] at same
          obtain ⟨sameTrail, sameName, sameNumber⟩ := Segment.append_term_inj
            (number_indices parent item) (number_indices parent' item') same
          obtain ⟨there, -, ⟨subject, subjectEq⟩, name, isIri⟩ :=
            parentItem_cases built member above
          obtain ⟨there', -, ⟨subject', subjectEq'⟩, name', isIri'⟩ :=
            parentItem_cases built member' above'
          obtain ⟨sameLength, sameSubject, sameGraph⟩ := ih higher' there there' sameTrail
            fun confusable => apart confusable.append
          have samePredicate : parent.2.predicate = parent'.2.predicate := by
            rw [Quad.predicateName_of_iri isIri, Quad.predicateName_of_iri isIri'] at sameName
            rw [isIri, isIri', sameName]
          have siblings : sameArray parent parent' = true := by
            simp [sameArray, Quad.sameProperty, sameGraph, sameSubject, samePredicate]
          rw [← number_congr siblings] at sameNumber
          have inSubjects' := mem_childSubjects member' above' subjectEq'
          rw [← childSubjects_congr siblings] at inSubjects'
          have sameChild := eq_of_number_eq subjectEq subjectEq'
            (mem_childSubjects member above subjectEq) inSubjects' sameNumber
          have sameTerm : item.2.subject = item'.2.subject :=
            Resource.ofTerm?_injective subjectEq (sameChild ▸ subjectEq')
          refine ⟨by simp [sameLength], sameTerm, ?_⟩
          by_contra differ
          exact apart (Or.inr ⟨chain.length, item, item', by simp, by simp [sameLength], sameTerm,
            differ⟩)

/-- The quads without a parent have one subject and are in one graph. -/
def OneTop (r : Relationships) (d : Dataset) : Prop :=
  ∀ a ∈ d.identified, ∀ b ∈ d.identified, r.parent? a.1 = none → r.parent? b.1 = none →
    a.2.subject = b.2.subject ∧ a.1.graph = b.1.graph

instance (r : Relationships) (d : Dataset) : Decidable (r.OneTop d) :=
  inferInstanceAs (Decidable (∀ a ∈ d.identified, ∀ b ∈ d.identified, r.parent? a.1 = none →
    r.parent? b.1 = none → a.2.subject = b.2.subject ∧ a.1.graph = b.1.graph))

end Relationships

def Dataset.SubjectsApart (d : Dataset) : Prop :=
  ∀ a ∈ d.identified, ∀ b ∈ d.identified, a.2.subject = b.2.subject → a.1.graph = b.1.graph

instance (d : Dataset) : Decidable d.SubjectsApart :=
  inferInstanceAs (Decidable (∀ a ∈ d.identified, ∀ b ∈ d.identified,
    a.2.subject = b.2.subject → a.1.graph = b.1.graph))

namespace Relationships

variable {d : Dataset} {r : Relationships}

theorem not_confusable (oneTop : r.OneTop d) (apart : d.SubjectsApart) {item item' : Item}
    {chain chain' : List Item} (lineage : Lineage r d item chain)
    (lineage' : Lineage r d item' chain') (member : item ∈ d.identified)
    (member' : item' ∈ d.identified) : ¬ Confusable chain chain' := by
  have inDataset := lineage.mem_identified member
  have inDataset' := lineage'.mem_identified member'
  rintro (⟨top, top', first, first', differ⟩ | ⟨depth, a, b, atA, atB, sameSubject, differ⟩)
  · obtain ⟨top, head, parentless⟩ := lineage.head
    obtain ⟨top', head', parentless'⟩ := lineage'.head
    cases head.symm.trans first
    cases head'.symm.trans first'
    obtain ⟨sameSubject, sameGraph⟩ := oneTop top (inDataset _ (List.mem_of_head? head))
      top' (inDataset' _ (List.mem_of_head? head')) parentless parentless'
    rcases differ with differ | differ
    · exact differ sameSubject
    · exact differ sameGraph
  · exact differ (apart a (inDataset _ (List.mem_of_getElem? atA))
      b (inDataset' _ (List.mem_of_getElem? atB)) sameSubject)

end Relationships

/-! ## Entries with one path -/

namespace Extract

variable {d : Dataset} {r : Relationships} {prime : Nat}

theorem Yields.confusable (built : Relationships.ofDataset d = .ok r) {a b : Item} {e e' : Entry}
    (inDataset : a ∈ d.valued) (inDataset' : b ∈ d.valued) (yields : Yields d r prime a e)
    (yields' : Yields d r prime b e') (differ : a.1 ≠ b.1) (same : e.path = e'.path) :
    ∃ chain chain', r.Lineage d a chain ∧ r.Lineage d b chain' ∧
      Relationships.Confusable chain chain' := by
  have member := List.mem_of_mem_filter inDataset
  have member' := List.mem_of_mem_filter inDataset'
  obtain ⟨chain, lineage, isIri, spelled⟩ := Relationships.path_eq_ok built member yields.path
  obtain ⟨chain', lineage', isIri', spelled'⟩ := Relationships.path_eq_ok built member' yields'.path
  refine ⟨chain, chain', lineage, lineage', ?_⟩
  by_contra apart
  rw [same, spelled'] at spelled
  obtain ⟨sameTrail, sameName, samePlace⟩ := Segment.append_term_inj (by simp [Segment.term?])
    (by simp [Segment.term?]) spelled
  obtain ⟨-, sameSubject, sameGraph⟩ := Relationships.Lineage.same_end built lineage lineage'
    member member' sameTrail.symm apart
  have alike : a.2.sameProperty b.2 = true := by
    rw [Quad.sameProperty_iff, isIri, isIri', sameName]
    exact ⟨sameSubject, rfl⟩
  have placesEq : d.place a = d.place b := by
    have indices := congrArg List.head? samePlace
    rw [Option.head?_toList, Option.head?_toList] at indices
    exact Option.map_injective (fun _ _ sameIndex => Segment.index.inj sameIndex) indices.symm
  exact differ (congrArg Prod.fst
    (Dataset.eq_of_place_eq inDataset inDataset' sameGraph alike placesEq))

theorem paths_nodup (built : Relationships.ofDataset d = .ok r) (oneTop : r.OneTop d)
    (apart : d.SubjectsApart) {entries : List Entry}
    (yields : List.Forall₂ (Yields d r prime) d.valued entries) :
    (entries.map Entry.path).Nodup := by
  have ids : (d.valued.map Prod.fst).Nodup :=
    d.identified_nodup.sublist (List.filter_sublist.map Prod.fst)
  have lengths := yields.length_eq
  rw [List.Nodup, List.pairwise_map, List.pairwise_iff_getElem]
  intro i j inEntries inEntries' before same
  have inValued : i < d.valued.length := by omega
  have inValued' : j < d.valued.length := by omega
  have member := List.getElem_mem inValued
  have member' := List.getElem_mem inValued'
  have differ : d.valued[i].1 ≠ d.valued[j].1 := by
    have pairwise := List.pairwise_iff_getElem.mp (List.pairwise_map.mp ids)
    exact pairwise i j inValued inValued' before
  obtain ⟨chain, chain', lineage, lineage', confusable⟩ := Yields.confusable built member member'
    (yields.get inValued inEntries) (yields.get inValued' inEntries') differ same
  exact Relationships.not_confusable oneTop apart lineage lineage'
    (List.mem_of_mem_filter member) (List.mem_of_mem_filter member') confusable

end Extract

/-- Entries of different quads have one path only where their lineages are confusable.  With one
top, and no subject in two graphs, all paths are different; a document with such a dataset is then
not refused for a key that is there already, unless the tree had the key of an entry before (a new
one has none) or digests collide: those of two paths, or those of the nodes. -/
theorem extractEntries_distinct_paths {d : Dataset} {prime : Nat} {entries : List Entry}
    (extracted : extractEntries d prime = .ok entries) :
    ∃ r, Relationships.ofDataset d = .ok r ∧
      List.Forall₂ (Extract.Yields d r prime) d.valued entries ∧
      (∀ a e b e', (a, e) ∈ d.valued.zip entries → (b, e') ∈ d.valued.zip entries → a.1 ≠ b.1 →
        e.path = e'.path → ∃ chain chain', r.Lineage d a chain ∧ r.Lineage d b chain' ∧
          Relationships.Confusable chain chain') ∧
      (r.OneTop d → d.SubjectsApart → (entries.map Entry.path).Nodup ∧
        ∀ (source : List UInt8) (options : CommitOptions) (document : Json) (T : Trie),
          options.hasher.prime = prime → Commitment.readDocument source = .ok document →
          options.processor options.loader document = .ok d → options.tree.Represents T →
          Commitment.ofDocument source options = .error (.tree .entryIndexAlreadyExists) →
          ∃ (items : List (EncodedEntry options.hasher)) (e : EncodedEntry options.hasher)
            (after : List Entry), entries = items.map EncodedEntry.entry ++ e.entry :: after ∧
            (e.key ∈ T.keys ∨ Commitment.DigestsCollide options.tree items e)) := by
  obtain ⟨r, built, yields, -⟩ := Extract.extractEntries_eq_ok extracted
  refine ⟨r, built, yields, ?_, ?_⟩
  · intro a e b e' inZip inZip' differ same
    obtain ⟨-, related⟩ := List.forall₂_iff_zip.mp yields
    exact (related inZip).confusable built (List.of_mem_zip inZip).1 (List.of_mem_zip inZip').1
      (related inZip') differ same
  · intro oneTop apart
    have nodup := Extract.paths_nodup built oneTop apart yields
    refine ⟨nodup, ?_⟩
    rintro source options document T rfl read processed represents failed
    exact Commitment.digestsCollide_of_duplicate represents nodup
      (Commitment.ofDocument_eq_fill read processed extracted failed)

/-- Two subjects under a property, with a hasher that has one digest for all terms: the paths are
different, and the document is refused because digests collide.  Two subjects at the top have one
path. -/
theorem distinct_paths_of_two_subjects :
    let source := utf8Bytes ("\x7b\"@id\":\"urn:a\",\"urn:p\":[" ++
      "\x7b\"@id\":\"urn:b\",\"urn:q\":\"x\",\"urn:r\":\"y\"\x7d," ++
      "\x7b\"@id\":\"urn:c\",\"urn:q\":\"x\"\x7d]\x7d")
    let text (s : String) : Term := .literal ⟨s, Xsd.string, none⟩
    let d := Dataset.ofQuads [⟨.iri "urn:a", .iri "urn:p", .iri "urn:b", none⟩,
      ⟨.iri "urn:a", .iri "urn:p", .iri "urn:c", none⟩,
      ⟨.iri "urn:b", .iri "urn:q", text "x", none⟩, ⟨.iri "urn:b", .iri "urn:r", text "y", none⟩,
      ⟨.iri "urn:c", .iri "urn:q", text "x", none⟩]
    let tops := Dataset.ofQuads [⟨.iri "urn:a", .iri "urn:p", text "x", none⟩,
      ⟨.iri "urn:b", .iri "urn:p", text "y", none⟩]
    let first : Item := (⟨defaultGraph, 0⟩, ⟨.iri "urn:a", .iri "urn:p", text "x", none⟩)
    let second : Item := (⟨defaultGraph, 1⟩, ⟨.iri "urn:b", .iri "urn:p", text "y", none⟩)
    let entry (s : String) : Entry := ⟨⟨[.term "urn:p"]⟩, .string s, Xsd.string⟩
    let hasher : Hasher := { foldHasher 1000000007 with hashBytes := fun _ => .ok 5 }
    let options : CommitOptions := ⟨hasher, .none, fun _ _ => .ok d, true, .empty hasher 40⟩
    (∃ entries, extractEntries d 1000000007 = .ok entries ∧ entries.length = 5 ∧
      (entries.map Entry.path).Nodup ∧
      Commitment.ofDocument source options = .error (.tree .entryIndexAlreadyExists) ∧
      ∃ (items : List (EncodedEntry hasher)) (e : EncodedEntry hasher) (after : List Entry),
        entries = items.map EncodedEntry.entry ++ e.entry :: after ∧
          Commitment.DigestsCollide options.tree items e) ∧
    extractEntries tops 101 = .ok [entry "x", entry "y"] ∧
    ∃ r chain chain', Relationships.ofDataset tops = .ok r ∧ r.Lineage tops first chain ∧
      r.Lineage tops second chain' ∧ Relationships.Confusable chain chain' := by
  intro source text d tops first second entry hasher options
  have evaluated : ∃ document entries r, Commitment.readDocument source = .ok document ∧
      extractEntries d 1000000007 = .ok entries ∧ Relationships.ofDataset d = .ok r ∧
      entries.length = 5 ∧ r.OneTop d ∧ d.SubjectsApart := by
    have computed : (Commitment.readDocument source).passes (fun _ =>
        (extractEntries d 1000000007).passes fun entries =>
          (Relationships.ofDataset d).passes fun r =>
            entries.length = 5 ∧ r.OneTop d ∧ d.SubjectsApart) = true := by decide +kernel
    obtain ⟨document, read, computed⟩ := Except.exists_of_passes computed
    obtain ⟨entries, extracted, computed⟩ := Except.exists_of_passes computed
    obtain ⟨r, built, holds⟩ := Except.exists_of_passes computed
    exact ⟨document, entries, r, read, extracted, built, of_decide_eq_true holds⟩
  have refused :
      Commitment.ofDocument source options = .error (.tree .entryIndexAlreadyExists) := by
    have stopped : (Commitment.ofDocument source options).map (fun _ => ()) =
        .error (.tree .entryIndexAlreadyExists) := by decide +kernel
    exact Except.map_eq_error_iff.mp stopped
  have topsExtracted : extractEntries tops 101 = .ok [entry "x", entry "y"] := by decide +kernel
  obtain ⟨document, entries, r, read, extracted, built, length, oneTop, apart⟩ := evaluated
  obtain ⟨r', built', -, -, rest⟩ := extractEntries_distinct_paths extracted
  cases built.symm.trans built'
  obtain ⟨nodup, collide⟩ := rest oneTop apart
  obtain ⟨items, e, after, split, reason⟩ := collide source options document .empty rfl read rfl
    (SparseTree.represents_empty hasher 40) refused
  obtain ⟨r', topsBuilt, -, alike, -⟩ := extractEntries_distinct_paths topsExtracted
  obtain ⟨chain, chain', lineage, lineage', confusable⟩ :=
    alike first (entry "x") second (entry "y") (by decide) (by decide) (by decide) rfl
  refine ⟨⟨entries, extracted, length, nodup, refused, items, e, after, split, ?_⟩, topsExtracted,
    r', chain, chain', topsBuilt, lineage, lineage', confusable⟩
  rcases reason with there | collide
  · cases there
  · exact collide

end LinkedCommit
