import LinkedCommit.Proofs.Commitment.Extraction
/-!
# Two ways to number siblings

An identifier among several values of a property is committed under its place among these values.
What hangs under it is committed under the number of the identifier among the subjects that hang
under the property, and under no number if it is the only one (`entries_below_identifier`).  The two
agree only where every value before is an identifier that something hangs under.
-/

set_option autoImplicit false

namespace LinkedCommit

namespace Relationships

variable {d : Dataset} {r : Relationships}

theorem subject_eq_of_parentItem (built : ofDataset d = .ok r) {child parent : Item} {name : String}
    (member : child ∈ d.identified) (above : r.parentItem? d child.1 = some parent)
    (object : parent.2.object = .iri name) :
    Resource.ofTerm? child.2.subject = some (.iri name) := by
  obtain ⟨-, hangs, -, -⟩ := parentItem_cases built member above
  rcases hangs with ⟨-, same⟩ | ⟨label, -, same⟩
  · rw [← same, object]
    rfl
  · rw [object] at same
    cases same

theorem exists_term_of_trail (child : Item) (below : List Item) (name : String)
    (indices : List Segment) :
    ∃ first rest, r.trail d (child :: below) ++ .term name :: indices = .term first :: rest := by
  cases below with
  | nil => exact ⟨name, indices, rfl⟩
  | cons next below => exact ⟨child.2.predicateName, _, rfl⟩

/-- The segments of a quad below another: those of the property above, the number under it, and
then a term. -/
theorem Lineage.exists_below (built : ofDataset d = .ok r) {leaf q : Item} {chain : List Item}
    (lineage : Lineage r d leaf chain) (member : leaf ∈ d.identified) (inChain : q ∈ chain)
    (differ : q ≠ leaf) {name : String} (object : q.2.object = .iri name) :
    ∃ own j, Lineage r d q own ∧ (r.childSubjects d q).idxOf? (.iri name) = some j ∧
      ∀ last indices, ∃ first rest, r.trail d chain ++ .term last :: indices =
        (r.trail d own ++ [.term q.2.predicateName]) ++
          ((if 1 < (r.childSubjects d q).length then [.index j] else []) ++
            .term first :: rest) := by
  have inDataset := lineage.mem_identified member
  obtain ⟨before, after, rfl, own, next⟩ := lineage.split inChain
  cases after with
  | nil => exact absurd next differ
  | cons child below =>
      have childIn : child ∈ d.identified := inDataset child (by simp)
      have subject := subject_eq_of_parentItem built childIn next object
      cases position : (r.childSubjects d q).idxOf? (.iri name) with
      | none =>
          exact absurd (mem_childSubjects childIn next subject)
            (List.idxOf?_eq_none_iff.mp position)
      | some j =>
          refine ⟨before ++ [q], j, own, rfl, ?_⟩
          intro last indices
          obtain ⟨first, rest, spelled⟩ := exists_term_of_trail (r := r) (d := d) child below last
            indices
          refine ⟨first, rest, ?_⟩
          rw [trail_split, number_eq subject position, ← spelled]
          simp

end Relationships

theorem segments_append_index {above : List Segment} {name : String} {place : Option Nat}
    {property : List Segment} {i : Nat}
    (same : above ++ .term name :: (place.map Segment.index).toList = property ++ [.index i]) :
    property = above ++ [.term name] ∧ place = some i := by
  cases place with
  | none =>
      have last := congrArg List.getLast? same
      simp at last
  | some k =>
      have split : above ++ .term name :: ((some k).map Segment.index).toList =
          (above ++ [.term name]) ++ [.index k] := by simp
      rw [split] at same
      obtain ⟨rfl, last⟩ := List.append_inj' same rfl
      cases last
      exact ⟨rfl, rfl⟩

/-- An identifier is committed at the property and its place among the values.  Every entry below it
is committed at the property, the number of the identifier among the subjects that hang there if
there are several, and at once a term if there are not; the two indices agree only by chance. -/
theorem entries_below_identifier {d : Dataset} {prime : Nat} {entries : List Entry}
    (extracted : extractEntries d prime = .ok entries) :
    ∃ r, Relationships.ofDataset d = .ok r ∧
      List.Forall₂ (Extract.Yields d r prime) d.valued entries ∧
      ∀ q e name property i, (q, e) ∈ d.valued.zip entries → q.2.object = .iri name →
        e.path.segments = property ++ [.index i] → d.place q = some i ∧
        ∀ leaf e' chain, (leaf, e') ∈ d.valued.zip entries → r.Lineage d leaf chain → q ∈ chain →
          q ≠ leaf →
          ∃ j first rest, (r.childSubjects d q).idxOf? (.iri name) = some j ∧
            e'.path.segments = property ++
              ((if 1 < (r.childSubjects d q).length then [.index j] else []) ++
                .term first :: rest) ∧
            (property ++ [.index i] <+: e'.path.segments ↔
              1 < (r.childSubjects d q).length ∧ j = i) := by
  obtain ⟨r, built, yields, -⟩ := Extract.extractEntries_eq_ok extracted
  obtain ⟨-, related⟩ := List.forall₂_iff_zip.mp yields
  refine ⟨r, built, yields, ?_⟩
  intro q e name property i inZip object spelled
  have member := List.mem_of_mem_filter (List.of_mem_zip inZip).1
  obtain ⟨own, above, -, ownSpelled⟩ := Relationships.path_eq_ok built member (related inZip).path
  obtain ⟨rfl, placeEq⟩ := segments_append_index (ownSpelled.symm.trans spelled)
  refine ⟨placeEq, ?_⟩
  intro leaf e' chain inZip' lineage inChain differ
  have member' := List.mem_of_mem_filter (List.of_mem_zip inZip').1
  obtain ⟨own', j, above', position, split⟩ :=
    lineage.exists_below built member' inChain differ object
  obtain ⟨chain', lineage', -, spelled'⟩ :=
    Relationships.path_eq_ok built member' (related inZip').path
  cases above.unique above'
  cases lineage.unique lineage'
  obtain ⟨first, rest, below⟩ := split leaf.2.predicateName
    ((d.place leaf).map Segment.index).toList
  rw [below] at spelled'
  refine ⟨j, first, rest, position, spelled', ?_⟩
  rw [spelled', List.prefix_append_right_inj]
  by_cases several : 1 < (r.childSubjects d q).length
  · simp [several, List.cons_prefix_cons, eq_comm]
  · simp [several, List.cons_prefix_cons]

/-- After a text come two identifiers that something hangs under: the second is committed under two
and what hangs under it under one. -/
theorem entries_below_identifier_after_text :
    let names (subject : String) (s : String) : Quad :=
      ⟨.iri subject, .iri "urn:name", .literal ⟨s, Xsd.string, none⟩, none⟩
    let has (object : Term) : Quad := ⟨.iri "urn:r", .iri "urn:sub", object, none⟩
    let text : Term := .literal ⟨"t", Xsd.string, none⟩
    let d := Dataset.ofQuads
      [has text, has (.iri "urn:a"), has (.iri "urn:b"), names "urn:a" "x", names "urn:b" "y"]
    let q : Item := (⟨defaultGraph, 2⟩, has (.iri "urn:b"))
    let leaf : Item := (⟨defaultGraph, 4⟩, names "urn:b" "y")
    let e : Entry := ⟨⟨[.term "urn:sub", .index 2]⟩, .string "urn:b", ""⟩
    let e' : Entry := ⟨⟨[.term "urn:sub", .index 1, .term "urn:name"]⟩, .string "y", Xsd.string⟩
    ∃ entries r, extractEntries d 101 = .ok entries ∧ Relationships.ofDataset d = .ok r ∧
      (q, e) ∈ d.valued.zip entries ∧ (leaf, e') ∈ d.valued.zip entries ∧
      r.Lineage d leaf [q, leaf] ∧ d.place q = some 2 ∧
      (r.childSubjects d q).idxOf? (.iri "urn:b") = some 1 ∧
      ¬ [.term "urn:sub", .index 2] <+: e'.path.segments := by
  intro names has text d q leaf e e'
  have evaluated : ∃ entries r, extractEntries d 101 = .ok entries ∧
      Relationships.ofDataset d = .ok r ∧ (q, e) ∈ d.valued.zip entries ∧
      (leaf, e') ∈ d.valued.zip entries ∧ r.parentItem? d leaf.1 = some q ∧
      r.parent? q.1 = none ∧ (r.childSubjects d q).idxOf? (.iri "urn:b") = some 1 := by
    have computed : (extractEntries d 101).passes (fun entries =>
        (Relationships.ofDataset d).passes fun r => (q, e) ∈ d.valued.zip entries ∧
          (leaf, e') ∈ d.valued.zip entries ∧ r.parentItem? d leaf.1 = some q ∧
          r.parent? q.1 = none ∧
          (r.childSubjects d q).idxOf? (.iri "urn:b") = some 1) = true := by decide +kernel
    obtain ⟨entries, extracted, computed⟩ := Except.exists_of_passes computed
    obtain ⟨r, built, holds⟩ := Except.exists_of_passes computed
    exact ⟨entries, r, extracted, built, of_decide_eq_true holds⟩
  obtain ⟨entries, r, extracted, built, inZip, inZip', above, parentless, second⟩ := evaluated
  have lineage : r.Lineage d leaf [q, leaf] := .under above (.top parentless)
  obtain ⟨r', built', -, below⟩ := entries_below_identifier extracted
  cases built.symm.trans built'
  obtain ⟨place, below⟩ := below q e "urn:b" [.term "urn:sub"] 2 inZip rfl rfl
  obtain ⟨j, first, rest, position, -, sameIndex⟩ :=
    below leaf e' [q, leaf] inZip' lineage (by simp) (by decide)
  cases second.symm.trans position
  refine ⟨entries, r, extracted, built, inZip, inZip', lineage, place, second, ?_⟩
  intro indexed
  have two : 1 = 2 := (sameIndex.mp indexed).2
  cases two

/-- Of two identifiers something hangs under the second alone: it is committed under one, and what
hangs under it under no index. -/
theorem entry_below_second_identifier_without_index :
    let has (object : String) : Quad :=
      ⟨.iri "http://example.com/r", .iri "http://example.com/sub", .iri object, none⟩
    let name : Quad := ⟨.iri "http://example.com/b", .iri "http://example.com/name",
      .literal ⟨"x", Xsd.string, none⟩, none⟩
    let d := Dataset.ofQuads [has "http://example.com/a", has "http://example.com/b", name]
    let q : Item := (⟨defaultGraph, 1⟩, has "http://example.com/b")
    let leaf : Item := (⟨defaultGraph, 2⟩, name)
    ∃ entries r e e', extractEntries d 101 = .ok entries ∧ Relationships.ofDataset d = .ok r ∧
      (q, e) ∈ d.valued.zip entries ∧ (leaf, e') ∈ d.valued.zip entries ∧
      r.Lineage d leaf [q, leaf] ∧
      e.path.segments = [.term "http://example.com/sub"] ++ [.index 1] ∧
      ¬ [.term "http://example.com/sub"] ++ [.index 1] <+: e'.path.segments := by
  intro has name d q leaf
  let e : Entry :=
    ⟨⟨[.term "http://example.com/sub", .index 1]⟩, .string "http://example.com/b", ""⟩
  let e' : Entry := ⟨⟨[.term "http://example.com/sub", .term "http://example.com/name"]⟩,
    .string "x", Xsd.string⟩
  have computed : (extractEntries d 101).passes (fun entries =>
      (Relationships.ofDataset d).passes fun r => (q, e) ∈ d.valued.zip entries ∧
        (leaf, e') ∈ d.valued.zip entries ∧ r.parentItem? d leaf.1 = some q ∧
        r.parent? q.1 = none) = true := by decide +kernel
  obtain ⟨entries, extracted, computed⟩ := Except.exists_of_passes computed
  obtain ⟨r, built, holds⟩ := Except.exists_of_passes computed
  obtain ⟨inZip, inZip', above, parentless⟩ := of_decide_eq_true holds
  have lineage : r.Lineage d leaf [q, leaf] := .under above (.top parentless)
  exact ⟨entries, r, e, e', extracted, built, inZip, inZip', lineage, rfl, by decide⟩

end LinkedCommit
