import LinkedCommit.Proofs.Commitment.Numbering
import LinkedCommit.Proofs.Commitment.RawPlace
/-!
# Raw values and entries

The raw value at a path is read from the compacted view, which keeps the arrays of the document in
their order; an entry has its place from the order of the dataset.  A document `HasTexts` where it
has an array of texts that the view keeps, and a dataset `HasLiterals` at the path of a property whose
values are literals.  Where both are at one place, `rawValue_agrees_iff` says when the raw values are
those of the entries: when text and literal at each index have one value.
-/

set_option autoImplicit false

open LinkedCommit.Compact LinkedCommit.Place

namespace LinkedCommit

/-! ## The raw values -/

namespace Commitment

def Spot.isValue : Spot → Bool
  | .value _ => true
  | _ => false

/-- A document has several texts, or none, at the end of a way that the view keeps. -/
structure HasTexts (options : CommitOptions) (document : Json) (steps : List Step)
    (texts : List String) : Prop where
  way : ∃ tokens,
    way? options.loader .empty document tokens = some (steps, .array (texts.map .string))
  kept : Kept .document steps
  reads : options.safeMode = true ∨ ∀ step ∈ steps, step.Usable
  alone : (steps.foldl Spot.after .document).isValue = true
  keeps : (steps.foldl Spot.after .document).Keeps (.item (texts.map .string) 0)
  plain : (steps.foldl Spot.after .document).Plain

theorem descend_append {view : Json} {walked before after : List Segment} :
    descend view walked (before ++ after) =
      descend view walked before >>= fun seen => descend seen (walked ++ before) after := by
  induction before generalizing view walked with
  | nil =>
      rw [List.nil_append, List.append_nil]
      rfl
  | cons s rest ih =>
      rw [List.cons_append, descend, descend]
      cases stepInto view walked s with
      | error e => rfl
      | ok below =>
          show descend below (walked ++ [s]) (rest ++ after) = _
          rw [ih, List.append_assoc]
          rfl

variable {source : List UInt8} {options : CommitOptions} {c : Commitment} {document : Json}
  {steps : List Step} {texts : List String}

theorem HasTexts.descend_eq (has : HasTexts options document steps texts)
    (committed : ofDocument source options = .ok c) (read : readDocument source = .ok document) :
    ∃ d mode ctx out, (Spot.value d).Plain ∧ out.length = texts.length ∧
      descend c.compacted [] (steps.map Step.segment) = .ok (.array out) ∧
      ∀ (i : Nat) (text : String), texts[i]? = some text →
        ∃ seen, out[i]? = some seen ∧ value mode ctx d (.string text) = .ok seen := by
  obtain ⟨-, document', -, -, read', view, -⟩ := ofDocument_eq_ok committed
  cases read.symm.trans read'
  obtain ⟨tokens, way⟩ := has.way
  obtain ⟨seen, ctx, found, ends⟩ := descend_of_way [] has.reads (ordered_of_readDocument read)
    (views_of_compactDocument view) way has.kept
  have alone := has.alone
  have keeps := has.keeps
  have plain := has.plain
  generalize steps.foldl Spot.after .document = spot at ends alone keeps plain
  cases ends with
  | graph | list | merged => cases alone
  | @value d _ _ made =>
      rw [value] at made
      obtain ⟨out, each, same⟩ := Except.bind_eq_ok_iff.mp made
      have length := length_of_items each
      rw [arrayOf_of_several (length ▸ keeps.1) keeps.2] at same
      cases same
      refine ⟨d, _, ctx, out, plain, ?_, found, fun i text there => items_get each ?_⟩
      · rw [← length, List.length_map]
      · rw [List.getElem?_map, there, Option.map_some]

theorem HasTexts.rawValue_eq_ok_iff (has : HasTexts options document steps texts)
    (committed : ofDocument source options = .ok c) (read : readDocument source = .ok document)
    (i : Nat) (s : String) :
    c.rawValue ⟨steps.map Step.segment ++ [.index i]⟩ = .ok (.string s) ↔ texts[i]? = some s := by
  obtain ⟨d, mode, ctx, out, plain, length, found, each⟩ := has.descend_eq committed read
  have further : descend c.compacted [] (steps.map Step.segment ++ [.index i]) =
      stepInto (.array out) (steps.map Step.segment) (.index i) := by
    rw [descend_append, found]
    show (stepInto (.array out) (steps.map Step.segment) (.index i) >>= fun below => .ok below) = _
    cases stepInto (.array out) (steps.map Step.segment) (.index i) <;> rfl
  cases there : texts[i]? with
  | some text =>
      obtain ⟨seen, inView, made⟩ := each i text there
      have raw : c.rawValue ⟨steps.map Step.segment ++ [.index i]⟩ = .ok (.string text) :=
        rawValue_of_views rfl plain (.value made) (further.trans (stepInto_index inView rfl))
      rw [raw]
      simp
  | none =>
      have past : out[i]? = none := by
        rw [List.getElem?_eq_none_iff] at there ⊢
        omega
      have absent : ∃ e, stepInto (.array out) (steps.map Step.segment) (.index i) = .error e := by
        simp only [stepInto, unwrapGraph, past]
        exact ⟨_, rfl⟩
      obtain ⟨e, absent⟩ := absent
      constructor
      · intro raw
        rw [rawValue, further, absent] at raw
        cases raw
      · intro found
        cases found

end Commitment

/-! ## The entries -/

/-- The values of a property are several literals, and its path is a place. -/
structure HasLiterals (d : Dataset) (key : PropertyKey) (place : List Segment)
    (literals : List Literal) : Prop where
  objects : (d.ofProperty key).map (fun item => item.2.object) = literals.map .literal
  several : 1 < literals.length
  stands : ∃ r, Relationships.ofDataset d = .ok r ∧
    ∃ item ∈ d.ofProperty key, r.path d item.1 none = .ok ⟨place⟩

namespace HasLiterals

variable {d : Dataset} {r : Relationships} {prime : Nat} {entries : List Entry} {key : PropertyKey}
  {place : List Segment} {literals : List Literal}

theorem object_eq (has : HasLiterals d key place literals) {i : Nat} {item : Item}
    (found : (d.ofProperty key)[i]? = some item) :
    ∃ l, literals[i]? = some l ∧ item.2.object = .literal l := by
  have objects := congrArg (·[i]?) has.objects
  simp only [List.getElem?_map, found, Option.map_some] at objects
  obtain ⟨l, there, same⟩ := Option.map_eq_some_iff.mp objects.symm
  exact ⟨l, there, same.symm⟩

theorem exists_literal (has : HasLiterals d key place literals) {item : Item}
    (member : item ∈ d.ofProperty key) : ∃ l, item.2.object = .literal l := by
  obtain ⟨i, found⟩ := List.mem_iff_getElem?.mp member
  obtain ⟨l, -, object⟩ := has.object_eq found
  exact ⟨l, object⟩

theorem filter_isValue (has : HasLiterals d key place literals) :
    ((d.ofProperty key).filter fun other => other.2.isValue) = d.ofProperty key := by
  rw [List.filter_eq_self]
  intro item member
  obtain ⟨l, object⟩ := has.exists_literal member
  rw [Quad.isValue, object]

theorem length_ofProperty (has : HasLiterals d key place literals) :
    (d.ofProperty key).length = literals.length := by
  simpa using congrArg List.length has.objects

/-- Nothing hangs under a literal, so that the quads of the property hang where one of them does. -/
theorem trail_eq (has : HasLiterals d key place literals)
    (built : Relationships.ofDataset d = .ok r) (extracted : extractEntries d prime = .ok entries)
    {a b : Item} {chain chain' : List Item} (member : a ∈ d.ofProperty key)
    (member' : b ∈ d.ofProperty key) (lineage : r.Lineage d a chain)
    (lineage' : r.Lineage d b chain') : r.trail d chain' = r.trail d chain := by
  obtain ⟨inDataset, keyEq⟩ := List.mem_filter.mp member
  obtain ⟨inDataset', keyEq'⟩ := List.mem_filter.mp member'
  obtain ⟨sameGraph, alike⟩ :=
    (Dataset.ofItem?_eq_iff (of_decide_eq_true keyEq')).mp (of_decide_eq_true keyEq)
  obtain ⟨sameSubject, -⟩ := Quad.sameProperty_iff.mp alike
  obtain ⟨l, object⟩ := has.exists_literal member
  obtain ⟨l', object'⟩ := has.exists_literal member'
  have sameParent := Relationships.parent?_congr built inDataset inDataset' sameGraph
    (Extract.graph_congr extracted inDataset inDataset' sameGraph) sameSubject
    (by rw [object]; rfl) (by rw [object']; rfl)
  obtain ⟨chain'', lineage'', same⟩ := lineage.sibling sameSubject sameParent
  rwa [lineage'.unique lineage'']

/-- The entries of the property stand at its path, each under its own index. -/
theorem path_eq (has : HasLiterals d key place literals)
    (extracted : extractEntries d prime = .ok entries) {i : Nat} {y : Item × Entry}
    (found : (entriesOf d entries key)[i]? = some y) : y.2.path = ⟨place ++ [.index i]⟩ := by
  obtain ⟨r, built, yields, -⟩ := Extract.extractEntries_eq_ok extracted
  obtain ⟨sameLength, related⟩ := List.forall₂_iff_zip.mp yields
  obtain ⟨item, e⟩ := y
  obtain ⟨inZip, placed⟩ := getElem?_entriesOf sameLength found
  have placeEq := Dataset.place_eq placed
  rw [if_pos (has.length_ofProperty ▸ has.several)] at placeEq
  rw [has.filter_isValue] at placed
  have member := List.mem_of_getElem? placed
  obtain ⟨chain, lineage, -, spelled⟩ :=
    Relationships.path_eq_ok built (List.mem_of_mem_filter member) (related inZip).path
  obtain ⟨r', built', other, member', stands⟩ := has.stands
  cases built.symm.trans built'
  obtain ⟨chain', lineage', -, spelled'⟩ :=
    Relationships.path_eq_ok built (List.mem_of_mem_filter member') stands
  have named : ∀ q ∈ d.ofProperty key, q.2.predicateName = key.predicate := by
    intro q member
    have keyEq := Relationships.ofItem?_eq_some_iff.mp
      (of_decide_eq_true (List.mem_filter.mp member).2)
    exact Quad.predicateName_of_iri (PropertyKey.ofQuad_eq_ok_iff.mp keyEq).2.1
  have above : place = r.trail d chain' ++ [.term other.2.predicateName] := spelled'
  have segments : e.path.segments = place ++ [.index i] := by
    rw [spelled, placeEq, above, has.trail_eq built extracted member' member lineage' lineage,
      named item member, named other member']
    simp
  exact congrArg Path.mk segments

theorem length_entriesOf (has : HasLiterals d key place literals)
    (extracted : extractEntries d prime = .ok entries) :
    (entriesOf d entries key).length = literals.length := by
  obtain ⟨r, -, yields, -⟩ := Extract.extractEntries_eq_ok extracted
  have items := map_fst_entriesOf key yields.length_eq
  rw [has.filter_isValue] at items
  rw [← has.length_ofProperty, ← items, List.length_map]

theorem entry_eq (has : HasLiterals d key place literals)
    (extracted : extractEntries d prime = .ok entries) {i : Nat} {y : Item × Entry}
    (found : (entriesOf d entries key)[i]? = some y) :
    ∃ l, literals[i]? = some l ∧ y.2.path = ⟨place ++ [.index i]⟩ ∧ y.2.datatype = l.datatype ∧
      Value.decode l.datatype l.value prime = .ok y.2.value := by
  obtain ⟨r, -, yields, -⟩ := Extract.extractEntries_eq_ok extracted
  obtain ⟨sameLength, related⟩ := List.forall₂_iff_zip.mp yields
  obtain ⟨inZip, placed⟩ := getElem?_entriesOf sameLength found
  rw [has.filter_isValue] at placed
  obtain ⟨l, there, object⟩ := has.object_eq placed
  have told := (related inZip).value
  simp only [Extract.objectValue, object, Except.mapError_eq_ok_iff, Except.map_eq_ok_iff,
    Option.some.injEq, Prod.mk.injEq] at told
  obtain ⟨v, decoded, rfl, datatype⟩ := told
  exact ⟨l, there, has.path_eq extracted found, datatype.symm, decoded⟩

end HasLiterals

theorem Value.decode_string (text : String) (prime : Nat) :
    Value.decode Xsd.string text prime = .ok (.string text) := by
  rw [Value.decode]
  rfl

/-! ## Where they agree -/

namespace Commitment

/-- The raw values at the paths of entries, where they are texts, are those of the entries. -/
def Agrees (c : Commitment) (prime : Nat) (entries : List Entry) : Prop :=
  ∀ e ∈ entries, ∀ s, c.rawValue e.path = .ok (.string s) →
    Value.decode e.datatype s prime = .ok e.value

end Commitment

theorem HasLiterals.agrees_iff {d : Dataset} {prime : Nat} {entries : List Entry}
    {key : PropertyKey} {place : List Segment} {literals : List Literal} {texts : List String}
    {c : Commitment} (holds : HasLiterals d key place literals)
    (extracted : extractEntries d prime = .ok entries)
    (raw : ∀ (i : Nat) (s : String),
      c.rawValue ⟨place ++ [.index i]⟩ = .ok (.string s) ↔ texts[i]? = some s) :
    c.Agrees prime ((entriesOf d entries key).map Prod.snd) ↔
      ∀ (i : Nat) (text : String) (l : Literal), texts[i]? = some text → literals[i]? = some l →
        Value.decode l.datatype text prime = Value.decode l.datatype l.value prime := by
  constructor
  · intro agree i text l inDocument inDataset
    have inside : i < (entriesOf d entries key).length := by
      rw [holds.length_entriesOf extracted]
      exact (List.getElem?_eq_some_iff.mp inDataset).1
    have found := List.getElem?_eq_getElem inside
    obtain ⟨l', there, path, datatype, decoded⟩ := holds.entry_eq extracted found
    cases inDataset.symm.trans there
    have rawEq := (raw i text).mpr inDocument
    rw [← path] at rawEq
    rw [decoded, ← datatype]
    exact agree _ (List.mem_map_of_mem (List.mem_of_getElem? found)) text rawEq
  · intro same e inEntries s rawEq
    obtain ⟨y, member, rfl⟩ := List.mem_map.mp inEntries
    obtain ⟨i, found⟩ := List.mem_iff_getElem?.mp member
    obtain ⟨l, there, path, datatype, decoded⟩ := holds.entry_eq extracted found
    rw [path] at rawEq
    rw [datatype, same i s l ((raw i s).mp rawEq) there, decoded]

open Commitment in
/-- A document has texts at the path of a property of its dataset whose values are literals.  The
raw values there are in the order of the document and the entries in that of the dataset, so that
they agree exactly where each text has the value of the literal with its index.  If the literals are
texts, it is this text. -/
theorem rawValue_agrees_iff {source : List UInt8} {options : CommitOptions} {c : Commitment}
    {document : Json} {steps : List Step} {texts : List String} {dataset : Dataset}
    {key : PropertyKey} {literals : List Literal} (committed : ofDocument source options = .ok c)
    (read : readDocument source = .ok document)
    (processed : options.processor options.loader document = .ok dataset)
    (has : HasTexts options document steps texts)
    (holds : HasLiterals dataset key (steps.map Step.segment) literals) :
    ∃ entries, extractEntries dataset options.hasher.prime = .ok entries ∧
      (entriesOf dataset entries key).length = literals.length ∧
      (∀ (i : Nat) (y : Item × Entry), (entriesOf dataset entries key)[i]? = some y →
        ∃ l, literals[i]? = some l ∧ y.2.path = ⟨steps.map Step.segment ++ [.index i]⟩ ∧
          y.2.datatype = l.datatype ∧
          Value.decode l.datatype l.value options.hasher.prime = .ok y.2.value) ∧
      (∀ (i : Nat) (s : String),
        c.rawValue ⟨steps.map Step.segment ++ [.index i]⟩ = .ok (.string s) ↔ texts[i]? = some s) ∧
      (c.Agrees options.hasher.prime ((entriesOf dataset entries key).map Prod.snd) ↔
        ∀ (i : Nat) (text : String) (l : Literal), texts[i]? = some text → literals[i]? = some l →
          Value.decode l.datatype text options.hasher.prime =
            Value.decode l.datatype l.value options.hasher.prime) ∧
      ((∀ l ∈ literals, l.datatype = Xsd.string) →
        (c.Agrees options.hasher.prime ((entriesOf dataset entries key).map Prod.snd) ↔
          ∀ (i : Nat) (text : String) (l : Literal), texts[i]? = some text →
            literals[i]? = some l → text = l.value)) := by
  obtain ⟨-, document', dataset', entries, read', -, processed', extracted, -⟩ :=
    ofDocument_eq_ok committed
  cases read.symm.trans read'
  cases processed.symm.trans processed'
  have raw := has.rawValue_eq_ok_iff committed read
  have agrees := holds.agrees_iff extracted raw
  refine ⟨entries, extracted, holds.length_entriesOf extracted,
    fun i y found => holds.entry_eq extracted found, raw, agrees, fun strings => agrees.trans ?_⟩
  constructor
  · intro same i text l inDocument inDataset
    have decoded := same i text l inDocument inDataset
    rw [strings l (List.mem_of_getElem? inDataset), Value.decode_string, Value.decode_string]
      at decoded
    cases decoded
    rfl
  · intro same i text l inDocument inDataset
    rw [same i text l inDocument inDataset]

theorem Json.eq_map_string {items : List Json} {texts : List String}
    (same : items.map Json.string? = texts.map some) : items = texts.map Json.string := by
  induction items generalizing texts with
  | nil =>
      cases texts with
      | nil => rfl
      | cons text rest => cases same
  | cons item rest ih =>
      cases texts with
      | nil => cases same
      | cons text texts =>
          rw [List.map_cons, List.map_cons, List.cons.injEq] at same
          obtain ⟨first, others⟩ := same
          cases item <;> cases first
          rw [ih others, List.map_cons]

def Json.isTexts (texts : List String) : Json → Bool
  | .array items => items.map Json.string? = texts.map some
  | _ => false

theorem Json.eq_of_isTexts {texts : List String} {value : Json} (holds : value.isTexts texts = true) :
    value = .array (texts.map .string) := by
  cases value with
  | array items => rw [Json.eq_map_string (of_decide_eq_true holds)]
  | null | bool | number | string | object => cases holds

theorem Entry.eq_of_parts {e : Entry} {path : Path} {value : Value} {datatype : String}
    (samePath : e.path = path) (sameValue : e.value = value) (sameDatatype : e.datatype = datatype) :
    e = ⟨path, value, datatype⟩ := by
  subst samePath sameValue sameDatatype
  rfl

/-- Two texts that a document has against their order: the raw value at the first place is the text
of the second entry. -/
theorem rawValue_of_unsorted_texts :
    let id := "http://example.com/doc"
    let property := "http://example.com/tag"
    let source := utf8Bytes ("\x7b\"@id\":\"http://example.com/doc\"," ++
      "\"http://example.com/tag\":[\"b\",\"a\"]\x7d")
    let hasher := foldHasher 1000000007
    let options : CommitOptions := ⟨hasher, .none, canonicalDataset, true, .empty hasher 40⟩
    let dataset := Dataset.ofQuads [textQuad id property "a", textQuad id property "b"]
    let first : Path := ⟨[.term property, .index 0]⟩
    ∃ document c entries, Commitment.readDocument source = .ok document ∧
      canonicalDataset .none document = .ok dataset ∧
      Commitment.ofDocument source options = .ok c ∧
      extractEntries dataset hasher.prime = .ok entries ∧
      (⟨first, .string "a", Xsd.string⟩ : Entry) ∈ entries ∧
      c.rawValue first = .ok (.string "b") ∧ ¬ c.Agrees hasher.prime entries := by
  intro id property source hasher options dataset first
  have computed : (Commitment.readDocument source).passes (fun document =>
      (inlineContexts .none document).passes (fun inlined =>
        (Expansion.expandDocument documentBase inlined).passes fun items =>
          Expansion.statements items = [textQuad id property "b", textQuad id property "a"]) &&
      (way? .none .empty document [property]).any fun found =>
        found.2.isTexts ["b", "a"] && found.1.map Step.segment = [.term property] &&
          decide (Commitment.Kept .document found.1) &&
          (found.1.foldl Commitment.Spot.after .document).isValue &&
          decide ((found.1.foldl Commitment.Spot.after .document).Keeps
            (.item (["b", "a"].map Json.string) 0)) &&
          decide (found.1.foldl Commitment.Spot.after .document).Plain) = true := by
    decide +kernel
  obtain ⟨document, read, computed⟩ := Except.exists_of_passes computed
  obtain ⟨stated, computed⟩ := (Bool.and_eq_true _ _).mp computed
  obtain ⟨⟨steps, target⟩, way, computed⟩ := (Option.any_eq_true _ _).mp computed
  simp only [Bool.and_eq_true, decide_eq_true_eq] at computed
  obtain ⟨⟨⟨⟨⟨texts, place⟩, kept⟩, alone⟩, keeps⟩, plain⟩ := computed
  cases Json.eq_of_isTexts texts
  have has : Commitment.HasTexts options document steps ["b", "a"] :=
    ⟨⟨_, way⟩, kept, Or.inl rfl, alone, keeps, plain⟩
  have before : Canonical.quadLt (textQuad id property "a") (textQuad id property "b") = true := by
    decide +kernel
  have order : [textQuad id property "b", textQuad id property "a"].mergeSort
      (fun a b => !Canonical.quadLt b a) =
        [textQuad id property "a", textQuad id property "b"] := by
    simp [List.mergeSort, List.MergeSort.Internal.splitInTwo, before]
  have processed : canonicalDataset .none document = .ok dataset :=
    canonicalDataset_of_sorted stated (by decide) order (by decide +kernel)
  let key : PropertyKey := ⟨.iri id, property, defaultGraph⟩
  have holds : HasLiterals dataset key (steps.map Step.segment)
      [⟨"a", Xsd.string, none⟩, ⟨"b", Xsd.string, none⟩] := by
    rw [place]
    have stands : (Relationships.ofDataset dataset).passes (fun r =>
        (dataset.ofProperty key).any fun item =>
          r.path dataset item.1 none = .ok ⟨[.term property]⟩) = true := by decide +kernel
    obtain ⟨r, built, stands⟩ := Except.exists_of_passes stands
    obtain ⟨item, member, path⟩ := List.any_eq_true.mp stands
    exact ⟨by decide +kernel, by decide, r, built, item, member, of_decide_eq_true path⟩
  obtain ⟨c, committed, -⟩ := Commitment.exists_ofDocument options (fun _ => true) read processed
    (by decide +kernel)
  obtain ⟨entries, extracted, length, entry, raw, -⟩ :=
    rawValue_agrees_iff committed read processed has holds
  rw [place] at entry raw
  have rawEq : c.rawValue first = .ok (.string "b") := (raw 0 "b").mpr rfl
  have inside : 0 < (entriesOf dataset entries key).length := length ▸ Nat.zero_lt_two
  have found := List.getElem?_eq_getElem inside
  obtain ⟨l, there, path, datatype, decoded⟩ := entry 0 _ found
  cases there
  have value := decoded.symm.trans (Value.decode_string "a" hasher.prime)
  have member : (⟨first, .string "a", Xsd.string⟩ : Entry) ∈ entries := by
    have inEntries := (List.of_mem_zip (List.mem_of_mem_filter (List.mem_of_getElem? found))).2
    have same := Entry.eq_of_parts path (Except.ok.inj value) datatype
    exact same ▸ inEntries
  refine ⟨document, c, entries, read, processed, committed, extracted, member, rawEq, ?_⟩
  intro agree
  have absurd := agree _ member "b" rawEq
  rw [Value.decode_string] at absurd
  revert absurd
  decide

end LinkedCommit
