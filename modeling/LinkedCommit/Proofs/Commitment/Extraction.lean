import Mathlib.Data.List.Forall2
import LinkedCommit.Commitment.Extract
import LinkedCommit.Proofs.Relationship.Lineage
/-!
# The entries of a dataset

`extractEntries` makes one entry of each quad whose object is a value, in the order of the dataset
(`extractEntries_eq_ok`), and lets a quad with a blank object pass if something hangs under it.
The place of an entry among the values of its property is `place`, told by the dataset alone: the
number of values of the property before it, if the property has more than one quad.
-/

set_option autoImplicit false

namespace LinkedCommit

def Quad.isValue (q : Quad) : Bool :=
  match q.object with
  | .blank _ => false
  | _ => true

theorem countP_take_lt {α : Type} (holds : α → Bool) {xs : List α} {x : α} {i j : Nat}
    (found : xs[i]? = some x) (here : holds x = true) (before : i < j) :
    (xs.take i).countP holds < (xs.take j).countP holds := by
  have grown : (xs.take (i + 1)).countP holds = (xs.take i).countP holds + 1 := by
    rw [List.take_add_one, found, List.countP_append]
    simp [here]
  have within : (xs.take (i + 1)).countP holds ≤ (xs.take j).countP holds :=
    (List.take_sublist_take_left before).countP_le
  omega

namespace Dataset

def valued (d : Dataset) : List Item := d.identified.filter fun item => item.2.isValue

def quadsOf (d : Dataset) (graph : String) : List Quad := (d.graph? graph).getD []

/-- The number of a quad among the values of its property, none if the property has one quad. -/
def place (d : Dataset) (item : Item) : Option Nat :=
  let quads := d.quadsOf item.1.graph
  if 1 < quads.countP fun c => c.sameProperty item.2 then
    some ((quads.take item.1.index).countP fun c => c.isValue && c.sameProperty item.2)
  else none

theorem place_lt {d : Dataset} {a b : Item} (inDataset : a ∈ d.valued) (inDataset' : b ∈ d.valued)
    (sameGraph : a.1.graph = b.1.graph) (alike : a.2.sameProperty b.2 = true)
    (before : a.1.index < b.1.index) :
    ∃ m n, d.place a = some m ∧ d.place b = some n ∧ m < n := by
  obtain ⟨member, isValue⟩ := List.mem_filter.mp inDataset
  obtain ⟨member', -⟩ := List.mem_filter.mp inDataset'
  obtain ⟨quads, there, found⟩ := lookup_eq_ok_iff.mp (mem_identified_iff.mp member)
  obtain ⟨quads', there', found'⟩ := lookup_eq_ok_iff.mp (mem_identified_iff.mp member')
  rw [← sameGraph, there] at there'
  cases there'
  have sameRest : ∀ c : Quad, c.sameProperty b.2 = c.sameProperty a.2 := by
    obtain ⟨sameSubject, samePredicate⟩ := Quad.sameProperty_iff.mp alike
    intro c
    simp [Quad.sameProperty, sameSubject, samePredicate]
  have self : a.2.sameProperty a.2 = true := by simp [Quad.sameProperty]
  have self' : b.2.sameProperty a.2 = true := by
    rw [← sameRest]
    simp [Quad.sameProperty]
  have several : 1 < quads.countP fun c => c.sameProperty a.2 := by
    have first := countP_take_lt (fun c => c.sameProperty a.2) found self before
    have second := countP_take_lt (fun c => c.sameProperty a.2) found' self' (Nat.lt_add_one _)
    have all : (quads.take (b.1.index + 1)).countP (fun c => c.sameProperty a.2) ≤ _ :=
      (List.take_sublist (b.1.index + 1) quads).countP_le
    omega
  refine ⟨(quads.take a.1.index).countP fun c => c.isValue && c.sameProperty a.2,
    (quads.take b.1.index).countP fun c => c.isValue && c.sameProperty a.2, ?_, ?_, ?_⟩
  · simp [place, quadsOf, there, several]
  · simp [place, quadsOf, ← sameGraph, there, sameRest, several]
  · exact countP_take_lt _ found (by simp [isValue, self]) before

theorem eq_of_place_eq {d : Dataset} {a b : Item} (inDataset : a ∈ d.valued)
    (inDataset' : b ∈ d.valued) (sameGraph : a.1.graph = b.1.graph)
    (alike : a.2.sameProperty b.2 = true) (samePlace : d.place a = d.place b) : a = b := by
  have alike' : b.2.sameProperty a.2 = true := by
    rw [Quad.sameProperty_iff] at alike ⊢
    exact ⟨alike.1.symm, alike.2.symm⟩
  rcases Nat.lt_trichotomy a.1.index b.1.index with before | sameIndex | after
  · obtain ⟨m, n, atA, atB, lt⟩ := place_lt inDataset inDataset' sameGraph alike before
    rw [atA, atB, Option.some.injEq] at samePlace
    omega
  · refine item_eq_of_id_eq (List.mem_of_mem_filter inDataset)
      (List.mem_of_mem_filter inDataset') ?_
    rw [QuadId.mk.injEq]
    exact ⟨sameGraph, sameIndex⟩
  · obtain ⟨m, n, atB, atA, lt⟩ := place_lt inDataset' inDataset sameGraph.symm alike' after
    rw [atA, atB, Option.some.injEq] at samePlace
    omega

end Dataset

namespace Extract

variable {d : Dataset} {r : Relationships} {prime : Nat}

/-- The entry of a quad: its value is the object, its path that of the quad at its place. -/
structure Yields (d : Dataset) (r : Relationships) (prime : Nat) (item : Item) (e : Entry) :
    Prop where
  value : objectValue r prime item.1 item.2 = .ok (some (e.value, e.datatype))
  path : r.path d item.1 (d.place item) = .ok e.path

theorem objectValue_eq_ok {id : QuadId} {q : Quad} {found : Option (Value × String)}
    (told : objectValue r prime id q = .ok found) :
    found.isSome = q.isValue ∧ (q.isValue = false → r.hasChildren id = true) := by
  rw [objectValue] at told
  rw [Quad.isValue]
  split at told
  · rename_i l object
    rw [Except.mapError_eq_ok_iff] at told
    cases decoded : Value.decode l.datatype l.value prime with
    | error e =>
        rw [decoded] at told
        cases told
    | ok v =>
        rw [decoded] at told
        cases told
        simp [object]
  · rename_i object
    cases told
    simp [object]
  · rename_i object
    split at told
    · rename_i has
      cases told
      simp [object, has]
    · cases told

theorem entry_make_eq_ok {p : Path} {v : Value} {datatype : String} {e : Entry}
    (made : Entry.make p v datatype = .ok e) : e = ⟨p, v, datatype⟩ := by
  rw [Entry.make] at made
  split at made
  · cases made
  · exact (Except.ok.inj made).symm

theorem count_keys {graph : String} {quads : List Quad} {keys : List PropertyKey}
    (told : List.Forall₂ (fun q key => PropertyKey.ofQuad q graph = .ok key) quads keys) {q : Quad}
    {key : PropertyKey} (keyEq : PropertyKey.ofQuad q graph = .ok key) :
    keys.count key = quads.countP fun c => c.sameProperty q := by
  induction told with
  | nil => rfl
  | @cons c other _ _ first _ ih =>
      rw [List.count_cons, List.countP_cons, ih]
      have same := PropertyKey.eq_iff first keyEq
      by_cases here : other = key
      · simp [here, (same.mp here).2]
      · have apart : c.sameProperty q = false := by
          simpa using mt (fun alike => same.mpr ⟨rfl, alike⟩) here
        simp [here, apart]

/-- The keys of the entries so far count the values so far of every property. -/
def Counts (graph : String) (before : List Quad) (valued : List PropertyKey) : Prop :=
  ∀ (q : Quad) (key : PropertyKey), PropertyKey.ofQuad q graph = .ok key →
    valued.count key = before.countP fun c => c.isValue && c.sameProperty q

theorem Counts.value {graph : String} {before : List Quad} {valued : List PropertyKey}
    (counts : Counts graph before valued) {q : Quad} {key : PropertyKey}
    (keyEq : PropertyKey.ofQuad q graph = .ok key) (isValue : q.isValue = true) :
    Counts graph (before ++ [q]) (key :: valued) := by
  intro other otherKey otherEq
  have same := PropertyKey.eq_iff keyEq otherEq
  rw [List.count_cons, List.countP_append, counts other otherKey otherEq]
  by_cases here : key = otherKey
  · simp [here, isValue, (same.mp here).2]
  · have apart : q.sameProperty other = false := by
      simpa using mt (fun alike => same.mpr ⟨rfl, alike⟩) here
    simp [here, isValue, apart]

theorem Counts.blank {graph : String} {before : List Quad} {valued : List PropertyKey}
    (counts : Counts graph before valued) {q : Quad} (isBlank : q.isValue = false) :
    Counts graph (before ++ [q]) valued := by
  intro other otherKey otherEq
  rw [List.countP_append, counts other otherKey otherEq]
  simp [isBlank]

def itemsFrom (graph : String) (index : Nat) (quads : List Quad) : List Item :=
  (quads.zipIdx index).map fun (q, i) => (⟨graph, i⟩, q)

theorem graphEntries_eq_ok {graph : String} {quads : List Quad} {keys : List PropertyKey}
    (inDataset : d.graph? graph = some quads)
    (told : List.Forall₂ (fun q key => PropertyKey.ofQuad q graph = .ok key) quads keys)
    (before rest : List Quad) (parts : quads = before ++ rest) {valued : List PropertyKey}
    (counts : Counts graph before valued) {entries : List Entry}
    (extracted : graphEntries d r prime keys valued (itemsFrom graph before.length rest) =
      .ok entries) :
    List.Forall₂ (Yields d r prime)
        ((itemsFrom graph before.length rest).filter fun item => item.2.isValue) entries ∧
      ∀ item ∈ itemsFrom graph before.length rest, item.2.isValue = false →
        r.hasChildren item.1 = true := by
  induction rest generalizing before valued entries with
  | nil =>
      cases extracted
      exact ⟨.nil, fun _ member => (List.not_mem_nil member).elim⟩
  | cons q rest ih =>
      have split : itemsFrom graph before.length (q :: rest) =
          (⟨graph, before.length⟩, q) :: itemsFrom graph (before ++ [q]).length rest := by
        simp [itemsFrom]
      have parts' : quads = (before ++ [q]) ++ rest := by simp [parts]
      rw [split, graphEntries, Except.bind_eq_ok_iff] at extracted
      rw [split]
      obtain ⟨found, value, extracted⟩ := extracted
      obtain ⟨isSome, has⟩ := objectValue_eq_ok value
      cases found with
      | none =>
          have isBlank : q.isValue = false := isSome.symm
          obtain ⟨yields, blanks⟩ := ih (before ++ [q]) parts' (counts.blank isBlank) extracted
          refine ⟨by simpa [isBlank] using yields, ?_⟩
          exact List.forall_mem_cons.mpr ⟨has, blanks⟩
      | some found =>
          obtain ⟨v, datatype⟩ := found
          have isValue : q.isValue = true := isSome.symm
          simp only [Except.bind_eq_ok_iff, Except.mapError_eq_ok_iff] at extracted
          obtain ⟨key, keyEq, p, pathEq, e, made, others, more, same⟩ := extracted
          cases same
          obtain rfl := entry_make_eq_ok made
          obtain ⟨yields, blanks⟩ := ih (before ++ [q]) parts' (counts.value keyEq isValue) more
          have place : (if 1 < keys.count key then some (valued.count key) else none) =
              d.place (⟨graph, before.length⟩, q) := by
            simp only [Dataset.place, Dataset.quadsOf, inDataset, count_keys told keyEq,
              counts q key keyEq, Option.getD_some]
            simp [parts]
          rw [place] at pathEq
          refine ⟨?_, List.forall_mem_cons.mpr ⟨has, blanks⟩⟩
          simp only [List.filter_cons, isValue, if_true]
          exact .cons ⟨value, pathEq⟩ yields

theorem graph_of_validateQuad {name : String} {q : Quad} (valid : validateQuad name q = .ok ()) :
    q.graph = if name = defaultGraph then none else some (.blank name) := by
  unfold validateQuad at valid
  split at valid
  · rename_i noNode
    by_cases isDefault : name = defaultGraph
    · rw [noNode, if_pos isDefault]
    · rw [if_pos isDefault] at valid
      cases valid
  · rename_i node there
    by_cases isDefault : name = defaultGraph
    · rw [if_pos isDefault] at valid
      cases valid
    · by_cases same : node = .blank name
      · rw [there, same, if_neg isDefault]
      · rw [if_neg isDefault, if_pos same] at valid
        cases valid

theorem graph_congr {entries : List Entry} (extracted : extractEntries d prime = .ok entries)
    {a b : Item} (member : a ∈ d.identified) (member' : b ∈ d.identified)
    (sameGraph : a.1.graph = b.1.graph) : a.2.graph = b.2.graph := by
  have node : ∀ item ∈ d.identified,
      item.2.graph = if item.1.graph = defaultGraph then none else some (.blank item.1.graph) := by
    intro item member
    obtain ⟨⟨⟩, valid, -⟩ := Except.bind_eq_ok_iff.mp extracted
    obtain ⟨⟨name, quads⟩, inGraphs, inGraph⟩ := List.mem_flatMap.mp member
    obtain ⟨rfl, found⟩ := mem_identified_of_graph.mp inGraph
    have checked := Except.forM_eq_ok valid _ inGraphs
    dsimp only at checked
    split at checked
    · cases checked
    · exact graph_of_validateQuad (Except.forM_eq_ok checked _ (List.mem_of_getElem? found))
  rw [node a member, node b member', sameGraph]

theorem extractEntries_eq_ok {entries : List Entry}
    (extracted : extractEntries d prime = .ok entries) :
    ∃ r, Relationships.ofDataset d = .ok r ∧ List.Forall₂ (Yields d r prime) d.valued entries ∧
      ∀ item ∈ d.identified, item.2.isValue = false → r.hasChildren item.1 = true := by
  simp only [extractEntries, Except.bind_eq_ok_iff] at extracted
  obtain ⟨-, -, r, built, lists, all, same⟩ := extracted
  cases same
  have perGraph : List.Forall₂ (fun graph entries =>
      List.Forall₂ (Yields d r prime)
          ((identified graph.1 graph.2).filter fun item => item.2.isValue) entries ∧
        ∀ item ∈ identified graph.1 graph.2, item.2.isValue = false →
          r.hasChildren item.1 = true) d.graphs lists := by
    have inDataset := (List.forall₂_and_left d.graphs lists).mpr
      ⟨fun graph member => member, Except.mapM_eq_ok_iff.mp all⟩
    refine inDataset.imp ?_
    rintro ⟨graph, quads⟩ list ⟨member, made⟩
    obtain ⟨keys, told, made⟩ := Except.bind_eq_ok_iff.mp made
    have counts : Counts graph [] [] := fun _ _ _ => rfl
    exact graphEntries_eq_ok (Dataset.graph?_eq_some_iff.mpr member) (Except.mapM_eq_ok_iff.mp told)
      [] quads rfl counts made
  refine ⟨r, built, ?_, ?_⟩
  · rw [Dataset.valued, Dataset.identified, List.filter_flatMap]
    refine List.rel_flatten ?_
    rw [List.forall₂_map_left_iff]
    exact perGraph.imp fun _ _ both => both.1
  · intro item member
    obtain ⟨graph, inGraphs, inGraph⟩ := List.mem_flatMap.mp member
    obtain ⟨list, -, -, blanks⟩ := perGraph.exists_of_mem_left inGraphs
    exact blanks item inGraph

end Extract

end LinkedCommit
