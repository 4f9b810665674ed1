import LinkedCommit.Commitment.Relationship
import LinkedCommit.Proofs.NameMap
import LinkedCommit.Proofs.Result
/-!
# Blank nodes under other labels

A relabelling gives blank nodes other labels, different ones different labels.  Labels are keys of
all tables of the relationships, and each table of a relabelled dataset is that of the dataset,
relabelled (`Relabelling.ofDataset_renames`): parents are found at the same places and children have
the same numbers.  As a path has neither labels nor graphs in it, the paths are the same
(`Relabelling.path_renames`).

A failure is the same failure of the relabelled quads.  `Relabelling.Renames` says both of two
computations: their results and their failures are each other's, relabelled.
-/

set_option autoImplicit false

namespace LinkedCommit

namespace Relationships

/-- The statements of a graph whose object is a resource, but for one of them. -/
def near (d : Dataset) (i : QuadId) (subject : Resource) : List (QuadId × Quad) :=
  (identified i.graph ((d.graph? i.graph).getD [])).filter fun x =>
    x.1.index ≠ i.index && Resource.ofTerm? x.2.object = some subject

/-- The statements whose object is a blank graph. -/
def far (d : Dataset) : Option Term → List (QuadId × Quad)
  | some (.blank label) => d.identified.filter fun x => x.2.object = .blank label
  | _ => []

theorem candidates_eq (d : Dataset) (i : QuadId) (q : Quad) (subject : Resource) :
    candidates d i q subject =
      (if (near d i subject).isEmpty then far d q.graph else near d i subject).map Prod.fst := by
  unfold candidates
  change (if (!(near d i subject).isEmpty) = true then (near d i subject).map Prod.fst else _) = _
  cases (near d i subject).isEmpty with
  | false => rfl
  | true => rcases q.graph with _ | _ | _ | _ <;> rfl

end Relationships

/-- A renaming of blank nodes.  Labels start with `_:`; no other text is changed, so that labels
stay labels. -/
structure Relabelling where
  label : String → String
  injective : Function.Injective label
  unmarked : ∀ text, text.startsWith "_:" = false → label text = text

namespace Relabelling

variable (ρ : Relabelling)

@[simp] theorem label_defaultGraph : ρ.label defaultGraph = defaultGraph :=
  ρ.unmarked _ (by decide +kernel)

@[simp] theorem label_empty : ρ.label "" = "" :=
  ρ.unmarked _ (by decide +kernel)

@[simp] theorem label_eq_iff {a b : String} : ρ.label a = ρ.label b ↔ a = b :=
  ρ.injective.eq_iff

/-! ## Relabelled data -/

def term : Term → Term
  | .blank label => .blank (ρ.label label)
  | other => other

def quad (q : Quad) : Quad where
  subject := ρ.term q.subject
  predicate := q.predicate
  object := ρ.term q.object
  graph := q.graph.map ρ.term

def graph (g : String × List Quad) : String × List Quad := (ρ.label g.1, g.2.map ρ.quad)

/-- The graphs of a dataset stand in the order of their names, which other labels may change. -/
def KeepsOrder (d : Dataset) : Prop :=
  ∀ a ∈ d.graphs.keys, ∀ b ∈ d.graphs.keys, a < b → ρ.label a < ρ.label b

instance (d : Dataset) : Decidable (ρ.KeepsOrder d) :=
  inferInstanceAs (Decidable (∀ a ∈ d.graphs.keys, ∀ b ∈ d.graphs.keys, _))

def dataset (d : Dataset) (keeps : ρ.KeepsOrder d) : Dataset where
  graphs := d.graphs.map ρ.graph
  sorted := by
    rw [NameMap.Sorted, NameMap.keys, List.map_map]
    exact List.pairwise_map.mpr <| (List.pairwise_map.mp d.sorted).imp_of_mem
      fun here there => keeps _ (List.mem_map_of_mem here) _ (List.mem_map_of_mem there)

def resource : Resource → Resource
  | .blank label => .blank (ρ.label label)
  | other => other

def key (k : PropertyKey) : PropertyKey := ⟨ρ.resource k.subject, k.predicate, ρ.label k.graph⟩

def quadId (i : QuadId) : QuadId := ⟨ρ.label i.graph, i.index⟩

def item (i : QuadId × Quad) : QuadId × Quad := (ρ.quadId i.1, ρ.quad i.2)

def relationships (r : Relationships) : Relationships where
  parents := r.parents.map fun (child, parent) => (ρ.quadId child, ρ.quadId parent)
  children := r.children.map fun (k, subjects) => (ρ.key k, subjects.map ρ.resource)

def datasetError : DatasetError → DatasetError
  | .emptyGraphName => .emptyGraphName
  | .defaultGraphHasNode node => .defaultGraphHasNode (ρ.term node)
  | .noGraphNode name => .noGraphNode (ρ.label name)
  | .otherGraphNode name node => .otherGraphNode (ρ.label name) (ρ.term node)
  | .predicateNotIri predicate => .predicateNotIri predicate

def unsupported : UnsupportedQuad → UnsupportedQuad
  | .literalSubject subject => .literalSubject (ρ.term subject)
  | .blankObject subject predicate label =>
    .blankObject (ρ.term subject) predicate (ρ.label label)

def broken : BrokenInvariant → BrokenInvariant
  | .quadAbsent i => .quadAbsent (ρ.quadId i)
  | .parentCycle i => .parentCycle (ρ.quadId i)
  | other => other

def error : CommitError → CommitError
  | .dataset cause => .dataset (ρ.datasetError cause)
  | .unsupported cause => .unsupported (ρ.unsupported cause)
  | .multipleParents child first second =>
    .multipleParents (ρ.quadId child) (ρ.quadId first) (ρ.quadId second)
  | .broken cause => .broken (ρ.broken cause)
  | other => other

theorem term_injective : Function.Injective ρ.term := by
  rintro (a | a | a) (b | b | b) same <;> simp_all [term]

theorem resource_injective : Function.Injective ρ.resource := by
  rintro (a | a) (b | b) same <;> simp_all [resource]

theorem key_injective : Function.Injective ρ.key := by
  rintro ⟨s, p, g⟩ ⟨s', p', g'⟩ same
  simp only [key, PropertyKey.mk.injEq, label_eq_iff] at same ⊢
  exact ⟨ρ.resource_injective same.1, same.2⟩

theorem quadId_injective : Function.Injective ρ.quadId := by
  rintro ⟨g, i⟩ ⟨g', i'⟩ same
  simpa only [quadId, QuadId.mk.injEq, label_eq_iff] using same

theorem ofTerm?_term (t : Term) :
    Resource.ofTerm? (ρ.term t) = (Resource.ofTerm? t).map ρ.resource := by
  cases t <;> rfl

/-! ## Computations -/

/-- The second result is the first one, changed by `f`; a failure is the same, relabelled. -/
def Renames {α β : Type} (f : α → β) (first : Except CommitError α)
    (second : Except CommitError β) : Prop :=
  second = (first.map f).mapError ρ.error

namespace Renames

variable {ρ : Relabelling} {α β γ δ : Type} {f : α → β} {g : γ → δ}

theorem ok {a : α} : ρ.Renames f (.ok a) (.ok (f a)) := rfl

theorem error {e : CommitError} : ρ.Renames f (.error e) (.error (ρ.error e)) := rfl

theorem bind {first : Except CommitError α} {second : Except CommitError β}
    (renames : ρ.Renames f first second) {next : α → Except CommitError γ}
    {next' : β → Except CommitError δ} (after : ∀ a, ρ.Renames g (next a) (next' (f a))) :
    ρ.Renames g (first >>= next) (second >>= next') := by
  cases renames
  cases first with
  | error e => rfl
  | ok a => exact after a

theorem mapM {step : α → Except CommitError γ} {step' : β → Except CommitError δ} {xs : List α}
    (each : ∀ a, ρ.Renames g (step a) (step' (f a))) :
    ρ.Renames (List.map g) (xs.mapM step) ((xs.map f).mapM step') := by
  induction xs with
  | nil => rfl
  | cons a rest ih =>
      rw [List.map_cons, List.mapM_cons, List.mapM_cons]
      exact (each a).bind fun first => ih.bind fun others => .ok

theorem forM {step : α → Except CommitError Unit} {step' : β → Except CommitError Unit}
    {xs : List α} (each : ∀ a, ρ.Renames id (step a) (step' (f a))) :
    ρ.Renames id (xs.forM step) ((xs.map f).forM step') := by
  induction xs with
  | nil => rfl
  | cons a rest ih =>
      exact (each a).bind fun _ => ih

/-- A failure that no label is part of. -/
theorem mapError {ε : Type} {toError : ε → CommitError}
    (free : ∀ e, ρ.error (toError e) = toError e) (result : Except ε α) :
    ρ.Renames id (result.mapError toError) (result.mapError toError) := by
  cases result with
  | ok a => exact .ok
  | error e => exact congrArg Except.error (free e).symm

theorem foldlM {step : γ → α → Except CommitError γ} {step' : δ → β → Except CommitError δ}
    {xs : List α} (each : ∀ c a, ρ.Renames g (step c a) (step' (g c) (f a))) (start : γ) :
    ρ.Renames g (xs.foldlM step start) ((xs.map f).foldlM step' (g start)) := by
  induction xs generalizing start with
  | nil => rfl
  | cons a rest ih =>
      rw [List.map_cons, List.foldlM_cons, List.foldlM_cons]
      exact (each start a).bind ih

end Renames

/-! ## Quads and datasets -/

theorem subjectResource_renames (q : Quad) :
    ρ.Renames ρ.resource q.subjectResource (ρ.quad q).subjectResource := by
  obtain ⟨subject, predicate, object, graph⟩ := q
  cases subject <;> rfl

theorem predicateIri_renames (q : Quad) : ρ.Renames id q.predicateIri (ρ.quad q).predicateIri := by
  obtain ⟨subject, predicate, object, graph⟩ := q
  cases predicate <;> rfl

theorem ofQuad_renames (q : Quad) (name : String) :
    ρ.Renames ρ.key (PropertyKey.ofQuad q name) (PropertyKey.ofQuad (ρ.quad q) (ρ.label name)) :=
  (ρ.subjectResource_renames q).bind fun _ => (ρ.predicateIri_renames q).bind fun _ => .ok

theorem identified_map (name : String) (quads : List Quad) :
    identified (ρ.label name) (quads.map ρ.quad) = (identified name quads).map ρ.item := by
  rw [identified, identified, List.zipIdx_map, List.map_map, List.map_map]
  rfl

theorem filter_map {holds holds' : QuadId × Quad → Bool} (same : ∀ x, holds' (ρ.item x) = holds x)
    (items : List (QuadId × Quad)) :
    (items.map ρ.item).filter holds' = (items.filter holds).map ρ.item := by
  rw [List.filter_map]
  exact congrArg _ (List.filter_congr fun x _ => same x)

/-! ## Tables -/

theorem parent?_quadId (r : Relationships) (i : QuadId) :
    (ρ.relationships r).parent? (ρ.quadId i) = (r.parent? i).map ρ.quadId := by
  rw [Relationships.parent?, Relationships.parent?, relationships, List.find?_map, Option.map_map,
    Option.map_map]
  simp only [Function.comp_def, ρ.quadId_injective.eq_iff]

theorem hasChildren_quadId (r : Relationships) (i : QuadId) :
    (ρ.relationships r).hasChildren (ρ.quadId i) = r.hasChildren i := by
  rw [Relationships.hasChildren, Relationships.hasChildren, relationships, List.any_map]
  simp only [Function.comp_def, ρ.quadId_injective.eq_iff]

theorem children?_key (r : Relationships) (k : PropertyKey) :
    (ρ.relationships r).children? (ρ.key k) = (r.children? k).map (List.map ρ.resource) := by
  rw [Relationships.children?, Relationships.children?, relationships, List.find?_map,
    Option.map_map, Option.map_map]
  simp only [Function.comp_def, ρ.key_injective.eq_iff]

theorem contains_map (subjects : List Resource) (child : Resource) :
    (subjects.map ρ.resource).contains (ρ.resource child) = subjects.contains child := by
  rw [Bool.eq_iff_iff, List.contains_iff_mem, List.contains_iff_mem,
    List.mem_map_of_injective ρ.resource_injective]

theorem idxOf?_map (subjects : List Resource) (child : Resource) :
    (subjects.map ρ.resource).idxOf? (ρ.resource child) = subjects.idxOf? child := by
  rw [List.idxOf?, List.idxOf?, List.findIdx?_map]
  congr 1
  funext other
  rw [Function.comp_apply, Bool.eq_iff_iff, beq_iff_eq, beq_iff_eq, ρ.resource_injective.eq_iff]

theorem addChild_map (k : PropertyKey) (child : Resource)
    (table : List (PropertyKey × List Resource)) :
    Relationships.addChild (ρ.key k) (ρ.resource child)
        (table.map fun (k, subjects) => (ρ.key k, subjects.map ρ.resource)) =
      (Relationships.addChild k child table).map
        fun (k, subjects) => (ρ.key k, subjects.map ρ.resource) := by
  induction table with
  | nil => rfl
  | cons head rest ih =>
      obtain ⟨other, subjects⟩ := head
      rw [List.map_cons, Relationships.addChild, Relationships.addChild]
      simp only [ρ.key_injective.eq_iff, ρ.contains_map, ih]
      split
      · split <;> simp
      · rfl

section Datasets

variable {d d' : Dataset} (renamed : d'.graphs = d.graphs.map ρ.graph)

include renamed

theorem graph?_label (name : String) :
    d'.graph? (ρ.label name) = (d.graph? name).map (List.map ρ.quad) := by
  rw [Dataset.graph?, Dataset.graph?, renamed]
  exact NameMap.get?_map ρ.injective (List.map ρ.quad) d.graphs name

theorem identified_eq : d'.identified = d.identified.map ρ.item := by
  rw [Dataset.identified, Dataset.identified, renamed, List.flatMap_map, List.map_flatMap]
  exact List.flatMap_congr fun g _ => ρ.identified_map g.1 g.2

theorem lookup_renames (i : QuadId) : ρ.Renames ρ.quad (d.lookup i) (d'.lookup (ρ.quadId i)) := by
  have found : ((d'.graph? (ρ.quadId i).graph).bind fun quads => quads[(ρ.quadId i).index]?) =
      ((d.graph? i.graph).bind fun quads => quads[i.index]?).map ρ.quad := by
    rw [quadId, ρ.graph?_label renamed, Option.bind_map, Option.map_bind]
    congr 1
    funext quads
    exact List.getElem?_map
  rw [Dataset.lookup, Dataset.lookup, found]
  cases (d.graph? i.graph).bind fun quads => quads[i.index]? <;> rfl

/-! ## Parents -/

theorem siblings_map (i : QuadId) :
    identified (ρ.quadId i).graph ((d'.graph? (ρ.quadId i).graph).getD []) =
      (identified i.graph ((d.graph? i.graph).getD [])).map ρ.item := by
  rw [quadId, ρ.graph?_label renamed, ← ρ.identified_map]
  cases d.graph? i.graph <;> rfl

theorem near_map (i : QuadId) (subject : Resource) :
    Relationships.near d' (ρ.quadId i) (ρ.resource subject) =
      (Relationships.near d i subject).map ρ.item := by
  rw [Relationships.near, ρ.siblings_map renamed]
  refine ρ.filter_map (fun x => ?_) _
  have objects : Resource.ofTerm? (ρ.term x.2.object) = some (ρ.resource subject) ↔
      Resource.ofTerm? x.2.object = some subject := by
    rw [ρ.ofTerm?_term, ← Option.map_some, (Option.map_injective ρ.resource_injective).eq_iff]
  exact congrArg (decide (x.1.index ≠ i.index) && ·) (decide_eq_decide.mpr objects)

theorem far_map (graph : Option Term) :
    Relationships.far d' (graph.map ρ.term) = (Relationships.far d graph).map ρ.item := by
  rcases graph with _ | _ | label | _
  · rfl
  · rfl
  · show d'.identified.filter _ = _
    rw [ρ.identified_eq renamed]
    refine ρ.filter_map (fun x => decide_eq_decide.mpr ?_) _
    exact ρ.term_injective.eq_iff (b := .blank label)
  · rfl

theorem candidates_map (i : QuadId) (q : Quad) (subject : Resource) :
    Relationships.candidates d' (ρ.quadId i) (ρ.quad q) (ρ.resource subject) =
      (Relationships.candidates d i q subject).map ρ.quadId := by
  have graph : (ρ.quad q).graph = q.graph.map ρ.term := rfl
  rw [Relationships.candidates_eq, Relationships.candidates_eq, ρ.near_map renamed, graph,
    ρ.far_map renamed, List.isEmpty_map, ← apply_ite (List.map ρ.item), List.map_map, List.map_map]
  rfl

theorem findParent_renames (i : QuadId) (q : Quad) :
    ρ.Renames (Option.map ρ.quadId) (Relationships.findParent d i q)
      (Relationships.findParent d' (ρ.quadId i) (ρ.quad q)) := by
  refine (ρ.subjectResource_renames q).bind fun subject => ?_
  rw [ρ.candidates_map renamed]
  match Relationships.candidates d i q subject with
  | [] => exact .ok
  | [only] => exact .ok
  | first :: second :: rest => exact .error

theorem add_renames (r : Relationships) (i : QuadId × Quad) :
    ρ.Renames ρ.relationships (Relationships.add d r i)
      (Relationships.add d' (ρ.relationships r) (ρ.item i)) := by
  refine (ρ.findParent_renames renamed i.1 i.2).bind fun parent => ?_
  cases parent with
  | none => exact .ok
  | some parentId =>
      refine (ρ.lookup_renames renamed parentId).bind fun parent => ?_
      refine (ρ.ofQuad_renames parent parentId.graph).bind fun key => ?_
      refine (ρ.subjectResource_renames i.2).bind fun child => ?_
      have added : ρ.relationships
            ⟨r.parents ++ [(i.1, parentId)], Relationships.addChild key child r.children⟩ =
          ⟨(ρ.relationships r).parents ++ [(ρ.quadId i.1, ρ.quadId parentId)],
            Relationships.addChild (ρ.key key) (ρ.resource child)
              (ρ.relationships r).children⟩ := by
        simp [relationships, addChild_map]
      exact added ▸ .ok

/-- The relationships of a relabelled dataset are those of the dataset, relabelled. -/
theorem ofDataset_renames :
    ρ.Renames ρ.relationships (Relationships.ofDataset d) (Relationships.ofDataset d') := by
  rw [Relationships.ofDataset, Relationships.ofDataset, ρ.identified_eq renamed]
  exact Renames.foldlM (ρ.add_renames renamed) Relationships.empty

/-! ## Paths -/

theorem climb_renames (r : Relationships) (start : QuadId) (fuel : Nat) (i : QuadId) (q : Quad)
    (below : List Segment) :
    ρ.Renames id (r.climb d start fuel i q below)
      ((ρ.relationships r).climb d' (ρ.quadId start) fuel (ρ.quadId i) (ρ.quad q) below) := by
  induction fuel generalizing i q below with
  | zero =>
      rw [Relationships.climb, Relationships.climb, ρ.parent?_quadId]
      cases r.parent? i with
      | none => exact .ok
      | some parentId => exact .error
  | succ fuel ih =>
      rw [Relationships.climb, Relationships.climb, ρ.parent?_quadId]
      cases r.parent? i with
      | none => exact .ok
      | some parentId =>
          refine (ρ.lookup_renames renamed parentId).bind fun parent => ?_
          refine (ρ.ofQuad_renames parent parentId.graph).bind fun key => ?_
          rw [ρ.children?_key]
          cases r.children? key with
          | none => exact .error
          | some subjects =>
              refine (ρ.subjectResource_renames q).bind fun child => ?_
              dsimp only [Option.map_some]
              rw [ρ.idxOf?_map]
              cases subjects.idxOf? child with
              | none => exact .error
              | some position =>
                  rw [List.length_map]
                  exact (ρ.predicateIri_renames parent).bind fun predicate => ih _ _ _

theorem path_renames (r : Relationships) (i : QuadId) (index : Option Nat) :
    ρ.Renames id (r.path d i index) ((ρ.relationships r).path d' (ρ.quadId i) index) := by
  refine (ρ.lookup_renames renamed i).bind fun q => ?_
  refine (ρ.predicateIri_renames q).bind fun predicate => ?_
  have climbed := ρ.climb_renames renamed r i r.parents.length i q
  rw [relationships, List.length_map]
  exact (climbed _).bind fun segments => .ok

end Datasets

end Relabelling

end LinkedCommit
