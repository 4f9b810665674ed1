import LinkedCommit.Proofs.Commitment.Agreement
import LinkedCommit.Proofs.Commitment.Processed
import LinkedCommit.Proofs.Document.View
import LinkedCommit.Proofs.Document.Way
import LinkedCommit.Proofs.Json.Ordered
/-!
# Raw values of places

A place in a document has a path, and the raw value at the path is read from the compacted view.
The view is not built as the document is: an array of one item is the item, an array under a term
for lists stands under `@list`, what several keys have for one identifier is put in one array, a
graph alone is not seen, and keywords keep their values.  A way that comes through all of these as
it is in the document is kept (`Kept`), and then the raw value at the path is the value of the place
(`rawValue_of_place`).
-/

set_option autoImplicit false

open LinkedCommit.Compact LinkedCommit.Place

namespace LinkedCommit

/-- The identifier of a step is one that the view has, whether it is safe or not. -/
def Place.Step.Usable : Step → Prop
  | .item _ _ => True
  | .member _ _ _ _ iri => isUsable iri = true

instance : (step : Step) → Decidable step.Usable
  | .item _ _ => inferInstanceAs (Decidable True)
  | .member _ _ _ _ iri => inferInstanceAs (Decidable (isUsable iri = true))

namespace Commitment

/-! ## Ways that the view keeps -/

/-- Where in a document a value stands, as far as its view depends on it. -/
inductive Spot where
  | document
  /-- The array of a list object. -/
  | list
  | value (d : Option TermDefinition)
  /-- Under the first of several keys for one identifier. -/
  | merged (d : Option TermDefinition)

namespace Spot

def listed (spot : Spot) (members : Json.Members) : Bool :=
  match spot with
  | .value _ => NameMap.contains members "@list"
  | _ => false

def under (typed : Context) (members : Json.Members) (token iri : String) : Spot :=
  (if shared typed members token iri then Spot.merged else Spot.value)
    (if iri ∈ nesting then none else typed.term? token)

def after (spot : Spot) : Step → Spot
  | .item _ _ =>
    match spot with
    | .value d | .merged d => .value d
    | _ => .value none
  | .member _ typed members token iri =>
    if spot.listed members then .list else under typed members token iri

/-- The view of a list object is the array under `@list` alone, in the context around. -/
def KeepsList (typed : Context) (members : Json.Members) (token : String) : Prop :=
  token = "@list" ∧ NameMap.contains members "@context" = false ∧
    (typed.term? "@list").bind TermDefinition.scopedContext = none ∧
    ((NameMap.get? members "@list").map Json.kind) = some "array"

/-- The view of a node has under an identifier what its first key has: a property, or nodes under a
keyword with no context of its own, which in the case of a graph do not stand alone. -/
def KeepsMember (typed : Context) (members : Json.Members) (token iri : String) : Prop :=
  (startsWithAt token = true → isUsable iri = true) ∧
    (∀ p ∈ members, p.1 < token → propertyIri? typed p.1 ≠ some iri) ∧
    (startsWithAt iri = false ∨
      iri ∈ nesting ∧ (typed.term? token).bind TermDefinition.scopedContext = none ∧
        (iri = "@graph" → ∃ p ∈ members, p.1 ≠ "@context" ∧
          (propertyIri? typed p.1).any (fun other => other ≠ "@graph") = true))

def Keeps (spot : Spot) : Step → Prop
  | .item items _ =>
    match spot with
    | .value d => items.length ≠ 1 ∧ (d.map (·.hasContainer "@list")).getD false = false
    | .merged d =>
      (items.length = 1 → items.all staysOne = true) ∧
        (d.map (·.hasContainer "@list")).getD false = false
    | _ => True
  | .member _ typed members token iri =>
    match spot with
    | .value _ =>
      NameMap.contains members "@value" = false ∧
        if spot.listed members then KeepsList typed members token
        else KeepsMember typed members token iri
    | .merged _ => False
    | _ => KeepsMember typed members token iri

instance {typed : Context} {members : Json.Members} {token : String} :
    Decidable (KeepsList typed members token) :=
  inferInstanceAs (Decidable (_ ∧ _ ∧ _ ∧ _))

instance {typed : Context} {members : Json.Members} {token iri : String} :
    Decidable (KeepsMember typed members token iri) :=
  inferInstanceAs (Decidable (_ ∧ _ ∧ _))

instance : (spot : Spot) → (step : Step) → Decidable (spot.Keeps step)
  | .document, .item _ _ | .list, .item _ _ => inferInstanceAs (Decidable True)
  | .value d, .item items _ =>
    inferInstanceAs
      (Decidable (items.length ≠ 1 ∧ (d.map (·.hasContainer "@list")).getD false = false))
  | .merged d, .item items _ =>
    inferInstanceAs (Decidable ((items.length = 1 → items.all staysOne = true) ∧
      (d.map (·.hasContainer "@list")).getD false = false))
  | .merged _, .member _ _ _ _ _ => inferInstanceAs (Decidable False)
  | .document, .member _ typed members token iri | .list, .member _ typed members token iri =>
    inferInstanceAs (Decidable (KeepsMember typed members token iri))
  | .value d, .member _ typed members token iri =>
    inferInstanceAs (Decidable (NameMap.contains members "@value" = false ∧
      if listed (.value d) members then KeepsList typed members token
      else KeepsMember typed members token iri))

/-- A scalar there is no reference, and alone. -/
def Plain : Spot → Prop
  | .value d =>
    d.bind TermDefinition.typeMapping ≠ some "@id" ∧
      d.bind TermDefinition.typeMapping ≠ some "@vocab"
  | .merged _ => False
  | _ => True

instance : (spot : Spot) → Decidable spot.Plain
  | .value d =>
    inferInstanceAs (Decidable (d.bind TermDefinition.typeMapping ≠ some "@id" ∧
      d.bind TermDefinition.typeMapping ≠ some "@vocab"))
  | .merged _ => inferInstanceAs (Decidable False)
  | .document | .list => inferInstanceAs (Decidable True)

end Spot

/-- The view has every step of a way. -/
def Kept : Spot → List Step → Prop
  | _, [] => True
  | spot, step :: rest => spot.Keeps step ∧ Kept (spot.after step) rest

instance decidableKept : (spot : Spot) → (steps : List Step) → Decidable (Kept spot steps)
  | _, [] => inferInstanceAs (Decidable True)
  | spot, step :: rest =>
    have := decidableKept (spot.after step) rest
    inferInstanceAs (Decidable (spot.Keeps step ∧ Kept (spot.after step) rest))

/-! ## Views -/

variable {mode : Mode} {ctx inner : Context} {spot : Spot} {node child view : Json} {token : String}
  {step : Step} {walked : List Segment}

/-- What the view has for a value, by where this stands. -/
inductive Views (mode : Mode) (ctx : Context) : Spot → Json → Json → Prop
  | node {m out : Json.Members} {around typed : Context}
      (embedded : ctx.applyEmbedded mode.loader m = .ok around)
      (scopes : around.typeScoped mode.loader m = .ok typed)
      (made : members mode around typed [] m = .ok out) :
      Views mode ctx .document (.object m) (.object out)
  | graph {list out : List Json} (made : items mode ctx none list = .ok out) :
      Views mode ctx .document (.array list) (.object [("@graph", .array out)])
  | list {list out : List Json} (made : items mode ctx none list = .ok out) :
      Views mode ctx .list (.array list) (.array out)
  | value {d : Option TermDefinition} {node view : Json} (made : value mode ctx d node = .ok view) :
      Views mode ctx (.value d) node view
  | merged {d : Option TermDefinition} {node first : Json}
      (made : value mode ctx d node = .ok first) (more : List Json) :
      Views mode ctx (.merged d) node (joined first more)

theorem views_of_compactDocument {loader : Loader} {safe : Bool} {document : Json}
    (done : compactDocument loader safe document = .ok view) :
    Views ⟨loader, safe⟩ .empty .document document view := by
  unfold compactDocument at done
  split at done
  · obtain ⟨around, embedded, done⟩ := Except.bind_eq_ok_iff.mp done
    obtain ⟨typed, scopes, done⟩ := Except.bind_eq_ok_iff.mp done
    obtain ⟨out, made, same⟩ := Except.bind_eq_ok_iff.mp done
    cases same
    exact .node embedded scopes made
  · obtain ⟨out, made, same⟩ := Except.bind_eq_ok_iff.mp done
    cases same
    exact .graph made
  · cases done

/-! ## Steps -/

theorem stepInto_index {items : List Json} {i : Nat} {seen : Json} (found : items[i]? = some seen)
    (unwrapped : unwrapGraph view = .array items) :
    stepInto view walked (.index i) = .ok seen := by
  unfold stepInto
  rw [unwrapped]
  simp only [found]

theorem stepInto_term {out : Json.Members} {iri : String} {seen : Json}
    (found : NameMap.get? out iri = some seen)
    (graph : iri = "@graph" → ∃ other, other ≠ "@graph" ∧ NameMap.contains out other = true) :
    stepInto (.object out) walked (.term iri) = .ok seen := by
  have unwrapped : unwrapGraph (.object out) = .object out := by
    unfold unwrapGraph
    split
    · rename_i inside same
      cases same
      rw [NameMap.get?] at found
      split at found
      · rename_i isGraph
        obtain ⟨other, differ, inside⟩ := graph isGraph.symm
        simp [NameMap.contains, NameMap.get?, Ne.symm differ] at inside
      · cases found
    · rfl
  unfold stepInto
  rw [unwrapped]
  simp only [found]

theorem stepInto_joined {d : Option TermDefinition} {items out : List Json} {i : Nat} {seen : Json}
    (each : Compact.items mode ctx d items = .ok out) (there : out[i]? = some seen)
    (keeps : (Spot.merged d).Keeps (.item items i)) (more : List Json) :
    stepInto (joined (arrayOf d out) more) walked (.index i) = .ok seen := by
  obtain ⟨alone, noList⟩ := keeps
  have length := length_of_items each
  by_cases single : items.length = 1
  · -- the item alone is put in an array with what comes after it
    obtain ⟨item, rfl⟩ := List.length_eq_one_iff.mp single
    obtain ⟨first, rfl⟩ := List.length_eq_one_iff.mp (length ▸ single)
    have stays : staysOne item = true := by simpa using alone rfl
    obtain ⟨view, sameFirst, one⟩ := items_get each (i := 0) rfl
    cases sameFirst
    cases i with
    | succ i => cases there
    | zero =>
        cases there
        rw [arrayOf_of_single noList, joined_of_staysOne more stays one]
        exact stepInto_index rfl rfl
  · rw [arrayOf_of_several (length ▸ single) noList]
    have inFront : (out ++ more)[i]? = some seen := by
      rw [List.getElem?_append_left (List.getElem?_eq_some_iff.mp there).1, there]
    exact stepInto_index inFront rfl

theorem stepInto_of_item {items : List Json} {i : Nat}
    (views : Views mode ctx spot (.array items) view) (keeps : spot.Keeps (.item items i))
    (found : items[i]? = some child) :
    ∃ seen, stepInto view walked (.index i) = .ok seen ∧
      Views mode ctx (spot.after (.item items i)) child seen := by
  cases views with
  | graph made =>
      obtain ⟨seen, there, one⟩ := items_get made found
      exact ⟨seen, stepInto_index there rfl, .value one⟩
  | list made =>
      obtain ⟨seen, there, one⟩ := items_get made found
      exact ⟨seen, stepInto_index there rfl, .value one⟩
  | value made =>
      rw [value] at made
      obtain ⟨out, each, same⟩ := Except.bind_eq_ok_iff.mp made
      cases same
      obtain ⟨seen, there, one⟩ := items_get each found
      obtain ⟨several, noList⟩ := keeps
      rw [arrayOf_of_several (length_of_items each ▸ several) noList]
      exact ⟨seen, stepInto_index there rfl, .value one⟩
  | merged made more =>
      rw [value] at made
      obtain ⟨out, each, same⟩ := Except.bind_eq_ok_iff.mp made
      cases same
      obtain ⟨seen, there, one⟩ := items_get each found
      exact ⟨seen, stepInto_joined each there keeps more, .value one⟩

section Member

variable {m out : Json.Members} {around typed : Context} {iri : String}

theorem Spot.KeepsMember.value (keeps : Spot.KeepsMember typed m token iri)
    (under : below mode.loader around typed token = .ok inner)
    (one : member mode around typed token iri child = .ok view) :
    Compact.value mode inner (if iri ∈ nesting then none else typed.term? token) child =
      .ok view := by
  obtain ⟨-, -, property | ⟨nested, noScope, -⟩⟩ := keeps
  · have notNested : iri ∉ nesting := by
      intro nested
      simp only [nesting, List.mem_cons, List.not_mem_nil, or_false] at nested
      rcases nested with rfl | rfl | rfl | rfl <;> exact absurd property (by decide)
    rw [if_neg notNested]
    rw [member, treatment_of_property property] at one
    obtain ⟨inner', child', one⟩ := Except.bind_eq_ok_iff.mp one
    have same : inner' = inner := Except.ok.inj (child'.symm.trans under)
    exact same ▸ one
  · rw [if_pos nested]
    rw [member, treatment_of_nesting nested] at one
    rw [below, noScope] at under
    cases under
    exact one

theorem Spot.KeepsMember.beside_graph (keeps : Spot.KeepsMember typed m token iri)
    (made : members mode around typed [] m = .ok out) (isGraph : iri = "@graph") :
    ∃ other, other ≠ "@graph" ∧ NameMap.contains out other = true := by
  obtain ⟨-, -, property | ⟨-, -, besides⟩⟩ := keeps
  · rw [isGraph] at property
    exact absurd property (by decide)
  · obtain ⟨p, inside, notContext, other⟩ := besides isGraph
    obtain ⟨iri', expanded', differ⟩ := (Option.any_eq_true _ _).mp other
    exact ⟨iri', of_decide_eq_true differ, contains_of_mem made inside notContext expanded'⟩

/-- The view has no `@context`, but as an identifier this is neither a property nor nests nodes. -/
theorem Spot.KeepsMember.ne_context (keeps : Spot.KeepsMember typed m token iri) :
    iri ≠ "@context" := by
  rintro rfl
  obtain ⟨-, -, property | ⟨nested, -⟩⟩ := keeps
  · exact absurd property (by decide)
  · exact absurd nested (by decide)

theorem stepInto_of_member (walked : List Segment) (reads : mode.safe = true ∨ isUsable iri = true)
    (sorted : m.Sorted) (made : members mode around typed [] m = .ok out)
    (keeps : Spot.KeepsMember typed m token iri) (found : NameMap.get? m token = some child)
    (expanded : typed.expand? token true = some iri)
    (under : below mode.loader around typed token = .ok inner) :
    ∃ seen, stepInto (.object out) walked (.term iri) = .ok seen ∧
      Views mode inner (Spot.under typed m token iri) child seen := by
  have inside : (token, child) ∈ m := NameMap.mem_of_get?_eq_some found
  have notContext : token ≠ "@context" := by
    rintro rfl
    exact keeps.ne_context (Option.some.inj (expanded.symm.trans expand?_context))
  have property : propertyIri? typed token = some iri := by
    rcases reads with safe | usable
    · exact propertyIri?_of_members safe made inside notContext expanded keeps.1
    · rw [propertyIri?, expanded, Option.filter_some, if_pos usable]
  obtain ⟨compacted, one, there⟩ := get?_of_members sorted NameMap.sorted_nil made inside
    keeps.ne_context property keeps.2.1 rfl
  have value := keeps.value under one
  have graph := keeps.beside_graph made
  rw [Spot.under]
  split at there
  · rename_i another
    obtain ⟨more, there⟩ := there
    rw [if_pos another]
    exact ⟨joined compacted more, stepInto_term there graph, .merged value more⟩
  · rename_i alone
    rw [if_neg alone]
    exact ⟨compacted, stepInto_term there graph, .value value⟩

end Member

theorem stepInto_of_list {m : Json.Members} {around typed : Context} {iri : String}
    {d : Option TermDefinition} (made : value mode ctx d (.object m) = .ok view)
    (noValue : NameMap.contains m "@value" = false) (listed : NameMap.contains m "@list" = true)
    (keeps : Spot.KeepsList typed m token) (embedded : ctx.applyEmbedded mode.loader m = .ok around)
    (found : NameMap.get? m token = some child) (expanded : typed.expand? token true = some iri)
    (under : below mode.loader around typed token = .ok inner) :
    ∃ seen, stepInto view walked (.term iri) = .ok seen ∧ Views mode inner .list child seen := by
  obtain ⟨rfl, noContext, noScope, isArray⟩ := keeps
  have keyword : typed.expand? "@list" true = some "@list" := by
    rw [Context.expand?, if_pos (by decide)]
  cases keyword.symm.trans expanded
  have absent : NameMap.get? m "@context" = none := by
    simpa [NameMap.contains] using noContext
  rw [Context.applyEmbedded, absent] at embedded
  cases embedded
  rw [below, noScope] at under
  cases under
  rw [found] at isArray
  cases child with
  | array list =>
      rw [value, noValue, listed, listItems_of_get found] at made
      obtain ⟨out, each, same⟩ := Except.bind_eq_ok_iff.mp made
      cases same
      have inView : NameMap.get? [("@list", Json.array out)] "@list" = some (.array out) := by
        simp [NameMap.get?]
      exact ⟨.array out, stepInto_term inView fun isGraph => absurd isGraph (by decide), .list each⟩
  | null | bool | number | string | object => simp [Json.kind] at isArray

theorem stepInto_of_stepped (walked : List Segment) (reads : mode.safe = true ∨ step.Usable)
    (ordered : node.Ordered) (views : Views mode ctx spot node view) (keeps : spot.Keeps step)
    (stepped : Stepped mode.loader ctx token node step inner child) :
    ∃ seen, stepInto view walked step.segment = .ok seen ∧
      Views mode inner (spot.after step) child seen := by
  cases stepped with
  | item digits index found => exact stepInto_of_item views keeps found
  | @member m around typed inner child iri term embedded scopes found expanded under =>
      have sorted := (Json.ordered_object_iff.mp ordered).1
      cases views with
      | node embedded' scopes' made =>
          cases embedded.symm.trans embedded'
          cases scopes.symm.trans scopes'
          exact stepInto_of_member walked reads sorted made keeps found expanded under
      | value made =>
          obtain ⟨noValue, keeps⟩ := keeps
          by_cases listed : NameMap.contains m "@list" = true
          · rw [Spot.listed, if_pos listed] at keeps
            rw [Spot.after, Spot.listed, if_pos listed]
            exact stepInto_of_list made noValue listed keeps embedded found expanded under
          · rw [Spot.listed, if_neg listed] at keeps
            rw [Spot.after, Spot.listed, if_neg listed]
            rw [value, noValue, (Bool.not_eq_true _).mp listed] at made
            obtain ⟨around', embedded', made⟩ := Except.bind_eq_ok_iff.mp made
            cases embedded.symm.trans embedded'
            obtain ⟨typed', scopes', made⟩ := Except.bind_eq_ok_iff.mp made
            cases scopes.symm.trans scopes'
            obtain ⟨out, built, same⟩ := Except.bind_eq_ok_iff.mp made
            cases same
            exact stepInto_of_member walked reads sorted built keeps found expanded under
      | merged => exact keeps.elim

/-! ## Ways -/

theorem ordered_of_stepped {loader : Loader} (ordered : node.Ordered)
    (stepped : Stepped loader ctx token node step inner child) : child.Ordered := by
  cases stepped with
  | item _ _ found =>
      exact Json.ordered_array_iff.mp ordered _ (List.mem_of_getElem? found)
  | member _ _ _ found =>
      exact (Json.ordered_object_iff.mp ordered).2 _ (NameMap.mem_of_get?_eq_some found)

/-- The view has the place at the end of a way that it keeps. -/
theorem descend_of_way (walked : List Segment) {tokens : List String} {steps : List Step}
    {target : Json} (reads : mode.safe = true ∨ ∀ step ∈ steps, step.Usable)
    (ordered : node.Ordered)
    (views : Views mode ctx spot node view)
    (way : way? mode.loader ctx node tokens = some (steps, target)) (kept : Kept spot steps) :
    ∃ seen last, descend view walked (steps.map Step.segment) = .ok seen ∧
      Views mode last (steps.foldl Spot.after spot) target seen := by
  induction tokens generalizing ctx node spot view walked steps with
  | nil =>
      cases way
      exact ⟨view, ctx, rfl, views⟩
  | cons token rest ih =>
      obtain ⟨step, inner, child, steps, stepped, further, rfl⟩ := way?_cons_eq_some_iff.mp way
      obtain ⟨keeps, keptRest⟩ := kept
      have readsRest := reads.imp_right fun all step member => all step (List.mem_cons_of_mem _ member)
      obtain ⟨seen, there, views⟩ := stepInto_of_stepped walked
        (reads.imp_right fun all => all step List.mem_cons_self) ordered views keeps stepped
      obtain ⟨final, last, found, ends⟩ := ih (walked ++ [step.segment]) readsRest
        (ordered_of_stepped ordered stepped) views further keptRest
      refine ⟨final, last, ?_, ends⟩
      rw [List.map_cons, descend, there]
      exact found

theorem rawValue_of_views {c : Commitment} {path : Path} {scalar seen : Json}
    (isScalar : scalar.isScalar = true) (plain : spot.Plain)
    (views : Views mode ctx spot scalar seen)
    (found : descend c.compacted [] path.segments = .ok seen) : c.rawValue path = .ok scalar := by
  rw [rawValue, found]
  cases views with
  | node | graph | list => cases isScalar
  | merged => exact plain.elim
  | value made =>
      rcases value_of_scalar isScalar plain.1 plain.2 made with rfl | ⟨mapping, rfl⟩
      · cases seen with
        | string | number | bool => rfl
        | null | array | object => cases isScalar
      · rfl

theorem source_of_ofDocument {source : List UInt8} {options : CommitOptions} {c : Commitment}
    (committed : ofDocument source options = .ok c) :
    c.source = source ∧ c.loader = options.loader := by
  simp only [ofDocument, Except.bind_eq_ok_iff] at committed
  obtain ⟨document, -, compacted, -, dataset, -, extracted, -, ⟨tree, entries⟩, -, same⟩ :=
    committed
  cases same
  exact ⟨rfl, rfl⟩

theorem ordered_of_readDocument {source : List UInt8} {document : Json}
    (read : readDocument source = .ok document) : document.Ordered := by
  unfold readDocument at read
  split at read
  · rename_i parsed
    cases read
    exact Json.ordered_of_parseBytes parsed
  · cases read

/-- The raw value at the path of a place is the value of the place, if this is a scalar under a term
that makes no reference of it and the view keeps the way to the place. -/
theorem rawValue_of_place {source : List UInt8} {options : CommitOptions} {c : Commitment}
    {document target : Json} {dotted : String} {tokens : List String} {steps : List Step}
    {path : Path} (committed : ofDocument source options = .ok c) (safe : options.safeMode = true)
    (read : readDocument source = .ok document) (parts : Place.tokens dotted = .ok tokens)
    (way : way? options.loader .empty document tokens = some (steps, target))
    (resolved : c.resolvePlace dotted = .ok path) (isScalar : target.isScalar = true)
    (plain : (steps.foldl Spot.after .document).Plain) (kept : Kept .document steps) :
    c.rawValue path = .ok target := by
  obtain ⟨-, document', -, -, read', view, -⟩ := ofDocument_eq_ok committed
  cases read.symm.trans read'
  obtain ⟨sourceEq, loaderEq⟩ := source_of_ofDocument committed
  have path : path.segments = steps.map Step.segment := by
    rw [resolvePlace, sourceEq, loaderEq] at resolved
    obtain ⟨document', read', resolved⟩ := Except.bind_eq_ok_iff.mp resolved
    cases read.symm.trans read'
    rw [Except.mapError_eq_ok_iff] at resolved
    obtain ⟨steps', target', way', rfl⟩ := way_of_pathFromDocument parts resolved
    cases way.symm.trans way'
    rfl
  obtain ⟨seen, last, found, ends⟩ := descend_of_way [] (Or.inl safe)
    (ordered_of_readDocument read) (views_of_compactDocument view) way kept
  exact rawValue_of_views isScalar plain ends (path ▸ found)

/-! ## Fixed documents -/

/-- A place under a context of a term, the second of two items. -/
theorem rawValue_of_nested_place :
    let source := utf8Bytes ("\x7b\"@context\":\x7b\"k\":\x7b\"@id\":\"urn:k\"," ++
      "\"@context\":\x7b\"n\":\"urn:n\"\x7d\x7d\x7d,\"@id\":\"urn:d\"," ++
      "\"k\":\x7b\"@id\":\"urn:a\",\"n\":[\"A\",\"B\"]\x7d\x7d")
    let hasher := foldHasher 1000000007
    let options : CommitOptions := ⟨hasher, .none, canonicalDataset, true, .empty hasher 40⟩
    let path : Path := ⟨[.term "urn:k", .term "urn:n", .index 1]⟩
    ∃ c, ofDocument source options = .ok c ∧ c.resolvePlace "k.n.1" = .ok path ∧
      c.rawValue path = .ok (.string "B") := by
  intro source hasher options path
  let quads : List Quad :=
    [textQuad "urn:a" "urn:n" "A", textQuad "urn:a" "urn:n" "B",
      ⟨.iri "urn:d", .iri "urn:k", .iri "urn:a", none⟩]
  have computed : (readDocument source).passes (fun document =>
      (inlineContexts .none document).passes (fun inlined =>
        (Expansion.expandDocument documentBase inlined).passes fun items =>
          Expansion.statements items = quads) &&
      (way? .none .empty document ["k", "n", "1"]).any fun found =>
        found.2.string? = some "B" && decide (Kept .document found.1) &&
          decide (found.1.foldl Spot.after .document).Plain) = true := by decide +kernel
  obtain ⟨document, read, computed⟩ := Except.exists_of_passes computed
  obtain ⟨stated, computed⟩ := (Bool.and_eq_true _ _).mp computed
  obtain ⟨⟨steps, target⟩, way, computed⟩ := (Option.any_eq_true _ _).mp computed
  simp only [Bool.and_eq_true, decide_eq_true_eq] at computed
  obtain ⟨⟨text, kept⟩, plain⟩ := computed
  have target : target = .string "B" := by
    cases target with
    | string s => exact congrArg Json.string (Option.some.inj text)
    | null | bool | number | array | object => cases text
  subst target
  have processed : canonicalDataset .none document = .ok (.ofQuads quads) :=
    canonicalDataset_of_ordered stated (by decide) (by decide +kernel) (by decide +kernel)
  obtain ⟨c, committed, resolved⟩ := exists_ofDocument options
    (fun c => c.resolvePlace "k.n.1" = .ok path) read processed (by decide +kernel)
  have resolved := of_decide_eq_true resolved
  exact ⟨c, committed, resolved,
    rawValue_of_place committed rfl read (by decide +kernel) way resolved rfl plain kept⟩

/-- An array of one item, which the view has as the item. -/
theorem rawValue_of_single_item :
    let source := utf8Bytes "\x7b\"@id\":\"urn:doc\",\"urn:tag\":[\"t\"]\x7d"
    let hasher := foldHasher 1000000007
    let options : CommitOptions := ⟨hasher, .none, canonicalDataset, true, .empty hasher 40⟩
    let path : Path := ⟨[.term "urn:tag", .index 0]⟩
    ∃ c document steps, ofDocument source options = .ok c ∧
      readDocument source = .ok document ∧
      way? .none .empty document ["urn:tag", "0"] = some (steps, .string "t") ∧
      c.resolvePlace "urn:tag.0" = .ok path ∧
      c.rawValue path = .error (.document (.shape (.expectedArray "urn:tag"))) := by
  intro source hasher options path
  let quads : List Quad := [textQuad "urn:doc" "urn:tag" "t"]
  have computed : (readDocument source).passes (fun document =>
      (inlineContexts .none document).passes (fun inlined =>
        (Expansion.expandDocument documentBase inlined).passes fun items =>
          Expansion.statements items = quads) &&
      (way? .none .empty document ["urn:tag", "0"]).any fun found =>
        found.2.string? = some "t") = true := by decide +kernel
  obtain ⟨document, read, computed⟩ := Except.exists_of_passes computed
  obtain ⟨stated, computed⟩ := (Bool.and_eq_true _ _).mp computed
  obtain ⟨⟨steps, target⟩, way, text⟩ := (Option.any_eq_true _ _).mp computed
  have target : target = .string "t" := by
    cases target with
    | string s => exact congrArg Json.string (Option.some.inj (of_decide_eq_true text))
    | null | bool | number | array | object => cases of_decide_eq_true text
  subst target
  have processed : canonicalDataset .none document = .ok (.ofQuads quads) :=
    canonicalDataset_of_ordered stated (by decide) (by decide +kernel) (by decide +kernel)
  obtain ⟨c, committed, tested⟩ := exists_ofDocument options
    (fun c => c.resolvePlace "urn:tag.0" = .ok path &&
      (c.rawValue path).fails fun e => e = .document (.shape (.expectedArray "urn:tag")))
    read processed (by decide +kernel)
  simp only [Bool.and_eq_true, decide_eq_true_eq] at tested
  obtain ⟨resolved, raw⟩ := tested
  obtain ⟨e, failed, same⟩ := Except.exists_of_fails raw
  rw [of_decide_eq_true same] at failed
  exact ⟨c, document, steps, committed, read, way, resolved, failed⟩

end Commitment

end LinkedCommit
