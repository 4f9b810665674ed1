import LinkedCommit.Proofs.Document.View
import LinkedCommit.Proofs.Document.Way
/-!
# Safe mode

A document has in safe mode the view that it has without it, or a property is refused
(`compactDocument_safe_or_refused`).  Properties are refused in the nodes that the view looks into.
`Compact.NodeIn` finds these, each with the context in which its keys are read, and a document has a
view in safe mode exactly if it has one at all and the properties of these nodes all stand for
identifiers (`compactDocument_safe_iff`).

Keywords that keep their values, such as `@nest` and `@reverse`, are not looked into, and what
stands under them is part of the view as it is (`compactDocument_of_nested`).
-/

set_option autoImplicit false

namespace LinkedCommit

namespace Compact

/-! ## The nodes of a document -/

/-- Whether an object is a node: the whole document is one, another object unless it is a value or a
list. -/
def isNode (whole : Bool) (members : Json.Members) : Bool :=
  whole || !(NameMap.contains members "@value" || NameMap.contains members "@list")

/-- The contexts of a node: `inner` for what stands below it, `typed` for its own keys. -/
structure Opens (loader : Loader) (ctx : Context) (node : Json.Members) (inner typed : Context) :
    Prop where
  embedded : ctx.applyEmbedded loader node = .ok inner
  scopes : inner.typeScoped loader node = .ok typed

/-- The value under a key is looked into, in a context: under a keyword for nodes in the one around,
under a property in that of its term. -/
inductive Enters (loader : Loader) (inner typed : Context) (key : String) : Context → Prop
  | nested {iri : String} (expanded : propertyIri? typed key = some iri) (nested : iri ∈ nesting) :
      Enters loader inner typed key inner
  | property {iri : String} {child : Context} (expanded : propertyIri? typed key = some iri)
      (property : startsWithAt iri = false)
      (under : Place.below loader inner typed key = .ok child) : Enters loader inner typed key child

/-- The nodes that the view of a value looks into, with the contexts for their keys; `whole` tells a
document from the values in it. -/
inductive NodeIn (loader : Loader) (typed : Context) (node : Json.Members) :
    Bool → Context → Json → Prop
  | self {whole : Bool} {ctx inner : Context} (is : isNode whole node = true)
      (opens : Opens loader ctx node inner typed) :
      NodeIn loader typed node whole ctx (.object node)
  | member {whole : Bool} {ctx inner outer child : Context} {members : Json.Members} {key : String}
      {v : Json} (is : isNode whole members = true) (opens : Opens loader ctx members inner outer)
      (inside : (key, v) ∈ members) (notContext : key ≠ "@context")
      (enters : Enters loader inner outer key child)
      (found : NodeIn loader typed node false child v) :
      NodeIn loader typed node whole ctx (.object members)
  | listed {ctx : Context} {members : Json.Members} {v : Json}
      (noValue : NameMap.contains members "@value" = false)
      (list : NameMap.get? members "@list" = some v)
      (found : NodeIn loader typed node false ctx v) :
      NodeIn loader typed node false ctx (.object members)
  | item {whole : Bool} {ctx : Context} {items : List Json} {item : Json} (inside : item ∈ items)
      (found : NodeIn loader typed node false ctx item) :
      NodeIn loader typed node whole ctx (.array items)

/-- The key is a property of a node in a value, and stands for no identifier. -/
def Unmapped (loader : Loader) (whole : Bool) (ctx : Context) (json : Json) (key : String) : Prop :=
  ∃ typed node, NodeIn loader typed node whole ctx json ∧ key ∈ NameMap.keys node ∧
    startsWithAt key = false ∧ propertyIri? typed key = none

theorem propertyIri?_ne_none_iff {typed : Context} {key : String} :
    propertyIri? typed key ≠ none ↔
      ∃ iri, typed.expand? key true = some iri ∧ (isKeyword iri = true ∨ ':' ∈ iri.toList) := by
  rw [Option.ne_none_iff_exists']
  simp only [propertyIri?, Option.filter_eq_some_iff, isUsable, Bool.or_eq_true,
    List.contains_iff_mem]

theorem mem_nesting_of_treatment {iri : String} (nested : treatment iri = .nested) :
    iri ∈ nesting := by
  unfold treatment at nested
  simp only [nesting, List.mem_cons, List.not_mem_nil, or_false]
  split at nested
  · cases nested
  · split at nested
    · cases nested
    · split at nested
      · rename_i keyword
        simpa [or_assoc] using keyword
      · split at nested <;> cases nested

theorem startsWithAt_of_treatment {iri : String} (property : treatment iri = .property) :
    startsWithAt iri = false := by
  unfold treatment at property
  split at property
  · cases property
  · split at property
    · cases property
    · split at property
      · cases property
      · split at property
        · cases property
        · rename_i plain
          exact (Bool.not_eq_true _).mp plain

/-! ## Views of nodes -/

section Views

variable {mode : Mode} {ctx inner typed child : Context} {m : Json.Members}
  {d : Option TermDefinition} {key : String}

def nodeView (mode : Mode) (ctx : Context) (m : Json.Members) : Except DocumentError Json := do
  let inner ← ctx.applyEmbedded mode.loader m
  let typed ← inner.typeScoped mode.loader m
  return .object (← members mode inner typed [] m)

theorem value_of_node (is : isNode false m = true) :
    value mode ctx d (.object m) = nodeView mode ctx m := by
  simp only [isNode, Bool.false_or, Bool.not_eq_true', Bool.or_eq_false_iff] at is
  rw [value, is.1, is.2]
  rfl

theorem value_of_value (isValue : NameMap.contains m "@value" = true) :
    value mode ctx d (.object m) = .ok (valueObject ctx m) := by
  rw [value, if_pos isValue]

theorem value_of_list (noValue : NameMap.contains m "@value" = false)
    (listed : NameMap.contains m "@list" = true) :
    value mode ctx d (.object m) =
      listItems mode ctx m >>= fun out => pure (.object [("@list", .array out)]) := by
  rw [value, noValue, listed]
  rfl

theorem compactDocument_object (loader : Loader) (safe : Bool) (m : Json.Members) :
    compactDocument loader safe (.object m) = nodeView ⟨loader, safe⟩ .empty m :=
  rfl

theorem member_of_enters (mode : Mode) (v : Json)
    (enters : Enters mode.loader inner typed key child) :
    ∃ iri d, propertyIri? typed key = some iri ∧
      member mode inner typed key iri v = value mode child d v := by
  cases enters with
  | nested expanded nested => exact ⟨_, none, expanded, by rw [member, treatment_of_nesting nested]⟩
  | property expanded property under =>
      refine ⟨_, typed.term? key, expanded, ?_⟩
      rw [member, treatment_of_property property]
      show Place.below mode.loader inner typed key >>= _ = _
      rw [under]
      rfl

end Views

/-! ## Two runs -/

/-- A result in safe mode beside the one without it: the same, or the refusal of a property that may
be refused. -/
inductive Stricter {α : Type} (may : String → Prop) :
    Except DocumentError α → Except DocumentError α → Prop
  | same (result : Except DocumentError α) : Stricter may result result
  | refused {key : String} (bad : may key) (result : Except DocumentError α) :
      Stricter may (.error (.invalidProperty key)) result

namespace Stricter

variable {α β : Type} {may more : String → Prop} {safe loose : Except DocumentError α}

theorem mono (stricter : Stricter may safe loose) (weaken : ∀ key, may key → more key) :
    Stricter more safe loose := by
  cases stricter with
  | same => exact .same _
  | refused bad => exact .refused (weaken _ bad) _

theorem bind (stricter : Stricter may safe loose) {next next' : α → Except DocumentError β}
    (after : ∀ a, loose = .ok a → Stricter may (next a) (next' a)) :
    Stricter may (safe >>= next) (loose >>= next') := by
  cases stricter with
  | same =>
      cases safe with
      | error e => exact .same _
      | ok a => exact after a rfl
  | refused bad => exact .refused bad _

end Stricter

section Runs

variable (loader : Loader)

def EachStricter (v : Json) : Prop :=
  ∀ ctx d, Stricter (Unmapped loader false ctx v) (value ⟨loader, true⟩ ctx d v)
    (value ⟨loader, false⟩ ctx d v)

variable {loader}

theorem member_stricter {inner typed : Context} {key iri : String} {v : Json}
    (each : EachStricter loader v) (expanded : propertyIri? typed key = some iri) :
    Stricter (fun bad => ∃ child, Enters loader inner typed key child ∧
        Unmapped loader false child v bad)
      (member ⟨loader, true⟩ inner typed key iri v)
      (member ⟨loader, false⟩ inner typed key iri v) := by
  unfold member
  cases treated : treatment iri with
  | id | types | keep => exact .same _
  | nested =>
      refine (each inner none).mono fun bad unmapped => ⟨inner, ?_, unmapped⟩
      exact .nested expanded (mem_nesting_of_treatment treated)
  | property =>
      refine (Stricter.same _).bind fun child under => ?_
      refine (each child _).mono fun bad unmapped => ⟨child, ?_, unmapped⟩
      exact .property expanded (startsWithAt_of_treatment treated) under

/-- The properties of a node that stand for no identifier, and those below it. -/
def UnmappedIn (loader : Loader) (inner typed : Context) (list : List (String × Json))
    (bad : String) : Prop :=
  bad ∈ NameMap.keys list ∧ startsWithAt bad = false ∧ propertyIri? typed bad = none ∨
    ∃ p ∈ list, p.1 ≠ "@context" ∧ ∃ child, Enters loader inner typed p.1 child ∧
      Unmapped loader false child p.2 bad

theorem UnmappedIn.cons {inner typed : Context} {list : List (String × Json)} {bad : String}
    (p : String × Json) (unmapped : UnmappedIn loader inner typed list bad) :
    UnmappedIn loader inner typed (p :: list) bad := by
  rcases unmapped with ⟨member, absent⟩ | ⟨q, member, below⟩
  · exact Or.inl ⟨List.mem_cons_of_mem _ member, absent⟩
  · exact Or.inr ⟨q, List.mem_cons_of_mem _ member, below⟩

theorem members_stricter {inner typed : Context} {list : List (String × Json)}
    (each : ∀ p ∈ list, EachStricter loader p.2) (out : Json.Members) :
    Stricter (UnmappedIn loader inner typed list) (members ⟨loader, true⟩ inner typed out list)
      (members ⟨loader, false⟩ inner typed out list) := by
  induction list generalizing out with
  | nil => exact .same _
  | cons head rest ih =>
      obtain ⟨key, v⟩ := head
      obtain ⟨first, others⟩ := List.forall_mem_cons.mp each
      have further := fun out => (ih others out).mono fun bad => UnmappedIn.cons (key, v)
      by_cases isContext : key = "@context"
      · rw [members, members, if_pos isContext, if_pos isContext]
        exact further out
      · cases expanded : propertyIri? typed key with
        | none =>
            rw [members_of_absent isContext expanded, members_of_absent isContext expanded]
            by_cases property : startsWithAt key = false
            · rw [if_pos ⟨property, rfl⟩]
              exact .refused (Or.inl ⟨List.mem_cons_self, property, expanded⟩) _
            · rw [if_neg (property ∘ And.left), if_neg (property ∘ And.left)]
              exact further out
        | some iri =>
            rw [members_of_iri isContext expanded, members_of_iri isContext expanded]
            refine .bind ((member_stricter first expanded).mono fun bad below => ?_)
              fun compacted _ => further _
            exact Or.inr ⟨(key, v), List.mem_cons_self, isContext, below⟩

theorem items_stricter {ctx : Context} {d : Option TermDefinition} {list : List Json}
    (each : ∀ item ∈ list, EachStricter loader item) :
    Stricter (fun bad => ∃ item ∈ list, Unmapped loader false ctx item bad)
      (items ⟨loader, true⟩ ctx d list) (items ⟨loader, false⟩ ctx d list) := by
  induction list with
  | nil => exact .same _
  | cons item rest ih =>
      obtain ⟨first, others⟩ := List.forall_mem_cons.mp each
      rw [items, items]
      refine .bind ((first ctx d).mono fun bad unmapped => ⟨item, List.mem_cons_self, unmapped⟩)
        fun view _ => .bind ((ih others).mono ?_) fun views _ => .same _
      rintro bad ⟨later, member, unmapped⟩
      exact ⟨later, List.mem_cons_of_mem _ member, unmapped⟩

theorem nodeView_stricter {whole : Bool} {ctx : Context} {m : Json.Members}
    (each : ∀ p ∈ m, EachStricter loader p.2) (is : isNode whole m = true) :
    Stricter (Unmapped loader whole ctx (.object m)) (nodeView ⟨loader, true⟩ ctx m)
      (nodeView ⟨loader, false⟩ ctx m) := by
  refine (Stricter.same _).bind fun inner embedded => ?_
  refine (Stricter.same _).bind fun typed scopes => ?_
  have opens : Opens loader ctx m inner typed := ⟨embedded, scopes⟩
  refine .bind ((members_stricter each []).mono ?_) fun made _ => .same _
  rintro bad (⟨member, absent⟩ | ⟨p, member, notContext, child, enters, below⟩)
  · exact ⟨typed, m, .self is opens, member, absent⟩
  · obtain ⟨other, node, found, unmapped⟩ := below
    exact ⟨other, node, .member is opens member notContext enters found, unmapped⟩

def ItemsStricter (loader : Loader) (v : Json) : Prop :=
  ∀ list, v = .array list → ∀ item ∈ list, EachStricter loader item

theorem listItems_stricter {ctx : Context} {list : List (String × Json)}
    (each : ∀ p ∈ list, EachStricter loader p.2 ∧ ItemsStricter loader p.2) :
    Stricter (fun bad => ∃ v, NameMap.get? list "@list" = some v ∧ Unmapped loader false ctx v bad)
      (listItems ⟨loader, true⟩ ctx list) (listItems ⟨loader, false⟩ ctx list) := by
  induction list with
  | nil => exact .same _
  | cons head rest ih =>
      obtain ⟨key, v⟩ := head
      obtain ⟨first, others⟩ := List.forall_mem_cons.mp each
      rw [NameMap.get?]
      unfold listItems
      split
      · split
        · rename_i list
          refine (items_stricter (first.2 list rfl)).mono ?_
          rintro bad ⟨item, member, other, node, found, unmapped⟩
          exact ⟨_, rfl, other, node, .item member found, unmapped⟩
        · refine .bind ((first.1 ctx none).mono ?_) fun view _ => .same _
          exact fun bad unmapped => ⟨v, rfl, unmapped⟩
      · exact ih others

theorem eachStricter (v : Json) : EachStricter loader v ∧ ItemsStricter loader v := by
  induction v using Json.inductionOn with
  | null =>
      refine ⟨fun ctx d => ?_, fun list absurd => by cases absurd⟩
      rw [value, value]
      exact .same _
  | bool | number | string =>
      refine ⟨fun ctx d => ?_, fun list absurd => by cases absurd⟩
      rw [value_eq_coerce rfl, value_eq_coerce rfl]
      exact .same _
  | array list ih =>
      refine ⟨fun ctx d => ?_, ?_⟩
      · rw [value, value]
        refine .bind ((items_stricter fun item member => (ih item member).1).mono ?_)
          fun views _ => .same _
        rintro bad ⟨item, member, typed, node, found, unmapped⟩
        exact ⟨typed, node, .item member found, unmapped⟩
      · rintro _ ⟨⟩ item member
        exact (ih item member).1
  | object m ih =>
      refine ⟨fun ctx d => ?_, fun list absurd => by cases absurd⟩
      by_cases isValue : NameMap.contains m "@value" = true
      · rw [value_of_value isValue, value_of_value isValue]
        exact .same _
      · have noValue := (Bool.not_eq_true _).mp isValue
        by_cases listed : NameMap.contains m "@list" = true
        · rw [value_of_list noValue listed, value_of_list noValue listed]
          refine .bind ((listItems_stricter ih).mono ?_) fun out _ => .same _
          rintro bad ⟨v, list, typed, node, found, unmapped⟩
          exact ⟨typed, node, .listed noValue list found, unmapped⟩
        · have is : isNode false m = true := by
            simp [isNode, noValue, (Bool.not_eq_true _).mp listed]
          rw [value_of_node is, value_of_node is]
          exact nodeView_stricter (fun p member => (ih p member).1) is

theorem compactDocument_stricter (document : Json) :
    Stricter (Unmapped loader true .empty document) (compactDocument loader true document)
      (compactDocument loader false document) := by
  cases document with
  | object m =>
      rw [compactDocument_object, compactDocument_object]
      exact nodeView_stricter (fun p _ => (eachStricter p.2).1) rfl
  | array list =>
      refine .bind ((items_stricter fun item _ => (eachStricter item).1).mono ?_)
        fun views _ => .same _
      rintro bad ⟨item, member, typed, node, found, unmapped⟩
      exact ⟨typed, node, .item member found, unmapped⟩
  | null | bool | number | string => exact .same _

end Runs

/-! ## Documents with a view -/

section Mapped

variable {loader : Loader} {whole : Bool} {ctx inner typed child : Context}
  {m node : Json.Members} {json view : Json}

def Mapped (typed : Context) (node : Json.Members) : Prop :=
  ∀ key ∈ NameMap.keys node, startsWithAt key = false → propertyIri? typed key ≠ none

theorem exists_of_nodeView (done : nodeView ⟨loader, true⟩ ctx m = .ok view)
    (opens : Opens loader ctx m inner typed) :
    ∃ made, members ⟨loader, true⟩ inner typed [] m = .ok made := by
  obtain ⟨inner', embedded, done⟩ := Except.bind_eq_ok_iff.mp done
  cases opens.embedded.symm.trans embedded
  obtain ⟨typed', scopes, done⟩ := Except.bind_eq_ok_iff.mp done
  cases opens.scopes.symm.trans scopes
  obtain ⟨made, done, -⟩ := Except.bind_eq_ok_iff.mp done
  exact ⟨made, done⟩

theorem mapped_of_nodeView (done : nodeView ⟨loader, true⟩ ctx m = .ok view)
    (opens : Opens loader ctx m inner typed) : Mapped typed m := by
  obtain ⟨made, done⟩ := exists_of_nodeView done opens
  intro key member property absent
  obtain ⟨p, inside, rfl⟩ := List.mem_map.mp member
  have notContext : p.1 ≠ "@context" := by
    intro isContext
    rw [isContext] at property
    exact absurd property (by decide)
  rcases each_of_members done inside notContext with ⟨-, starts⟩ | ⟨iri, -, expanded, -⟩
  · rw [starts rfl] at property
    cases property
  · rw [expanded] at absent
    cases absent

theorem exists_view_of_enters (done : nodeView ⟨loader, true⟩ ctx m = .ok view)
    (opens : Opens loader ctx m inner typed) {key : String} {v : Json} (inside : (key, v) ∈ m)
    (notContext : key ≠ "@context") (enters : Enters loader inner typed key child) :
    ∃ d below, value ⟨loader, true⟩ child d v = .ok below := by
  obtain ⟨made, done⟩ := exists_of_nodeView done opens
  obtain ⟨iri, d, expanded, same⟩ := member_of_enters ⟨loader, true⟩ v enters
  rcases each_of_members done inside notContext with ⟨absent, -⟩ | ⟨iri', below, expanded', one⟩
  · rw [expanded] at absent
    cases absent
  · cases expanded.symm.trans expanded'
    exact ⟨d, below, same ▸ one⟩

theorem exists_view_of_item {d : Option TermDefinition} {list views : List Json}
    (done : items ⟨loader, true⟩ ctx d list = .ok views) {item : Json} (inside : item ∈ list) :
    ∃ below, value ⟨loader, true⟩ ctx d item = .ok below := by
  rw [items_eq_mapM, Except.mapM_eq_ok_iff] at done
  obtain ⟨below, -, one⟩ := done.exists_of_mem_left inside
  exact ⟨below, one⟩

theorem exists_view_of_listItems {views : List Json}
    (done : listItems ⟨loader, true⟩ ctx m = .ok views) {v : Json}
    (list : NameMap.get? m "@list" = some v) :
    ∃ below, value ⟨loader, true⟩ ctx none v = .ok below := by
  induction m with
  | nil => cases list
  | cons head rest ih =>
      obtain ⟨name, first⟩ := head
      rw [NameMap.get?] at list
      unfold listItems at done
      split at list
      · rename_i same
        cases list
        rw [if_pos same] at done
        split at done
        · rw [value, done]
          exact ⟨_, rfl⟩
        · obtain ⟨below, one, -⟩ := Except.bind_eq_ok_iff.mp done
          exact ⟨below, one⟩
      · rename_i differ
        rw [if_neg differ] at done
        exact ih done list

theorem mapped_of_value (found : NodeIn loader typed node whole ctx json) (inside : whole = false)
    {d : Option TermDefinition} (done : value ⟨loader, true⟩ ctx d json = .ok view) :
    Mapped typed node := by
  induction found generalizing d view with
  | self is opens =>
      subst inside
      rw [value_of_node is] at done
      exact mapped_of_nodeView done opens
  | member is opens member notContext enters found ih =>
      subst inside
      rw [value_of_node is] at done
      obtain ⟨d, below, done⟩ := exists_view_of_enters done opens member notContext enters
      exact ih rfl done
  | listed noValue list found ih =>
      rw [value_of_list noValue (Option.isSome_of_eq_some list)] at done
      obtain ⟨views, done, -⟩ := Except.bind_eq_ok_iff.mp done
      obtain ⟨below, done⟩ := exists_view_of_listItems done list
      exact ih rfl done
  | item member found ih =>
      rw [value] at done
      obtain ⟨views, done, -⟩ := Except.bind_eq_ok_iff.mp done
      obtain ⟨below, done⟩ := exists_view_of_item done member
      exact ih rfl done

theorem mapped_of_compactDocument {document : Json}
    (found : NodeIn loader typed node true .empty document)
    (done : compactDocument loader true document = .ok view) : Mapped typed node := by
  cases found with
  | self is opens => exact mapped_of_nodeView done opens
  | member is opens member notContext enters found =>
      obtain ⟨d, below, done⟩ := exists_view_of_enters done opens member notContext enters
      exact mapped_of_value found rfl done
  | item member found =>
      obtain ⟨views, done, -⟩ := Except.bind_eq_ok_iff.mp done
      obtain ⟨below, done⟩ := exists_view_of_item done member
      exact mapped_of_value found rfl done

end Mapped

end Compact

/-- Safe mode changes no result but to refuse a property: a view in safe mode is the view without
it, what fails without it fails in it, and what fails in it alone does so for a property of a node
that stands for no identifier. -/
theorem compactDocument_safe_or_refused (loader : Loader) (document : Json) :
    compactDocument loader true document = compactDocument loader false document ∨
      ∃ typed node key, Compact.NodeIn loader typed node true .empty document ∧
        key ∈ NameMap.keys node ∧ startsWithAt key = false ∧
        Compact.propertyIri? typed key = none ∧
        compactDocument loader true document = .error (.invalidProperty key) := by
  have stricter : Compact.Stricter (Compact.Unmapped loader true .empty document) _ _ :=
    Compact.compactDocument_stricter document
  generalize compactDocument loader true document = safe at stricter ⊢
  cases stricter with
  | same => exact Or.inl rfl
  | @refused key bad =>
      obtain ⟨typed, node, found, member, property, absent⟩ := bad
      exact Or.inr ⟨typed, node, key, found, member, property, absent, rfl⟩

/-- A document has a view in safe mode if it has that view without it, and every property of the
nodes that the view looks into stands for a keyword or an absolute identifier. -/
theorem compactDocument_safe_iff (loader : Loader) (document view : Json) :
    compactDocument loader true document = .ok view ↔
      compactDocument loader false document = .ok view ∧
        ∀ typed node, Compact.NodeIn loader typed node true .empty document →
          ∀ key ∈ NameMap.keys node, startsWithAt key = false →
            ∃ iri, typed.expand? key true = some iri ∧
              (isKeyword iri = true ∨ ':' ∈ iri.toList) := by
  have stricter : Compact.Stricter (Compact.Unmapped loader true .empty document) _ _ :=
    Compact.compactDocument_stricter document
  constructor
  · intro done
    constructor
    · rw [done] at stricter
      generalize compactDocument loader false document = loose at stricter ⊢
      cases stricter with
      | same => rfl
    · intro typed node found key member property
      have mapped := Compact.mapped_of_compactDocument found done key member property
      exact Compact.propertyIri?_ne_none_iff.mp mapped
  · rintro ⟨done, mapped⟩
    generalize compactDocument loader true document = safe at stricter ⊢
    cases stricter with
    | same => exact done
    | refused bad =>
        obtain ⟨typed, node, found, member, property, absent⟩ := bad
        have stands := mapped typed node found _ member property
        exact absurd absent (Compact.propertyIri?_ne_none_iff.mpr stands)

/-- Whatever stands under `@nest` or `@reverse` is part of the view as it is. -/
theorem compactDocument_of_nested (loader : Loader) (safe : Bool) {keyword : String}
    (either : keyword = "@nest" ∨ keyword = "@reverse") (v : Json) :
    let m : Json.Members := [("@id", .string "urn:doc"), (keyword, v)]
    compactDocument loader safe (.object m) = .ok (.object m) := by
  intro m
  have noContext : NameMap.get? m "@context" = none := by rcases either with rfl | rfl <;> rfl
  have noTypes : Context.empty.nodeTypes m = [] := by
    rcases either with rfl | rfl <;> exact List.mergeSort_nil
  have keywordName : Compact.propertyIri? .empty keyword = some keyword := by
    rcases either with rfl | rfl <;> decide +kernel
  have idKept : Compact.member ⟨loader, safe⟩ .empty .empty "@id" "@id" (.string "urn:doc") =
      .ok (.string "urn:doc") := by
    have expanded : Context.empty.expand? "urn:doc" false = some "urn:doc" := by decide +kernel
    show Except.ok (Json.string ((Context.empty.expand? "urn:doc" false).getD "urn:doc")) = _
    rw [expanded]
    rfl
  have kept : Compact.member ⟨loader, safe⟩ .empty .empty keyword keyword v = .ok v := by
    rcases either with rfl | rfl <;> rfl
  have made : Compact.members ⟨loader, safe⟩ .empty .empty [] m = .ok m := by
    rw [Compact.members_of_iri (by decide) Compact.propertyIri?_id, idKept]
    show Compact.members _ _ _ [("@id", .string "urn:doc")] [(keyword, v)] = _
    rw [Compact.members_of_iri (by rcases either with rfl | rfl <;> decide) keywordName, kept]
    rcases either with rfl | rfl <;> rfl
  rw [Compact.compactDocument_of_bare loader safe noContext noTypes, made]
  rfl

/-- What stands under `@nest` or `@reverse` is not looked into: a property without an identifier
passes there. -/
theorem compactDocument_of_nested_property :
    let doc (keyword : String) : Json :=
      .object [("@id", .string "urn:doc"), (keyword, .object [("unknown", .string "x")])]
    compactDocument .none true (doc "@nest") = .ok (doc "@nest") ∧
      compactDocument .none true (doc "@reverse") = .ok (doc "@reverse") ∧
      Context.empty.expand? "unknown" true = none :=
  ⟨compactDocument_of_nested .none true (Or.inl rfl) _,
    compactDocument_of_nested .none true (Or.inr rfl) _, rfl⟩

end LinkedCommit
