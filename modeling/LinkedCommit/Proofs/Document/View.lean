import LinkedCommit.Document.Compact
import LinkedCommit.Proofs.NameMap
import LinkedCommit.Proofs.Result
/-!
# Members and items of the compacted view

What the view of a node has under an identifier: the value of the first key that stands for it, as
the view has such values, and after it what it has for the other keys (`Compact.get?_of_members`).
Items keep their places (`Compact.items_get`), and a scalar stays what it is, or stands under
`@value` (`Compact.value_of_scalar`).
-/

set_option autoImplicit false

namespace LinkedCommit

def Json.isScalar : Json → Bool
  | .string _ | .number _ | .bool _ => true
  | _ => false

namespace Compact

variable {mode : Mode} {ctx typed : Context} {out made : Json.Members} {key iri : String}

/-! ## Identifiers -/

/-- The keywords whose values are nodes. -/
def nesting : List String := ["@graph", "@list", "@set", "@included"]

theorem treatment_of_property (property : startsWithAt iri = false) :
    treatment iri = .property := by
  have differ : ∀ keyword, startsWithAt keyword = true → iri ≠ keyword := by
    rintro keyword starts rfl
    rw [property] at starts
    cases starts
  simp [treatment, differ "@id" rfl, differ "@type" rfl, differ "@graph" rfl, differ "@list" rfl,
    differ "@set" rfl, differ "@included" rfl, property]

theorem treatment_of_nesting (nested : iri ∈ nesting) : treatment iri = .nested := by
  simp only [nesting, List.mem_cons, List.not_mem_nil, or_false] at nested
  rcases nested with rfl | rfl | rfl | rfl <;> rfl

/-! ## Members -/

/-- What the view has for the value under a key. -/
def member (mode : Mode) (ctx typed : Context) (key iri : String) (v : Json) :
    Except DocumentError Json :=
  match treatment iri with
  | .id => .ok (idValue typed v)
  | .types => .ok (types typed v)
  | .nested => value mode ctx none v
  | .keep => .ok v
  | .property => do
    let child ← childContext mode ctx (typed.term? key)
    value mode child (typed.term? key) v

section Cons

variable {v : Json} {rest : List (String × Json)}

theorem members_of_absent (notContext : key ≠ "@context") (absent : propertyIri? typed key = none) :
    members mode ctx typed out ((key, v) :: rest) =
      if startsWithAt key = false ∧ mode.safe = true then .error (.invalidProperty key)
      else members mode ctx typed out rest := by
  rw [members, if_neg notContext, absent]
  by_cases starts : startsWithAt key = true
  · simp [starts]
  · simp [starts]

theorem members_of_iri (notContext : key ≠ "@context")
    (expanded : propertyIri? typed key = some iri) :
    members mode ctx typed out ((key, v) :: rest) =
      member mode ctx typed key iri v >>= fun compacted =>
        members mode ctx typed (merge out iri compacted) rest := by
  rw [members, if_neg notContext, expanded, member]
  dsimp only
  cases treatment iri with
  | property => simp
  | id | types | nested | keep => rfl

theorem exists_of_members_cons (done : members mode ctx typed out ((key, v) :: rest) = .ok made)
    (notContext : key ≠ "@context") (expanded : propertyIri? typed key = some iri) :
    ∃ compacted, member mode ctx typed key iri v = .ok compacted ∧
      members mode ctx typed (merge out iri compacted) rest = .ok made := by
  rw [members_of_iri notContext expanded] at done
  exact Except.bind_eq_ok_iff.mp done

theorem members_cons_eq_ok (done : members mode ctx typed out ((key, v) :: rest) = .ok made) :
    (key = "@context" ∨
        propertyIri? typed key = none ∧ (mode.safe = true → startsWithAt key = true)) ∧
        members mode ctx typed out rest = .ok made ∨
      key ≠ "@context" ∧ ∃ iri compacted, propertyIri? typed key = some iri ∧
        member mode ctx typed key iri v = .ok compacted ∧
        members mode ctx typed (merge out iri compacted) rest = .ok made := by
  by_cases isContext : key = "@context"
  · rw [members, if_pos isContext] at done
    exact Or.inl ⟨Or.inl isContext, done⟩
  · cases expanded : propertyIri? typed key with
    | none =>
        rw [members_of_absent isContext expanded] at done
        split at done
        · cases done
        · rename_i passed
          refine Or.inl ⟨Or.inr ⟨rfl, fun safe => ?_⟩, done⟩
          by_contra property
          exact passed ⟨(Bool.not_eq_true _).mp property, safe⟩
    | some iri =>
        rw [members_of_iri isContext expanded] at done
        obtain ⟨compacted, one, done⟩ := Except.bind_eq_ok_iff.mp done
        exact Or.inr ⟨isContext, iri, compacted, rfl, one, done⟩

end Cons

theorem get?_merge_of_ne {other : String} (value : Json) (differ : other ≠ iri) :
    NameMap.get? (merge out iri value) other = NameMap.get? out other :=
  NameMap.get?_update_of_ne out _ differ

theorem get?_of_others {list : List (String × Json)}
    (done : members mode ctx typed out list = .ok made)
    (others : ∀ p ∈ list, propertyIri? typed p.1 ≠ some iri) :
    NameMap.get? made iri = NameMap.get? out iri := by
  induction list generalizing out with
  | nil =>
      cases done
      rfl
  | cons head rest ih =>
      obtain ⟨key, v⟩ := head
      have othersRest := fun p member => others p (List.mem_cons_of_mem (key, v) member)
      rcases members_cons_eq_ok done with ⟨-, done⟩ | ⟨-, iri', compacted, expanded, -, done⟩
      · exact ih done othersRest
      · rw [ih done othersRest]
        refine get?_merge_of_ne compacted ?_
        rintro rfl
        exact others (key, v) List.mem_cons_self expanded

/-- A value and more values after it, in one array. -/
def joined (value : Json) (more : List Json) : Json :=
  match value with
  | .array items => .array (items ++ more)
  | one => .array (one :: more)

theorem joined_joined (value : Json) (more further : List Json) :
    joined (joined value more) further = joined value (more ++ further) := by
  cases value <;> simp [joined]

theorem get?_merge_of_some (sorted : NameMap.Sorted out) {old : Json} (value : Json)
    (there : NameMap.get? out iri = some old) :
    ∃ more, NameMap.get? (merge out iri value) iri = some (joined old more) := by
  unfold merge
  rw [NameMap.get?_update_of_sorted sorted, there]
  cases old <;> exact ⟨_, rfl⟩

/-- What is under an identifier stays first, whatever else comes. -/
theorem get?_of_some {list : List (String × Json)} (sorted : NameMap.Sorted out) {old : Json}
    (done : members mode ctx typed out list = .ok made) (there : NameMap.get? out iri = some old) :
    NameMap.get? made iri = some old ∨ ∃ more, NameMap.get? made iri = some (joined old more) := by
  induction list generalizing out old with
  | nil =>
      cases done
      exact Or.inl there
  | cons head rest ih =>
      rcases members_cons_eq_ok done with ⟨-, done⟩ | ⟨-, iri', compacted, -, -, done⟩
      · exact ih sorted done there
      · have sorted' : NameMap.Sorted (merge out iri' compacted) := sorted.update _ _
        by_cases same : iri = iri'
        · subst same
          obtain ⟨more, merged⟩ := get?_merge_of_some sorted compacted there
          rcases ih sorted' done merged with found | ⟨further, found⟩
          · exact Or.inr ⟨more, found⟩
          · exact Or.inr ⟨more ++ further, by rw [found, joined_joined]⟩
        · exact ih sorted' done ((get?_merge_of_ne compacted same).trans there)

/-- Values of other keys come after what is under their identifier. -/
theorem get?_of_another {list : List (String × Json)} (sorted : NameMap.Sorted out) {old : Json}
    (done : members mode ctx typed out list = .ok made) (there : NameMap.get? out iri = some old)
    {p : String × Json} (inside : p ∈ list) (notContext : p.1 ≠ "@context")
    (expanded : propertyIri? typed p.1 = some iri) :
    ∃ more, NameMap.get? made iri = some (joined old more) := by
  induction list generalizing out old with
  | nil => cases inside
  | cons head rest ih =>
      rcases List.mem_cons.mp inside with rfl | later
      · obtain ⟨compacted, -, done⟩ := exists_of_members_cons done notContext expanded
        obtain ⟨more, merged⟩ := get?_merge_of_some sorted compacted there
        rcases get?_of_some (sorted.update _ _) done merged with found | ⟨further, found⟩
        · exact ⟨more, found⟩
        · exact ⟨more ++ further, by rw [found, joined_joined]⟩
      · rcases members_cons_eq_ok done with ⟨-, done⟩ | ⟨-, iri', compacted, -, -, done⟩
        · exact ih sorted done there later
        · have sorted' : NameMap.Sorted (merge out iri' compacted) := sorted.update _ _
          by_cases same : iri = iri'
          · subst same
            obtain ⟨more, merged⟩ := get?_merge_of_some sorted compacted there
            obtain ⟨further, found⟩ := ih sorted' done merged later
            exact ⟨more ++ further, by rw [found, joined_joined]⟩
          · exact ih sorted' done ((get?_merge_of_ne compacted same).trans there) later

theorem contains_of_contains {list : List (String × Json)}
    (done : members mode ctx typed out list = .ok made) (inside : NameMap.contains out iri = true) :
    NameMap.contains made iri = true := by
  induction list generalizing out with
  | nil =>
      cases done
      exact inside
  | cons head rest ih =>
      rcases members_cons_eq_ok done with ⟨-, done⟩ | ⟨-, iri', compacted, -, -, done⟩
      · exact ih done inside
      · refine ih done ?_
        by_cases same : iri = iri'
        · rw [same]
          exact NameMap.contains_update _ _ _
        · rw [NameMap.contains, get?_merge_of_ne compacted same]
          exact inside

theorem contains_of_mem {list : List (String × Json)}
    (done : members mode ctx typed out list = .ok made) {p : String × Json} (inside : p ∈ list)
    (notContext : p.1 ≠ "@context") (expanded : propertyIri? typed p.1 = some iri) :
    NameMap.contains made iri = true := by
  induction list generalizing out with
  | nil => cases inside
  | cons head rest ih =>
      rcases List.mem_cons.mp inside with rfl | later
      · obtain ⟨compacted, -, done⟩ := exists_of_members_cons done notContext expanded
        exact contains_of_contains done (NameMap.contains_update _ _ _)
      · rcases members_cons_eq_ok done with ⟨-, done⟩ | ⟨-, iri', compacted, -, -, done⟩
        · exact ih done later
        · exact ih done later

/-- Each key is passed over, if it may be, or its value is compacted. -/
theorem each_of_members {list : List (String × Json)}
    (done : members mode ctx typed out list = .ok made) {p : String × Json} (inside : p ∈ list)
    (notContext : p.1 ≠ "@context") :
    propertyIri? typed p.1 = none ∧ (mode.safe = true → startsWithAt p.1 = true) ∨
      ∃ iri compacted, propertyIri? typed p.1 = some iri ∧
        member mode ctx typed p.1 iri p.2 = .ok compacted := by
  induction list generalizing out with
  | nil => cases inside
  | cons head rest ih =>
      rcases members_cons_eq_ok done with ⟨skipped, done⟩ | ⟨-, iri, compacted, expanded, one, done⟩
      · rcases List.mem_cons.mp inside with rfl | later
        · exact Or.inl (skipped.resolve_left notContext)
        · exact ih done later
      · rcases List.mem_cons.mp inside with rfl | later
        · exact Or.inr ⟨iri, compacted, expanded, one⟩
        · exact ih done later

/-- A text that stands for an identifier as a property of a safe view. -/
theorem propertyIri?_of_members {list : List (String × Json)} (safe : mode.safe = true)
    (done : members mode ctx typed out list = .ok made) {p : String × Json} (inside : p ∈ list)
    (notContext : p.1 ≠ "@context") (expanded : typed.expand? p.1 true = some iri)
    (usable : startsWithAt p.1 = true → isUsable iri = true) :
    propertyIri? typed p.1 = some iri := by
  rcases each_of_members done inside notContext with ⟨-, starts⟩ | ⟨iri', -, expanded', -⟩
  · rw [propertyIri?, expanded, Option.filter_some, if_pos (usable (starts safe))]
  · have same := Option.filter_eq_some_iff.mp expanded'
    rw [expanded] at same
    rw [expanded', same.1]

theorem expand?_context : typed.expand? "@context" true = some "@context" := by
  rw [Context.expand?, if_pos (by decide)]

theorem propertyIri?_context : propertyIri? typed "@context" = some "@context" := by
  rw [propertyIri?, expand?_context]
  rfl

/-- Whether a key after this one stands for the identifier too. -/
def shared (typed : Context) (list : Json.Members) (key iri : String) : Bool :=
  list.any fun p => key < p.1 && propertyIri? typed p.1 = some iri

theorem shared_eq_true_iff {list : Json.Members} :
    shared typed list key iri = true ↔ ∃ p ∈ list, key < p.1 ∧ propertyIri? typed p.1 = some iri := by
  simp [shared]

theorem ne_context_of_propertyIri? (expanded : propertyIri? typed key = some iri)
    (named : iri ≠ "@context") : key ≠ "@context" := by
  rintro rfl
  exact named (Option.some.inj (expanded.symm.trans propertyIri?_context))

theorem get?_of_front {v : Json} {rest : Json.Members}
    (sorted : NameMap.Sorted ((key, v) :: rest)) (outSorted : NameMap.Sorted out)
    (done : members mode ctx typed out rest = .ok made) {compacted : Json}
    (there : NameMap.get? out iri = some compacted) (named : iri ≠ "@context") :
    if shared typed ((key, v) :: rest) key iri then
      ∃ more, NameMap.get? made iri = some (joined compacted more)
    else NameMap.get? made iri = some compacted := by
  split
  · rename_i another
    obtain ⟨p, member, after, stands⟩ := shared_eq_true_iff.mp another
    rcases List.mem_cons.mp member with rfl | member
    · exact absurd after (String.lt_irrefl _)
    · exact get?_of_another outSorted done there member
        (ne_context_of_propertyIri? stands named) stands
  · rename_i alone
    rw [get?_of_others done, there]
    intro p member stands
    have after : key < p.1 := (List.pairwise_cons.mp sorted).1 p.1 (List.mem_map_of_mem member)
    exact alone (shared_eq_true_iff.mpr ⟨p, List.mem_cons_of_mem _ member, after, stands⟩)

/-- The view has under an identifier what it makes of the first key for it, and what it makes of the
others after that. -/
theorem get?_of_members {list : Json.Members} (sorted : list.Sorted) (outSorted : NameMap.Sorted out)
    (done : members mode ctx typed out list = .ok made) {v : Json} (inside : (key, v) ∈ list)
    (named : iri ≠ "@context") (expanded : propertyIri? typed key = some iri)
    (first : ∀ p ∈ list, p.1 < key → propertyIri? typed p.1 ≠ some iri)
    (fresh : NameMap.get? out iri = none) :
    ∃ compacted, member mode ctx typed key iri v = .ok compacted ∧
      if shared typed list key iri then
        ∃ more, NameMap.get? made iri = some (joined compacted more)
      else NameMap.get? made iri = some compacted := by
  induction list generalizing out with
  | nil => cases inside
  | cons head rest ih =>
      obtain ⟨name, value⟩ := head
      obtain ⟨least, sortedRest⟩ := List.pairwise_cons.mp sorted
      have firstRest := fun p member => first p (List.mem_cons_of_mem (name, value) member)
      rcases List.mem_cons.mp inside with same | later
      · cases same
        obtain ⟨compacted, one, done⟩ :=
          exists_of_members_cons done (ne_context_of_propertyIri? expanded named) expanded
        have there : NameMap.get? (merge out iri compacted) iri = some compacted :=
          NameMap.get?_update_of_none _ fresh
        exact ⟨compacted, one, get?_of_front sorted (outSorted.update _ _) done there named⟩
      · have before : name < key := least key (List.mem_map_of_mem later)
        have other := first (name, value) List.mem_cons_self before
        have sameShare : shared typed ((name, value) :: rest) key iri =
            shared typed rest key iri := by
          rw [shared, List.any_cons]
          simp [other, shared]
        rw [sameShare]
        rcases members_cons_eq_ok done with ⟨-, done⟩ | ⟨-, iri', compacted, expanded', -, done⟩
        · exact ih sortedRest outSorted done later firstRest fresh
        · refine ih sortedRest (outSorted.update _ _) done later firstRest
            ((get?_merge_of_ne compacted ?_).trans fresh)
          rintro rfl
          exact other expanded'

/-! ## Items -/

theorem value_eq_coerce {d : Option TermDefinition} {scalar : Json}
    (isScalar : scalar.isScalar = true) : value mode ctx d scalar = .ok (coerce ctx scalar d) := by
  cases scalar with
  | string | number | bool =>
      rw [value]
      all_goals nofun
  | null | array | object => cases isScalar

theorem items_eq_mapM (d : Option TermDefinition) (list : List Json) :
    items mode ctx d list = list.mapM (value mode ctx d) := by
  induction list with
  | nil => rfl
  | cons item rest ih => rw [items, List.mapM_cons, ih]

theorem items_get {d : Option TermDefinition} {list views : List Json} {i : Nat} {item : Json}
    (done : items mode ctx d list = .ok views) (found : list[i]? = some item) :
    ∃ view, views[i]? = some view ∧ value mode ctx d item = .ok view := by
  rw [items_eq_mapM, Except.mapM_eq_ok_iff] at done
  obtain ⟨inside, rfl⟩ := List.getElem?_eq_some_iff.mp found
  have inViews : i < views.length := done.length_eq ▸ inside
  exact ⟨views[i], List.getElem?_eq_getElem inViews, done.get inside inViews⟩

/-- What stays one value when the array around it is left out. -/
def staysOne : Json → Bool
  | .array _ => false
  | .object m => !NameMap.contains m "@value"
  | _ => true

theorem joined_of_staysOne {d : Option TermDefinition} {item view : Json} (more : List Json)
    (one : staysOne item = true) (done : value mode ctx d item = .ok view) :
    joined view more = .array (view :: more) := by
  have notArray : ∀ items, view ≠ .array items := by
    rintro items rfl
    cases item with
    | array => cases one
    | null =>
        rw [value] at done
        cases done
    | string | number | bool =>
        rw [value_eq_coerce rfl, coerce] at done
        split at done
        · cases done
        · split at done
          · cases done
          · cases done
          · split at done <;> cases done
    | object m =>
        rw [staysOne, Bool.not_eq_true'] at one
        rw [value, one, if_neg Bool.false_ne_true] at done
        split at done
        · obtain ⟨out, -, same⟩ := Except.bind_eq_ok_iff.mp done
          cases same
        · obtain ⟨around, -, done⟩ := Except.bind_eq_ok_iff.mp done
          obtain ⟨typed, -, done⟩ := Except.bind_eq_ok_iff.mp done
          obtain ⟨out, -, same⟩ := Except.bind_eq_ok_iff.mp done
          cases same
  unfold joined
  split
  · exact absurd rfl (notArray _)
  · rfl

theorem length_of_items {d : Option TermDefinition} {list views : List Json}
    (done : items mode ctx d list = .ok views) : list.length = views.length := by
  rw [items_eq_mapM, Except.mapM_eq_ok_iff] at done
  exact done.length_eq

theorem arrayOf_of_single {d : Option TermDefinition} {view : Json}
    (noList : (d.map (·.hasContainer "@list")).getD false = false) : arrayOf d [view] = view := by
  unfold arrayOf
  rw [noList]
  rfl

theorem arrayOf_of_several {d : Option TermDefinition} {views : List Json}
    (several : views.length ≠ 1) (noList : (d.map (·.hasContainer "@list")).getD false = false) :
    arrayOf d views = .array views := by
  unfold arrayOf
  rw [noList]
  match views, several with
  | [], _ => rfl
  | first :: second :: rest, _ => rfl

theorem listItems_of_get {members : Json.Members} {list : List Json}
    (found : NameMap.get? members "@list" = some (.array list)) :
    listItems mode ctx members = items mode ctx none list := by
  induction members with
  | nil => cases found
  | cons head rest ih =>
      obtain ⟨name, first⟩ := head
      rw [NameMap.get?] at found
      split at found
      · rename_i same
        cases found
        rw [listItems, if_pos same]
      · rename_i differ
        unfold listItems
        rw [if_neg differ]
        exact ih found

/-! ## Scalars -/

/-- A scalar under a term that makes no reference of it stays, or stands under `@value`. -/
theorem value_of_scalar {d : Option TermDefinition} {scalar view : Json}
    (isScalar : scalar.isScalar = true)
    (notId : d.bind TermDefinition.typeMapping ≠ some "@id")
    (notVocab : d.bind TermDefinition.typeMapping ≠ some "@vocab")
    (done : value mode ctx d scalar = .ok view) :
    view = scalar ∨ ∃ mapping, view = .object [("@type", .string mapping), ("@value", scalar)] := by
  rw [value_eq_coerce isScalar] at done
  obtain rfl := Except.ok.inj done
  unfold coerce
  split
  · exact Or.inl rfl
  · rename_i mapping mapped
    split
    · exact absurd mapped notId
    · exact absurd mapped notVocab
    · split
      · exact Or.inl rfl
      · exact Or.inr ⟨_, rfl⟩

/-! ## Documents -/

theorem propertyIri?_id : propertyIri? .empty "@id" = some "@id" := by decide +kernel

/-- A document without a context and types is read in the empty context. -/
theorem compactDocument_of_bare (loader : Loader) (safe : Bool) {m : Json.Members}
    (noContext : NameMap.get? m "@context" = none) (noTypes : Context.empty.nodeTypes m = []) :
    compactDocument loader safe (.object m) =
      (members ⟨loader, safe⟩ .empty .empty [] m).map .object := by
  have embedded : Context.empty.applyEmbedded loader m = .ok .empty := by
    rw [Context.applyEmbedded, noContext]
  have scopes : Context.empty.typeScoped loader m = .ok .empty := by
    rw [Context.typeScoped, noTypes]
    rfl
  show (Context.empty.applyEmbedded loader m >>= _) = _
  rw [embedded]
  show (Context.empty.typeScoped loader m >>= _) = _
  rw [scopes]
  rfl

end Compact

end LinkedCommit
