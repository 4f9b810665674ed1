import LinkedCommit.Proofs.Context.References
/-!
# Documents made self-contained

A document made self-contained refers to nothing, except where a context has an import and what it
imports has one too: this stays.  `inlineContexts_again_iff` says that exactly these are in the way
of a second run without a loader, which else changes nothing.
-/

set_option autoImplicit false

namespace LinkedCommit

namespace Inline

variable {loader : Loader} {nested nested' : Nested}

/-- Inside a context there is one that imports a context with an import of its own. -/
def Chained (loader : Loader) (json : Json) : Prop :=
  ∃ members imported, Relation.ReflTransGen (Refers loader) json (.object members) ∧
    Imports loader members imported ∧ NameMap.get? imported "@import" ≠ none

theorem Chained.of_refers {outer inner : Json} (refers : Refers loader outer inner)
    (chained : Chained loader inner) : Chained loader outer := by
  obtain ⟨members, imported, way, imports, again⟩ := chained
  exact ⟨members, imported, .head refers way, imports, again⟩

/-! ## Lists -/

theorem itemsWith_append {first second out out' : List Json}
    (done : itemsWith loader nested first = .ok out)
    (done' : itemsWith loader nested second = .ok out') :
    itemsWith loader nested (first ++ second) = .ok (out ++ out') := by
  induction first generalizing out with
  | nil =>
      cases done
      exact done'
  | cons item rest ih =>
      obtain ⟨made, others, one, more, rfl⟩ := itemsWith_cons_eq_ok_iff.mp done
      rw [List.cons_append, itemsWith_cons_eq_ok_iff]
      refine ⟨made, others ++ out', one, ih more, ?_⟩
      cases made <;> simp [splice]

theorem exists_of_itemsWith_append {first second out : List Json}
    (done : itemsWith loader nested (first ++ second) = .ok out) :
    ∃ before after, itemsWith loader nested first = .ok before ∧
      itemsWith loader nested second = .ok after := by
  induction first generalizing out with
  | nil => exact ⟨[], out, rfl, done⟩
  | cons item rest ih =>
      rw [List.cons_append] at done
      obtain ⟨made, others, one, more, rfl⟩ := itemsWith_cons_eq_ok_iff.mp done
      obtain ⟨before, after, first, second⟩ := ih more
      exact ⟨_, after, itemsWith_cons_eq_ok_iff.mpr ⟨made, before, one, first, rfl⟩, second⟩

theorem exists_of_itemsWith_splice {made : Json} {others again : List Json}
    (done : itemsWith loader nested (splice made others) = .ok again) :
    ∃ remade again', contextWith loader nested made = .ok remade ∧
      itemsWith loader nested others = .ok again' := by
  have apart : ∀ one, splice one others = one :: others →
      itemsWith loader nested (splice one others) = .ok again →
      ∃ remade again', contextWith loader nested one = .ok remade ∧
        itemsWith loader nested others = .ok again' := by
    intro one whole done
    rw [whole] at done
    obtain ⟨remade, again', inside, outside, -⟩ := itemsWith_cons_eq_ok_iff.mp done
    exact ⟨remade, again', inside, outside⟩
  cases made with
  | array inner =>
      obtain ⟨before, after, inside, outside⟩ := exists_of_itemsWith_append done
      exact ⟨_, after, contextWith_array_eq_ok_iff.mpr ⟨before, inside, rfl⟩, outside⟩
  | null | bool | number | string | object => exact apart _ rfl done

theorem exists_of_mem_itemsWith {items out again : List Json} {item : Json}
    (done : itemsWith loader nested items = .ok out)
    (done' : itemsWith .none nested' out = .ok again) (member : item ∈ items) :
    ∃ made remade, contextWith loader nested item = .ok made ∧
      contextWith .none nested' made = .ok remade := by
  induction items generalizing out again with
  | nil => cases member
  | cons head rest ih =>
      obtain ⟨made, others, one, more, rfl⟩ := itemsWith_cons_eq_ok_iff.mp done
      obtain ⟨remade, again', inside, outside⟩ := exists_of_itemsWith_splice done'
      rcases List.mem_cons.mp member with rfl | later
      · exact ⟨made, remade, one, inside⟩
      · exact ih more outside later

/-! ## Definitions -/

theorem definition_again
    (again : ∀ inner out, nested inner = .ok out → ¬ Chained loader inner → nested' out = .ok out)
    {value made : Json} (done : definition nested value = .ok made)
    (unchained : ∀ d inner, value = .object d → NameMap.get? d "@context" = some inner →
      ¬ Chained loader inner) : definition nested' made = .ok made := by
  rcases definition_eq_ok done with ⟨d, inner, out, same, found, inlined, rfl⟩ | ⟨rfl, absent⟩
  · rw [definition, NameMap.get?_insert_self]
    dsimp only
    rw [again inner out inlined (unchained d inner same found)]
    show Except.ok (Json.object _) = _
    rw [NameMap.insert_insert_self]
  · unfold definition
    split
    · rename_i d
      rw [absent d rfl]
    · rfl

theorem definitions_again {members made : Json.Members}
    (done : definitions nested members = .ok made)
    (each : ∀ p ∈ members, ∀ out, definition nested p.2 = .ok out →
      definition nested' out = .ok out) : definitions nested' made = .ok made := by
  rw [definitions_eq_ok_iff, NameMap.Related] at done ⊢
  induction done with
  | nil => exact .nil
  | @cons p q _ _ head _ ih =>
      refine .cons ⟨rfl, each p List.mem_cons_self _ head.2⟩ (ih ?_)
      exact fun p member => each p (List.mem_cons_of_mem _ member)

/-! ## A second run -/

/-- The object that is left of one that imports nothing chained imports nothing. -/
theorem get?_import_of_made {members merged made : Json.Members}
    (found : withImport loader members = .ok merged) (done : definitions nested merged = .ok made)
    (unchained : ¬ Chained loader (.object members)) : NameMap.get? made "@import" = none := by
  rw [(definitions_eq_ok_iff.mp done).get?_eq_none_iff]
  rcases withImport_eq_ok found with ⟨-, rfl⟩ | ⟨imported, imports, rfl⟩
  · simp [NameMap.get?]
  · rw [get?_combine_import]
    by_contra chained
    exact unchained ⟨members, imported, .refl, imports, chained⟩

/-- Whatever the nested contexts become stays as it is. -/
def Settles (loader : Loader) (nested nested' : Nested) : Prop :=
  ∀ inner out, nested inner = .ok out → ¬ Chained loader inner →
    nested' out = .ok out ∧ contextWith .none nested' out = .ok out

theorem object_again (ordered : loader.Ordered) (again : Settles loader nested nested')
    {members : Json.Members} {out : Json}
    (done : contextWith loader nested (.object members) = .ok out)
    (unchained : ¬ Chained loader (.object members)) :
    contextWith .none nested' out = .ok out := by
  obtain ⟨merged, made, found, defined, rfl⟩ := contextWith_object_eq_ok_iff.mp done
  have sorted := sorted_of_definitions (withImport_sorted ordered found) defined
  have remade : definitions nested' made = .ok made := by
    refine definitions_again defined fun p member out done => ?_
    refine definition_again (fun inner out done unchained => (again inner out done unchained).1)
      done fun d inner same context chained => ?_
    have member : (p.1, Json.object d) ∈ merged := same ▸ member
    exact unchained (chained.of_refers (.definition found member context))
  exact contextWith_object_eq_ok_iff.mpr ⟨made, made,
    withImport_of_sorted _ sorted (get?_import_of_made found defined unchained), remade, rfl⟩

theorem itemsWith_again {items out : List Json} (done : itemsWith loader nested items = .ok out)
    (each : ∀ item ∈ items, ∀ out, contextWith loader nested item = .ok out →
      contextWith .none nested' out = .ok out) : itemsWith .none nested' out = .ok out := by
  induction items generalizing out with
  | nil =>
      cases done
      rfl
  | cons item rest ih =>
      obtain ⟨made, others, one, more, rfl⟩ := itemsWith_cons_eq_ok_iff.mp done
      have one := each item List.mem_cons_self made one
      have more := ih more fun item member => each item (List.mem_cons_of_mem _ member)
      cases made with
      | array inner =>
          obtain ⟨inner', inside, same⟩ := contextWith_array_eq_ok_iff.mp one
          cases same
          exact itemsWith_append inside more
      | null | bool | number | string | object =>
          exact itemsWith_cons_eq_ok_iff.mpr ⟨_, others, one, more, rfl⟩

theorem contextWith_again (ordered : loader.Ordered) (again : Settles loader nested nested')
    {json out : Json} (done : contextWith loader nested json = .ok out)
    (unchained : ¬ Chained loader json) : contextWith .none nested' out = .ok out := by
  induction json using Json.inductionOn generalizing out with
  | string url =>
      obtain ⟨inner, loaded, done⟩ := contextWith_string_eq_ok_iff.mp done
      exact (again inner out done fun chained =>
        unchained (chained.of_refers (.context (.loaded loaded)))).2
  | array items ih =>
      obtain ⟨made, each, rfl⟩ := contextWith_array_eq_ok_iff.mp done
      refine contextWith_array_eq_ok_iff.mpr ⟨made, ?_, rfl⟩
      exact itemsWith_again each fun item member out done => ih item member done fun chained =>
        unchained (chained.of_refers (.context (.item member)))
  | object members _ => exact object_again ordered again done unchained
  | null | bool | number =>
      cases done
      rfl

/-- A context made self-contained stays as it is, however much deeper a second run may go. -/
theorem context_again (ordered : loader.Ordered) {depth : Nat} {json out : Json}
    (done : context loader depth json = .ok out) (unchained : ¬ Chained loader json) :
    ∀ depth', depth ≤ depth' → context .none depth' out = .ok out := by
  induction depth generalizing json out with
  | zero => cases done
  | succ depth ih =>
      intro depth' deeper
      obtain ⟨depth', rfl⟩ := Nat.exists_eq_add_of_le' (Nat.one_le_of_lt deeper)
      refine contextWith_again ordered (fun inner out done unchained => ?_) done unchained
      exact ⟨ih done unchained depth' (by omega), ih done unchained (depth' + 1) (by omega)⟩

/-! ## What is left of a chained import -/

theorem get?_import_of_imports {members merged made imported : Json.Members}
    (found : withImport loader members = .ok merged) (done : definitions nested merged = .ok made)
    (imports : Imports loader members imported) :
    NameMap.get? made "@import" = none ↔ NameMap.get? imported "@import" = none := by
  rw [(definitions_eq_ok_iff.mp done).get?_eq_none_iff]
  rcases withImport_eq_ok found with ⟨noImport, -⟩ | ⟨imported', imports', rfl⟩
  · obtain ⟨url, document, named, -, -⟩ := imports
    rw [named] at noImport
    cases noImport
  · rw [get?_combine_import, imports.unique imports']

/-- Without a loader, an object that is made self-contained has no import, and if its members are in
order, then their definitions are what is made self-contained. -/
theorem contextWith_none_object {members : Json.Members} {out : Json}
    (done : contextWith .none nested (.object members) = .ok out) :
    NameMap.get? members "@import" = none ∧
      (members.Sorted → ∃ made, definitions nested members = .ok made) := by
  obtain ⟨merged, made, found, defined, rfl⟩ := contextWith_object_eq_ok_iff.mp done
  rcases withImport_eq_ok found with ⟨noImport, rfl⟩ | ⟨_, imports, -⟩
  · exact ⟨noImport, fun sorted => ⟨made, combine_nil sorted noImport ▸ defined⟩⟩
  · exact absurd imports not_imports_none

theorem exists_of_definition {d : Json.Members} {inner made again : Json}
    (done : definition nested (.object d) = .ok made) (done' : definition nested' made = .ok again)
    (context : NameMap.get? d "@context" = some inner) :
    ∃ out remade, nested inner = .ok out ∧ nested' out = .ok remade := by
  rcases definition_eq_ok done with ⟨_, inner', out, same, context', inlined, rfl⟩ | ⟨-, absent⟩
  · cases same
    cases context.symm.trans context'
    rcases definition_eq_ok done' with ⟨e, inner', remade, same, context', inlined', -⟩ |
      ⟨-, absent⟩
    · cases same
      rw [NameMap.get?_insert_self] at context'
      cases context'
      exact ⟨out, remade, inlined, inlined'⟩
    · have absent := absent _ rfl
      rw [NameMap.get?_insert_self] at absent
      cases absent
  · rw [absent d rfl] at context
    cases context

theorem exists_of_refers (ordered : loader.Ordered) {outer inner out again : Json}
    (refers : Refers loader outer inner) {depth depth' : Nat}
    (done : context loader depth outer = .ok out)
    (done' : context .none depth' out = .ok again) :
    ∃ depth depth' made remade, context loader depth inner = .ok made ∧
      context .none depth' made = .ok remade := by
  obtain _ | depth := depth
  · cases done
  obtain _ | depth' := depth'
  · cases done'
  cases refers with
  | context refers =>
      cases refers with
      | loaded found =>
          obtain ⟨inner', found', done⟩ := contextWith_string_eq_ok_iff.mp done
          cases found.symm.trans found'
          exact ⟨depth, depth' + 1, out, again, done, done'⟩
      | item member =>
          obtain ⟨made, each, rfl⟩ := contextWith_array_eq_ok_iff.mp done
          obtain ⟨remade, each', -⟩ := contextWith_array_eq_ok_iff.mp done'
          obtain ⟨made', remade', one, one'⟩ := exists_of_mem_itemsWith each each' member
          exact ⟨depth + 1, depth' + 1, made', remade', one, one'⟩
  | @definition members merged d term inner found member context =>
      obtain ⟨merged', made, found', defined, rfl⟩ := contextWith_object_eq_ok_iff.mp done
      cases found.symm.trans found'
      have sorted := sorted_of_definitions (withImport_sorted ordered found) defined
      obtain ⟨remade, defined'⟩ := (contextWith_none_object done').2 sorted
      obtain ⟨q, inMade, -, one⟩ := (definitions_eq_ok_iff.mp defined).exists_of_mem_left member
      obtain ⟨q', -, -, one'⟩ := (definitions_eq_ok_iff.mp defined').exists_of_mem_left inMade
      obtain ⟨made', remade', inlined, inlined'⟩ := exists_of_definition one one' context
      exact ⟨depth, depth', made', remade', inlined, inlined'⟩

/-- With a chained import inside, a context made self-contained cannot be so made again. -/
theorem context_of_chained (ordered : loader.Ordered) {json : Json} (chained : Chained loader json)
    {depth : Nat} {out : Json} (done : context loader depth json = .ok out) (depth' : Nat)
    (again : Json) : context .none depth' out ≠ .ok again := by
  obtain ⟨members, imported, way, imports, chains⟩ := chained
  intro done'
  -- From the start of the way: both runs go on to the next context, each with a depth of its own.
  induction way using Relation.ReflTransGen.head_induction_on
    generalizing depth out depth' again with
  | refl =>
      obtain _ | depth := depth
      · cases done
      obtain _ | depth' := depth'
      · cases done'
      obtain ⟨merged, made, found, defined, rfl⟩ := contextWith_object_eq_ok_iff.mp done
      have noImport := (contextWith_none_object done').1
      exact chains ((get?_import_of_imports found defined imports).mp noImport)
  | head refers _ ih =>
      obtain ⟨depth, depth', made, remade, one, one'⟩ := exists_of_refers ordered refers done done'
      exact ih one depth' remade one'

/-! ## Documents -/

inductive Embedded : Json → Json → Prop
  | context {members : Json.Members} {json : Json} (member : ("@context", json) ∈ members) :
      Embedded (.object members) json
  | member {members : Json.Members} {key : String} {value json : Json}
      (member : (key, value) ∈ members) (differ : key ≠ "@context")
      (embedded : Embedded value json) : Embedded (.object members) json
  | item {items : List Json} {value json : Json} (member : value ∈ items)
      (embedded : Embedded value json) : Embedded (.array items) json

def memberWith (loader : Loader) (key : String) (value : Json) : Except DocumentError Json :=
  if key = "@context" then context loader (maxContextDepth + 1) value else document loader value

theorem members_cons (key : String) (value : Json) (rest : Json.Members) :
    Inline.members loader ((key, value) :: rest) = do
      let value ← memberWith loader key value
      let rest ← Inline.members loader rest
      return (key, value) :: rest := by
  rw [Inline.members, memberWith]
  split <;> rfl

theorem members_eq_ok_iff {members made : Json.Members} :
    Inline.members loader members = .ok made ↔
      List.Forall₂ (fun p q => p.1 = q.1 ∧ memberWith loader p.1 p.2 = .ok q.2) members made := by
  induction members generalizing made with
  | nil =>
      rw [Inline.members, List.forall₂_nil_left_iff]
      exact ⟨fun same => (Except.ok.inj same).symm, fun empty => empty ▸ rfl⟩
  | cons head rest ih =>
      obtain ⟨key, value⟩ := head
      rw [members_cons, List.forall₂_cons_left_iff]
      simp only [Except.bind_eq_ok_iff, ih]
      constructor
      · rintro ⟨value', first, rest', others, same⟩
        exact ⟨(key, value'), rest', ⟨rfl, first⟩, others, (Except.ok.inj same).symm⟩
      · rintro ⟨⟨key', value'⟩, rest', ⟨rfl, first⟩, others, rfl⟩
        exact ⟨value', first, rest', others, rfl⟩

theorem document_object_eq_ok_iff {members : Json.Members} {out : Json} :
    document loader (.object members) = .ok out ↔
      ∃ made : Json.Members,
        List.Forall₂ (fun p q => p.1 = q.1 ∧ memberWith loader p.1 p.2 = .ok q.2) members made ∧
          out = .object made := by
  simp only [document, Except.bind_eq_ok_iff, members_eq_ok_iff]
  constructor
  · rintro ⟨made, each, same⟩
    exact ⟨made, each, (Except.ok.inj same).symm⟩
  · rintro ⟨made, each, rfl⟩
    exact ⟨made, each, rfl⟩

theorem items_eq_mapM (list : List Json) : items loader list = list.mapM (document loader) := by
  induction list with
  | nil => rfl
  | cons item rest ih => rw [items, List.mapM_cons, ih]

theorem document_array_eq_ok_iff {list : List Json} {out : Json} :
    document loader (.array list) = .ok out ↔
      ∃ made, List.Forall₂ (fun value value' => document loader value = .ok value') list made ∧
        out = .array made := by
  simp only [document, Except.bind_eq_ok_iff, items_eq_mapM, Except.mapM_eq_ok_iff]
  constructor
  · rintro ⟨made, each, same⟩
    exact ⟨made, each, (Except.ok.inj same).symm⟩
  · rintro ⟨made, each, rfl⟩
    exact ⟨made, each, rfl⟩

theorem document_again (ordered : loader.Ordered) {doc out : Json}
    (done : document loader doc = .ok out)
    (unchained : ∀ json, Embedded doc json → ¬ Chained loader json) :
    document .none out = .ok out := by
  induction doc using Json.inductionOn generalizing out with
  | object members ih =>
      obtain ⟨made, each, rfl⟩ := document_object_eq_ok_iff.mp done
      refine document_object_eq_ok_iff.mpr ⟨made, List.forall₂_same.mpr fun q inMade => ?_, rfl⟩
      obtain ⟨p, member, same, one⟩ := each.flip.exists_of_mem_left inMade
      refine ⟨rfl, ?_⟩
      rw [← same]
      unfold memberWith at one ⊢
      split at one
      · rename_i isContext
        rw [if_pos isContext]
        exact context_again ordered one (unchained p.2 (.context (isContext ▸ member))) _
          (Nat.le_refl _)
      · rename_i notContext
        rw [if_neg notContext]
        exact ih p member one fun json embedded =>
          unchained json (.member member notContext embedded)
  | array list ih =>
      obtain ⟨made, each, rfl⟩ := document_array_eq_ok_iff.mp done
      refine document_array_eq_ok_iff.mpr ⟨made, List.forall₂_same.mpr fun value inMade => ?_, rfl⟩
      obtain ⟨item, member, one⟩ := each.flip.exists_of_mem_left inMade
      exact ih item member one fun json embedded => unchained json (.item member embedded)
  | null | bool | number | string =>
      cases done
      rfl

theorem exists_of_mem_object {members : Json.Members} {p : String × Json} {out again : Json}
    (done : document loader (.object members) = .ok out)
    (done' : document .none out = .ok again) (member : p ∈ members) :
    ∃ made remade, memberWith loader p.1 p.2 = .ok made ∧
      memberWith .none p.1 made = .ok remade := by
  obtain ⟨made, each, rfl⟩ := document_object_eq_ok_iff.mp done
  obtain ⟨remade, each', -⟩ := document_object_eq_ok_iff.mp done'
  obtain ⟨q, inMade, same, one⟩ := each.exists_of_mem_left member
  obtain ⟨r, -, -, one'⟩ := each'.exists_of_mem_left inMade
  exact ⟨q.2, r.2, one, same ▸ one'⟩

theorem not_chained_of_embedded (ordered : loader.Ordered) {doc out again json : Json}
    (embedded : Embedded doc json) (done : document loader doc = .ok out)
    (done' : document .none out = .ok again) : ¬ Chained loader json := by
  induction embedded generalizing out again with
  | context member =>
      obtain ⟨made, remade, one, one'⟩ := exists_of_mem_object done done' member
      rw [memberWith, if_pos rfl] at one one'
      exact fun chained => context_of_chained ordered chained one _ _ one'
  | member member differ _ ih =>
      obtain ⟨made, remade, one, one'⟩ := exists_of_mem_object done done' member
      rw [memberWith, if_neg differ] at one one'
      exact ih one one'
  | item member _ ih =>
      obtain ⟨made, each, rfl⟩ := document_array_eq_ok_iff.mp done
      obtain ⟨remade, each', -⟩ := document_array_eq_ok_iff.mp done'
      obtain ⟨value, inMade, one⟩ := each.exists_of_mem_left member
      obtain ⟨value', -, one'⟩ := each'.exists_of_mem_left inMade
      exact ih one one'

end Inline

/-- A second run without a loader changes nothing exactly if no context that was met in the first
run, wherever it stood, imports a context with an import of its own. -/
theorem inlineContexts_again_iff {loader : Loader} (ordered : loader.Ordered) {doc inlined : Json}
    (done : inlineContexts loader doc = .ok inlined) :
    inlineContexts .none inlined = .ok inlined ↔
      ∀ json members imported, Inline.Embedded doc json →
        Relation.ReflTransGen (Inline.Refers loader) json (.object members) →
        Imports loader members imported → NameMap.get? imported "@import" = none := by
  constructor
  · intro again json members imported embedded way imports
    by_contra chained
    exact Inline.not_chained_of_embedded ordered embedded done again
      ⟨members, imported, way, imports, chained⟩
  · intro unchained
    refine Inline.document_again ordered done fun json embedded chained => ?_
    obtain ⟨members, imported, way, imports, chained⟩ := chained
    exact chained (unchained json members imported embedded way imports)

/-- References in a list, in an imported context, under a term and in a nested node are all gone. -/
theorem inlineContexts_again_of_nested :
    let base := "https://example.com/base"
    let person := "https://example.com/person"
    let age : String × Json := ("age", .string "urn:age")
    let knows (context : Json) : String × Json :=
      ("knows", .object [("@context", context), ("@id", .string "urn:knows")])
    let loader := Loader.ofDocuments
      [(base, .object [("@context", .object [age])]),
       (person, .object [("@context", .array [.string base, .object [knows (.string base)]])])]
    let doc (contexts child : Json) : Json :=
      .object [("@context", contexts), ("urn:child", .object [("@context", child)])]
    let import' : String × Json := ("@import", .string base)
    let name : String × Json := ("name", .string "urn:name")
    let inlined :=
      doc (.array [.object [age, name], .object [age], .object [knows (.object [age])]])
        (.object [age])
    loader.Ordered ∧
      inlineContexts loader (doc (.array [.object [import', name], .string person])
        (.object [import'])) = .ok inlined ∧
      inlineContexts .none inlined = .ok inlined := by
  intro base person age knows loader doc import' name inlined
  have ordered : loader.Ordered := by
    refine Loader.ordered_ofDocuments ?_
    simp +decide [base, person, age, knows]
  have done : inlineContexts loader (doc (.array [.object [import', name], .string person])
      (.object [import'])) = .ok inlined := rfl
  refine ⟨ordered, done, (inlineContexts_again_iff ordered done).mpr ?_⟩
  rintro json members imported - - ⟨url, ⟨_, document⟩, -, loaded, found⟩
  rcases List.mem_cons.mp (Loader.mem_of_ofDocuments loaded) with same | later
  · cases same
    cases found
    rfl
  · cases List.mem_singleton.mp later
    cases found

/-- An import in an imported context stays, and a second run asks for the document. -/
theorem inlineContexts_of_chained_import :
    let a := "https://example.com/a"
    let b := "https://example.com/b"
    let imports (url : String) : String × Json := ("@import", .string url)
    let doc (members : Json.Members) : Json := .object [("@context", .object members)]
    let chained : Json.Members := [imports b, ("name", .string "urn:name")]
    let loader := Loader.ofDocuments [(a, doc chained), (b, doc [("age", .string "urn:age")])]
    inlineContexts loader (doc [imports a]) = .ok (doc chained) ∧
      inlineContexts .none (doc chained) = .error (.loader (.notFound b)) :=
  ⟨rfl, rfl⟩

end LinkedCommit
