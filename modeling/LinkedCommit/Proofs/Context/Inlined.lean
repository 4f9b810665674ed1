import LinkedCommit.Proofs.Context.Alike
import LinkedCommit.Proofs.Context.References
/-!
# Contexts made self-contained mean the same

A context is applied with what it refers to loaded on the way, or made self-contained first and
then applied without a loader.  Both give the same active context, but that the contexts of its
terms are self-contained in the second (`Context.parse_inlined`).

This takes absolute references, since a relative one is loaded by its absolute form in the first
case only, and imported contexts without imports, since these are left where they are.
-/

set_option autoImplicit false

namespace LinkedCommit

variable {loader : Loader}

namespace Inline

variable {nested nested' : Nested}

/-! ## Deeper runs -/

theorem definition_mono (deeper : ∀ inner out, nested inner = .ok out → nested' inner = .ok out)
    {value made : Json} (done : definition nested value = .ok made) :
    definition nested' value = .ok made := by
  rcases definition_eq_ok done with ⟨d, inner, out, rfl, found, inlined, rfl⟩ | ⟨rfl, absent⟩
  · rw [definition, found]
    dsimp only
    rw [deeper inner out inlined]
    rfl
  · unfold definition
    split
    · rename_i d
      rw [absent d rfl]
    · rfl

theorem itemsWith_mono {items made : List Json}
    (done : itemsWith loader nested items = .ok made)
    (deeper : ∀ item ∈ items, ∀ out, contextWith loader nested item = .ok out →
      contextWith loader nested' item = .ok out) : itemsWith loader nested' items = .ok made := by
  induction items generalizing made with
  | nil => exact done
  | cons item rest ih =>
      obtain ⟨first, others, one, more, rfl⟩ := itemsWith_cons_eq_ok_iff.mp done
      refine itemsWith_cons_eq_ok_iff.mpr ⟨first, others, ?_, ?_, rfl⟩
      · exact deeper item List.mem_cons_self first one
      · exact ih more fun item member => deeper item (List.mem_cons_of_mem _ member)

theorem contextWith_mono (deeper : ∀ inner out, nested inner = .ok out → nested' inner = .ok out)
    {json out : Json} (done : contextWith loader nested json = .ok out) :
    contextWith loader nested' json = .ok out := by
  induction json using Json.inductionOn generalizing out with
  | string url =>
      obtain ⟨inner, loaded, done⟩ := contextWith_string_eq_ok_iff.mp done
      exact contextWith_string_eq_ok_iff.mpr ⟨inner, loaded, deeper inner out done⟩
  | array items ih =>
      obtain ⟨made, each, rfl⟩ := contextWith_array_eq_ok_iff.mp done
      refine contextWith_array_eq_ok_iff.mpr ⟨made, itemsWith_mono each ?_, rfl⟩
      exact fun item member out done => ih item member done
  | object members _ =>
      obtain ⟨merged, made, found, defined, rfl⟩ := contextWith_object_eq_ok_iff.mp done
      refine contextWith_object_eq_ok_iff.mpr ⟨merged, made, found, ?_, rfl⟩
      rw [definitions_eq_ok_iff] at defined ⊢
      exact defined.imp fun p q head => ⟨head.1, definition_mono deeper head.2⟩
  | null | bool | number => exact done

theorem context_mono {depth depth' : Nat} (deeper : depth ≤ depth') {json out : Json}
    (done : context loader depth json = .ok out) : context loader depth' json = .ok out := by
  induction depth generalizing depth' json out with
  | zero => cases done
  | succ depth ih =>
      obtain ⟨depth', rfl⟩ := Nat.exists_eq_add_of_le' (Nat.one_le_of_lt deeper)
      exact contextWith_mono (fun _ _ => ih (by omega)) done

/-- One context is the other made self-contained. -/
def Inlined (loader : Loader) (json inlined : Json) : Prop :=
  context loader (maxContextDepth + 1) json = .ok inlined

theorem alike_of_definition {S : Json → Json → Prop}
    (inlined : ∀ inner out, nested inner = .ok out → S inner out) {value made : Json}
    (done : definition nested value = .ok made) : Terms.Alike S value made := by
  rcases definition_eq_ok done with ⟨d, inner, out, rfl, found, nested, rfl⟩ | ⟨rfl, absent⟩
  · exact .replaced found (inlined inner out nested)
  · exact .same absent

end Inline

namespace Context

/-! ## What is met on the way -/

/-- A reference or import is absolute, and what is imported imports nothing. -/
def PlainHere (loader : Loader) : Json → Prop
  | .string url => (Url.parse? url).isSome
  | .object members =>
    (∀ url, NameMap.get? members "@import" = some (.string url) → (Url.parse? url).isSome) ∧
      ∀ imported, Imports loader members imported → NameMap.get? imported "@import" = none
  | _ => True

/-- So is everything that a context leads on to. -/
def Plain (loader : Loader) (json : Json) : Prop :=
  ∀ met, Relation.ReflTransGen (Refers loader) json met → PlainHere loader met

theorem plain_iff {json : Json} :
    Plain loader json ↔
      PlainHere loader json ∧ ∀ inner, Refers loader json inner → Plain loader inner := by
  constructor
  · exact fun plain => ⟨plain json .refl, fun inner refers met way => plain met (.head refers way)⟩
  · rintro ⟨here, further⟩ met way
    rcases way.cases_head with rfl | ⟨inner, refers, way⟩
    · exact here
    · exact further inner refers met way

theorem plain_array_iff {items : List Json} :
    Plain loader (.array items) ↔ ∀ item ∈ items, Plain loader item := by
  rw [plain_iff]
  constructor
  · exact fun plain item member => plain.2 item (.item member)
  · refine fun each => ⟨trivial, fun inner refers => ?_⟩
    cases refers with
    | item member => exact each inner member

theorem plain_object_iff {members : Json.Members} :
    Plain loader (.object members) ↔ PlainHere loader (.object members) := by
  rw [plain_iff]
  exact and_iff_left fun inner refers => nomatch refers

theorem plain_string_iff {url : String} {inner : Json}
    (found : loadContext loader url = .ok inner) :
    Plain loader (.string url) ↔ (Url.parse? url).isSome ∧ Plain loader inner := by
  rw [plain_iff]
  refine and_congr Iff.rfl
    ⟨fun further => further inner (.loaded found), fun plain inner' refers => ?_⟩
  cases refers with
  | loaded found' =>
      cases found.symm.trans found'
      exact plain

theorem Refers.ordered (loaded : loader.Ordered) {outer inner : Json}
    (refers : Refers loader outer inner) (ordered : outer.Ordered) : inner.Ordered := by
  cases refers with
  | @loaded url inner found =>
      rw [loadContext] at found
      obtain ⟨document, one, found⟩ := Except.bind_eq_ok_iff.mp found
      rw [Except.mapError_eq_ok_iff] at one
      split at found
      · rename_i inner' under
        cases found
        exact (loaded url document one).member? under
      · cases found
  | item member => exact Json.ordered_array_iff.mp ordered _ member

theorem resolveReference_of_absolute (ctx : Context) {reference : String}
    (absolute : (Url.parse? reference).isSome) : ctx.resolveReference reference = reference :=
  if_pos absolute

/-! ## One step -/

variable {S : Json → Json → Prop} {ctx ctx' : Context} {follow follow' : Follow}

theorem applyItems_append (first second : List Json) :
    applyItems loader follow ctx (first ++ second) =
      applyItems loader follow ctx first >>= fun ctx => applyItems loader follow ctx second := by
  induction first generalizing ctx with
  | nil => rfl
  | cons item rest ih =>
      rw [List.cons_append, applyItems, applyItems]
      cases applyLocal loader follow ctx item with
      | error e => rfl
      | ok ctx => exact ih

theorem applyItems_splice (first : Json) (others : List Json) :
    applyItems loader follow ctx (Inline.splice first others) =
      applyLocal loader follow ctx first >>= fun ctx => applyItems loader follow ctx others := by
  cases first with
  | array inner => rw [Inline.splice, applyItems_append, applyLocal]
  | null | bool | number | string | object => rw [Inline.splice, applyItems]; nofun

theorem withImport_of_inlined (ctx : Context) {members merged : Json.Members}
    (ordered : Json.Ordered (.object members)) (plain : Plain loader (.object members))
    (done : Inline.withImport loader members = .ok merged) :
    withImport loader ctx members = .ok merged ∧
      NameMap.get? merged "@import" = none := by
  have sorted := (Json.ordered_object_iff.mp ordered).1
  rcases Inline.withImport_eq_ok done with ⟨noImport, rfl⟩ | ⟨imported, imports, rfl⟩
  · rw [Inline.combine_nil sorted noImport, withImport, noImport]
    exact ⟨rfl, rfl⟩
  · rw [Inline.get?_combine_import]
    obtain ⟨source, imported'⟩ := plain_object_iff.mp plain
    refine ⟨?_, imported' imported imports⟩
    obtain ⟨url, document, named, answered, found⟩ := imports
    rw [withImport, named]
    dsimp only
    rw [ctx.resolveReference_of_absolute (source url named), answered]
    refine Except.bind_eq_ok_iff.mpr ⟨document, rfl, ?_⟩
    rw [found]
    rfl

theorem applyObject_inlined {nested : Inline.Nested}
    (inlined : ∀ inner out, nested inner = .ok out → S inner out) {members : Json.Members}
    {out : Json} (ordered : Json.Ordered (.object members)) (plain : Plain loader (.object members))
    (done : Inline.contextWith loader nested (.object members) = .ok out)
    (contexts : Alike S ctx ctx') :
    Except.Related (Alike S) (applyLocal loader follow ctx (.object members))
      (applyLocal .none follow' ctx' out) := by
  obtain ⟨merged, made, found, defined, rfl⟩ := Inline.contextWith_object_eq_ok_iff.mp done
  obtain ⟨imported, noImport⟩ := withImport_of_inlined ctx ordered plain found
  rw [Inline.definitions_eq_ok_iff] at defined
  have made' : withImport .none ctx' made = .ok made := by
    rw [withImport, (defined.get?_eq_none_iff "@import").mpr noImport]
  rw [applyLocal, applyLocal, applyObject_of_withImport imported, applyObject_of_withImport made']
  refine (applyMembers_alike contexts ?_).mapError _
  exact defined.imp fun p q head => ⟨head.1, Inline.alike_of_definition inlined head.2⟩

theorem applyItems_inlined {nested : Inline.Nested} {items made : List Json}
    (done : Inline.itemsWith loader nested items = .ok made)
    (each : ∀ item ∈ items, ∀ first ctx ctx', Inline.contextWith loader nested item = .ok first →
      Alike S ctx ctx' → Except.Related (Alike S) (applyLocal loader follow ctx item)
        (applyLocal .none follow' ctx' first))
    (contexts : Alike S ctx ctx') :
    Except.Related (Alike S) (applyItems loader follow ctx items)
      (applyItems .none follow' ctx' made) := by
  induction items generalizing made ctx ctx' with
  | nil =>
      cases done
      exact .ok contexts
  | cons item rest ih =>
      obtain ⟨first, others, one, more, rfl⟩ := Inline.itemsWith_cons_eq_ok_iff.mp done
      rw [applyItems, applyItems_splice]
      refine (each item List.mem_cons_self first ctx ctx' one contexts).bind
        fun ctx ctx' contexts => ?_
      exact ih more (fun item member => each item (List.mem_cons_of_mem _ member)) contexts

/-- References are followed alike: to a context, and to the same one made self-contained. -/
def FollowsAlike (loader : Loader) (S : Json → Json → Prop) (nested : Inline.Nested)
    (follow follow' : Follow) : Prop :=
  ∀ url inner out ctx ctx', (Url.parse? url).isSome → loadContext loader url = .ok inner →
    nested inner = .ok out → Plain loader inner → inner.Ordered → Alike S ctx ctx' →
      Except.Related (Alike S) (follow ctx url) (applyLocal .none follow' ctx' out)

theorem applyLocal_inlined (loaded : loader.Ordered) {nested : Inline.Nested}
    (inlined : ∀ inner out, nested inner = .ok out → S inner out)
    (follows : FollowsAlike loader S nested follow follow') {json out : Json}
    (ordered : json.Ordered) (plain : Plain loader json)
    (done : Inline.contextWith loader nested json = .ok out) (contexts : Alike S ctx ctx') :
    Except.Related (Alike S) (applyLocal loader follow ctx json)
      (applyLocal .none follow' ctx' out) := by
  induction json using Json.inductionOn generalizing out ctx ctx' with
  | string url =>
      obtain ⟨inner, found, done⟩ := Inline.contextWith_string_eq_ok_iff.mp done
      have refers : Refers loader (.string url) inner := .loaded found
      obtain ⟨absolute, further⟩ := plain_iff.mp plain
      exact follows url inner out ctx ctx' absolute found done (further inner refers)
        (refers.ordered loaded ordered) contexts
  | object members _ => exact applyObject_inlined inlined ordered plain done contexts
  | array items ih =>
      obtain ⟨made, each, rfl⟩ := Inline.contextWith_array_eq_ok_iff.mp done
      rw [applyLocal, applyLocal]
      refine applyItems_inlined each (fun item member first ctx ctx' one contexts => ?_) contexts
      exact ih item member (Json.ordered_array_iff.mp ordered item member)
        (plain_array_iff.mp plain item member) one contexts
  | null =>
      cases done
      exact .ok ⟨.nil, rfl, contexts.base, rfl⟩
  | bool | number =>
      cases done
      exact .error _

/-! ## A whole run -/

theorem process_inlined (loaded : loader.Ordered) {depth : Nat}
    (within : depth ≤ maxContextDepth + 1) {json out : Json} (ordered : json.Ordered)
    (plain : Plain loader json) (done : Inline.context loader depth json = .ok out)
    (contexts : Alike (Inline.Inlined loader) ctx ctx') (depth' : Nat) :
    Except.Related (Alike (Inline.Inlined loader)) (process loader depth ctx json)
      (process .none (depth' + 1) ctx' out) := by
  -- On the depth of the first run.  The second follows no reference and stays where it is.
  induction depth generalizing json out ctx ctx' with
  | zero => cases done
  | succ depth ih =>
      have inlined : ∀ inner out, Inline.context loader depth inner = .ok out →
          Inline.Inlined loader inner out := fun _ _ => Inline.context_mono (by omega)
      refine applyLocal_inlined loaded inlined ?_ ordered plain done contexts
      intro url inner out ctx ctx' absolute found done plain ordered contexts
      dsimp only
      rw [ctx.resolveReference_of_absolute absolute, found]
      exact ih (by omega) ordered plain done contexts

/-- A context and the same one made self-contained give the same active context but for the
contexts of terms, which are self-contained in the second, or they fail with the same error. -/
theorem parse_inlined (loaded : loader.Ordered) {json inlined : Json} (ordered : json.Ordered)
    (plain : Plain loader json)
    (done : Inline.context loader (maxContextDepth + 1) json = .ok inlined) :
    Except.Related (Alike (Inline.Inlined loader)) (Context.empty.parse loader json)
      (Context.empty.parse .none inlined) :=
  process_inlined loaded (Nat.le_refl _) ordered plain done .empty _

/-- A loaded list, a reference in it, a term with a context and an import. -/
theorem parse_inlined_of_nested :
    let base := "https://example.com/base"
    let person := "https://example.com/person"
    let age : String × Json := ("age", .string "urn:age")
    let name : String × Json := ("name", .string "name")
    let vocab : String × Json := ("@vocab", .string "urn:")
    let knows (context : Json) : String × Json :=
      ("knows", .object [("@context", context), ("@id", .string "urn:knows")])
    let loader := Loader.ofDocuments
      [(base, .object [("@context", .object [age])]),
       (person, .object [("@context", .array [.string base, .object [knows (.string base)]])])]
    let json : Json :=
      .array [.string person, .object [("@import", .string base), vocab, name]]
    let inlined : Json :=
      .array [.object [age], .object [knows (.object [age])], .object [vocab, age, name]]
    loader.Ordered ∧ json.Ordered ∧ Plain loader json ∧
      Inline.context loader (maxContextDepth + 1) json = .ok inlined ∧
      Except.Related (Alike (Inline.Inlined loader)) (Context.empty.parse loader json)
        (Context.empty.parse .none inlined) ∧
      ∃ ctx, Context.empty.parse .none inlined = .ok ctx ∧
        ctx.terms.keys = ["age", "knows", "name"] := by
  intro base person age name vocab knows loader json inlined
  have loaded : loader.Ordered := by
    refine Loader.ordered_ofDocuments ?_
    simp +decide [base, person, age, knows]
  have ordered : json.Ordered := by
    simp +decide [json, base, person, name, vocab]
  have absolute : (Url.parse? base).isSome := by decide +kernel
  have plainBase : Plain loader (.string base) := by
    refine (plain_string_iff rfl).mpr ⟨absolute, plain_object_iff.mpr ⟨nofun, ?_⟩⟩
    rintro imported ⟨url, document, named, -, -⟩
    cases named
  have plainPerson : Plain loader (.string person) := by
    refine (plain_string_iff rfl).mpr ⟨by decide +kernel, ?_⟩
    rw [plain_array_iff, List.forall_mem_cons, List.forall_mem_singleton, plain_object_iff]
    refine ⟨plainBase, nofun, ?_⟩
    rintro imported ⟨url, document, named, -, -⟩
    cases named
  have plain : Plain loader json := by
    rw [plain_array_iff, List.forall_mem_cons, List.forall_mem_singleton, plain_object_iff]
    refine ⟨plainPerson, ?_, ?_⟩
    · intro url named
      cases named
      exact absolute
    · rintro imported ⟨url, document, named, answered, found⟩
      cases named
      cases answered
      cases found
      rfl
  have done : Inline.context loader (maxContextDepth + 1) json = .ok inlined := rfl
  have parsed : (Context.empty.parse .none inlined).passes
      (fun ctx => decide (ctx.terms.keys = ["age", "knows", "name"])) = true := by decide +kernel
  obtain ⟨ctx, result, names⟩ := Except.exists_of_passes parsed
  exact ⟨loaded, ordered, plain, done, parse_inlined loaded ordered plain done, ctx, result,
    of_decide_eq_true names⟩

end Context

end LinkedCommit
