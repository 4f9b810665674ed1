import LinkedCommit.Proofs.Document.Way
/-!
# Field paths without a document

A field of a type has its path from the context alone, and from a document of this type.  The walk
through a context takes on the context of every token and keeps it; in a document the context of a
type is in force for the members of the node itself and not for the nodes below.  So the two paths
are one exactly when no token further down has another identifier for that
(`fieldPathFromContext_eq_iff`).
-/

set_option autoImplicit false

namespace LinkedCommit

namespace Place

/-- An object on the way has no context and no type. -/
def Step.Bare : Step → Prop
  | .item _ _ => True
  | .member ctx _ members _ _ =>
    NameMap.contains members "@context" = false ∧ ctx.nodeTypes members = []

instance : (step : Step) → Decidable step.Bare
  | .item _ _ => inferInstanceAs (Decidable True)
  | .member ctx _ members _ _ =>
    inferInstanceAs (Decidable (NameMap.contains members "@context" = false ∧
      ctx.nodeTypes members = []))

def under (loader : Loader) (ctx : Context) (tokens : List String) :
    Except DocumentError Context :=
  tokens.foldlM
    (fun ctx token => if isIndex token then .ok ctx else below loader ctx ctx token) ctx

/-- Two contexts give the terms of some tokens one identifier each, wherever these stand. -/
def SameNames (loader : Loader) (first second : Context) (tokens : List String) : Prop :=
  ∀ before token after first' second', tokens = before ++ token :: after →
    isIndex token = false → under loader first before = .ok first' →
    under loader second before = .ok second' →
      first'.expand? token true = second'.expand? token true

variable {loader : Loader} {ctx first second : Context} {token : String} {tokens : List String}

theorem SameNames.refl (ctx : Context) (tokens : List String) :
    SameNames loader ctx ctx tokens := by
  intro before token after first second _ _ one other
  cases one.symm.trans other
  rfl

theorem under_cons_of_index (digits : isIndex token = true) :
    under loader ctx (token :: tokens) = under loader ctx tokens := by
  rw [under, List.foldlM_cons, if_pos digits]
  rfl

theorem under_cons_of_below {inner : Context} (term : isIndex token = false)
    (done : below loader ctx ctx token = .ok inner) :
    under loader ctx (token :: tokens) = under loader inner tokens := by
  rw [under, List.foldlM_cons, if_neg (by rw [term]; exact Bool.false_ne_true), done]
  rfl

theorem sameNames_nil : SameNames loader first second [] := by
  intro before token after _ _ same
  simp at same

theorem sameNames_cons_of_index (digits : isIndex token = true) :
    SameNames loader first second (token :: tokens) ↔ SameNames loader first second tokens := by
  constructor
  · intro names before other after first' second' same
    have longer := names (token :: before) other after first' second' (congrArg _ same)
    rwa [under_cons_of_index digits, under_cons_of_index digits] at longer
  · intro names before other after first' second' same term one two
    cases before with
    | nil =>
        cases same
        rw [term] at digits
        cases digits
    | cons head before =>
        cases same
        rw [under_cons_of_index digits] at one two
        exact names before other after first' second' rfl term one two

theorem sameNames_cons_of_below {first' second' : Context} (term : isIndex token = false)
    (one : below loader first first token = .ok first')
    (two : below loader second second token = .ok second') :
    SameNames loader first second (token :: tokens) ↔
      first.expand? token true = second.expand? token true ∧
        SameNames loader first' second' tokens := by
  constructor
  · intro names
    refine ⟨names [] token tokens first second rfl term rfl rfl, ?_⟩
    intro before other after first'' second'' same
    have longer := names (token :: before) other after first'' second'' (congrArg _ same)
    rwa [under_cons_of_below term one, under_cons_of_below term two] at longer
  · rintro ⟨here, names⟩ before other after _ _ same other' first'' second''
    cases before with
    | nil =>
        cases same
        cases first''
        cases second''
        exact here
    | cons head before =>
        cases same
        rw [under_cons_of_below term one] at first''
        rw [under_cons_of_below term two] at second''
        exact names before other after _ _ rfl other' first'' second''

/-! ## Walks through a context -/

theorem expand?_of_term? {d : TermDefinition} (term : isKeyword token = false)
    (found : ctx.term? token = some d) : ctx.expand? token true = d.id := by
  simp [Context.expand?, term, found]

theorem walkTerms_cons_eq_ok {found found' : Found}
    (done : walkTerms loader ctx found (token :: tokens) = .ok found') :
    (isIndex token = true ∧ ∃ i, index? token = some i ∧
        walkTerms loader ctx ⟨found.path.append [.index i], none⟩ tokens = .ok found') ∨
      isIndex token = false ∧ ∃ d iri inner, ctx.term? token = some d ∧ d.id = some iri ∧
        below loader ctx ctx token = .ok inner ∧
        walkTerms loader inner ⟨found.path.append [.term iri], d.typeMapping⟩ tokens =
          .ok found' := by
  rw [walkTerms] at done
  split at done
  · rename_i digits
    split at done
    · rename_i i index
      exact Or.inl ⟨digits, i, index, done⟩
    · cases done
  · rename_i notDigits
    refine Or.inr ⟨(Bool.not_eq_true _).mp notDigits, ?_⟩
    split at done
    · cases done
    · rename_i d defined
      split at done
      · cases done
      · rename_i iri identified
        refine ⟨d, iri, ?_⟩
        have scopes : (ctx.term? token).bind TermDefinition.scopedContext = d.scopedContext := by
          rw [defined, Option.bind_some]
        unfold below
        rw [scopes]
        dsimp only at done
        cases scope : d.scopedContext with
        | some json =>
            rw [scope] at done
            obtain ⟨inner, parsed, done⟩ := Except.bind_eq_ok_iff.mp done
            exact ⟨inner, defined, identified, parsed, done⟩
        | none =>
            rw [scope] at done
            exact ⟨ctx, defined, identified, rfl, done⟩

/-- Where the objects on the way are bare, nothing is in force but what came from above. -/
theorem Stepped.of_bare {node child : Json} {step : Step} {inner : Context}
    (stepped : Stepped loader ctx token node step inner child) (bare : step.Bare)
    (term : isIndex token = false) :
    ∃ iri, step.segment = .term iri ∧ ctx.expand? token true = some iri ∧
      below loader ctx ctx token = .ok inner := by
  cases stepped with
  | item digits =>
      rw [term] at digits
      cases digits
  | @member members around typed inner child iri _ embedded scopes _ expanded under =>
      obtain ⟨noContext, noTypes⟩ := bare
      have absent : NameMap.get? members "@context" = none := by
        simpa [NameMap.contains] using noContext
      rw [Context.applyEmbedded, absent] at embedded
      cases embedded
      rw [Context.typeScoped, noTypes] at scopes
      cases scopes
      exact ⟨iri, rfl, expanded, under⟩

/-- A walk through a context and one past bare nodes of a document, each under a context of its
own, name the same segments exactly if the two contexts give the terms the same identifiers. -/
theorem walkTerms_eq_iff {kept dropped : Context} {found found' : Found} {node target : Json}
    {steps : List Step} (terms : ∀ token ∈ tokens, isKeyword token = false)
    (done : walkTerms loader kept found tokens = .ok found')
    (way : way? loader dropped node tokens = some (steps, target))
    (bare : ∀ step ∈ steps, step.Bare) :
    ∃ segments, found'.path = found.path.append segments ∧
      (segments = steps.map Step.segment ↔ SameNames loader kept dropped tokens) := by
  -- Each walk goes on in a context of its own, so both contexts vary.
  induction tokens generalizing kept dropped found node steps with
  | nil =>
      cases done
      cases way
      refine ⟨[], ?_, iff_of_true rfl sameNames_nil⟩
      simp [Path.append]
  | cons token rest ih =>
      obtain ⟨step, inner, child, steps, stepped, further, rfl⟩ := way?_cons_eq_some_iff.mp way
      have bareRest : ∀ step ∈ steps, step.Bare :=
        fun s member => bare s (List.mem_cons_of_mem _ member)
      have termsRest : ∀ token ∈ rest, isKeyword token = false :=
        fun t member => terms t (List.mem_cons_of_mem _ member)
      rcases walkTerms_cons_eq_ok done with ⟨digits, i, index, done⟩ |
        ⟨term, d, iri, kept', defined, identified, under, done⟩
      · cases stepped with
        | member term =>
            rw [term] at digits
            cases digits
        | item _ index' =>
            cases index.symm.trans index'
            obtain ⟨segments, path, names⟩ := ih termsRest done further bareRest
            refine ⟨.index i :: segments, ?_, ?_⟩
            · rw [path]
              simp [Path.append]
            · rw [sameNames_cons_of_index digits, ← names]
              simp [Step.segment]
      · obtain ⟨iri', segment, expanded, under'⟩ :=
          stepped.of_bare (bare step List.mem_cons_self) term
        obtain ⟨segments, path, names⟩ := ih termsRest done further bareRest
        refine ⟨.term iri :: segments, ?_, ?_⟩
        · rw [path]
          simp [Path.append]
        · rw [sameNames_cons_of_below term under under', ← names, expanded,
            expand?_of_term? (terms token List.mem_cons_self) defined, identified]
          simp [segment]

/-! ## Paths of fields -/

theorem typeScoped_of_single {members : Json.Members} {type : String}
    (single : ctx.nodeTypes members = [type]) :
    ctx.typeScoped loader members = below loader ctx ctx type := by
  rw [Context.typeScoped, single, List.foldlM_cons, below]
  cases (ctx.term? type).bind TermDefinition.scopedContext with
  | none => rfl
  | some json => exact bind_pure _

theorem walkTerms_of_fieldPath {contextDocument json : Json} {type field : String} {path : Path}
    {parts : List String} (single : Place.tokens type = .ok [type])
    (parted : Place.tokens field = .ok parts)
    (given : contextDocument.member? "@context" = some json)
    (parsed : Context.empty.parse loader json = .ok ctx)
    (done : fieldPathFromContext loader contextDocument type field = .ok path) :
    ∃ found, walkTerms loader ctx ⟨⟨[]⟩, none⟩ (type :: parts) = .ok found ∧
      path.segments = found.path.segments.drop 1 := by
  rw [fieldPathFromContext] at done
  obtain ⟨full, walked, same⟩ := Except.bind_eq_ok_iff.mp done
  cases same
  rw [pathFromContext, walkContext, tokens_append single parted, given] at walked
  change Except.map Found.path (Context.empty.parse loader json >>= fun ctx =>
    walkTerms loader ctx ⟨⟨[]⟩, none⟩ (type :: parts)) = _ at walked
  rw [parsed] at walked
  change Except.map Found.path (walkTerms loader ctx ⟨⟨[]⟩, none⟩ (type :: parts)) = _ at walked
  cases found : walkTerms loader ctx ⟨⟨[]⟩, none⟩ (type :: parts) with
  | error e =>
      rw [found] at walked
      cases walked
  | ok found' =>
      rw [found] at walked
      cases walked
      exact ⟨found', rfl, rfl⟩

end Place

open Place

/-- The path of a field by the context of a document, and by a document of the type with this
context and bare nodes below.  The first terms are the same, and the paths are the same exactly if
every later term has the same identifier with the context of the type kept as with it dropped. -/
theorem fieldPathFromContext_eq_iff {loader : Loader} {contextDocument json : Json}
    {type field first : String} {rest : List String} {members : Json.Members} {ctx : Context}
    {path path' : Path} (single : tokens type = .ok [type]) (named : isIndex type = false)
    (parts : tokens field = .ok (first :: rest))
    (terms : ∀ token ∈ first :: rest, isKeyword token = false)
    (given : contextDocument.member? "@context" = some json)
    (same : NameMap.get? members "@context" = some json)
    (parsed : Context.empty.parse loader json = .ok ctx) (typed : ctx.nodeTypes members = [type])
    (bare : ∀ steps target, way? loader .empty (.object members) (first :: rest) =
      some (steps, target) → ∀ step ∈ steps.tail, step.Bare)
    (fromContext : fieldPathFromContext loader contextDocument type field = .ok path)
    (fromDocument : pathFromDocument loader (.object members) field = .ok path') :
    path.segments.head? = path'.segments.head? ∧
      (∃ scopes kept dropped, below loader ctx ctx type = .ok scopes ∧
        below loader scopes scopes first = .ok kept ∧
        below loader ctx scopes first = .ok dropped ∧
        (path = path' ↔ SameNames loader kept dropped rest)) ∧
      ((ctx.term? type).bind TermDefinition.scopedContext = none → path = path') := by
  obtain ⟨found, walked, spelled⟩ := walkTerms_of_fieldPath single parts given parsed fromContext
  obtain ⟨steps, target, way, rfl⟩ := way_of_pathFromDocument parts fromDocument
  have bare := bare steps target way
  obtain ⟨step, dropped, child, steps, stepped, further, rfl⟩ := way?_cons_eq_some_iff.mp way
  cases stepped with
  | @member _ around scopes _ _ iri term embedded typeScopes _ expanded droppedUnder =>
      rw [Context.applyEmbedded, same] at embedded
      cases embedded.symm.trans parsed
      rw [typeScoped_of_single typed] at typeScopes
      -- Past the term of the type, which has no place in the path of the field.
      rcases walkTerms_cons_eq_ok walked with ⟨digits, -⟩ |
        ⟨-, d, typeIri, _, -, -, scopesUnder, walked⟩
      · rw [named] at digits
        cases digits
      cases typeScopes.symm.trans scopesUnder
      rcases walkTerms_cons_eq_ok walked with ⟨digits, -⟩ |
        ⟨-, d', iri', kept, defined, identified, keptUnder, walked⟩
      · rw [term] at digits
        cases digits
      rw [expand?_of_term? (terms first List.mem_cons_self) defined, identified] at expanded
      cases expanded
      obtain ⟨segments, path', names⟩ := walkTerms_eq_iff
        (fun token member => terms token (List.mem_cons_of_mem _ member)) walked further bare
      have whole : path.segments = .term iri :: segments := by
        rw [spelled, path']
        rfl
      have equal : path = ⟨(Step.member ctx scopes members first iri :: steps).map Step.segment⟩ ↔
          SameNames loader kept dropped rest := by
        rw [← names]
        obtain ⟨all⟩ := path
        subst whole
        simp [Step.segment]
      refine ⟨?_, ⟨scopes, kept, dropped, scopesUnder, keptUnder, droppedUnder, equal⟩, ?_⟩
      · rw [whole]
        rfl
      · intro plain
        rw [below, plain] at scopesUnder
        cases scopesUnder
        cases keptUnder.symm.trans droppedUnder
        exact equal.mpr (.refl _ _)

/-- A field two terms and an index below a type, by a context of the type and one of a term. -/
theorem fieldPathFromContext_of_property_context :
    let street : Json := .object [("street", .string "urn:street")]
    let home : Json := .object [("@context", street), ("@id", .string "urn:home")]
    let context : Json := .object
      [("Person", .object [("@context", .object [("home", home)]), ("@id", .string "urn:Person")])]
    let members : Json.Members := [("@context", context), ("@type", .string "Person"),
      ("home", .array [.object [("street", .string "Main Street")]])]
    let path : Path := ⟨[.term "urn:home", .index 0, .term "urn:street"]⟩
    fieldPathFromContext .none (.object [("@context", context)]) "Person" "home.0.street" =
        .ok path ∧
      pathFromDocument .none (.object members) "home.0.street" = .ok path ∧
      ∃ ctx scopes kept dropped, Context.empty.parse .none context = .ok ctx ∧
        below .none ctx ctx "Person" = .ok scopes ∧ below .none scopes scopes "home" = .ok kept ∧
        below .none ctx scopes "home" = .ok dropped ∧
        SameNames .none kept dropped ["0", "street"] := by
  intro street home context members path
  have fromContext : fieldPathFromContext .none (.object [("@context", context)]) "Person"
      "home.0.street" = .ok path := by decide +kernel
  have fromDocument : pathFromDocument .none (.object members) "home.0.street" = .ok path := by
    decide +kernel
  have typed : (Context.empty.parse .none context).passes
      (fun ctx => decide (ctx.nodeTypes members = ["Person"])) = true := by decide +kernel
  obtain ⟨ctx, parsed, typed⟩ := Except.exists_of_passes typed
  have bare : (way? .none .empty (.object members) ["home", "0", "street"]).all
      (fun found => decide (∀ step ∈ found.1.tail, step.Bare)) = true := by decide +kernel
  have parts : tokens "home.0.street" = .ok ["home", "0", "street"] := by decide +kernel
  obtain ⟨-, ⟨scopes, kept, dropped, ofType, keptUnder, droppedUnder, same⟩, -⟩ :=
    fieldPathFromContext_eq_iff (by decide +kernel) (by decide +kernel) parts (by decide +kernel)
      rfl rfl parsed (of_decide_eq_true typed)
      (fun steps target way => by
        rw [way] at bare
        exact of_decide_eq_true bare)
      fromContext fromDocument
  exact ⟨fromContext, fromDocument, ctx, scopes, kept, dropped, parsed, ofType, keptUnder,
    droppedUnder, same.mp rfl⟩

/-- A term that the context of the type defines anew, below the node of the type. -/
theorem fieldPathFromContext_of_redefined_term :
    let context : Json := .object
      [("T", .object [("@context", .object [("a", .string "http://example.com/typed")]),
          ("@id", .string "http://example.com/T")]),
        ("a", .string "http://example.com/a"), ("sub", .string "http://example.com/sub")]
    let document : Json := .object [("@context", context), ("@type", .string "T"),
      ("sub", .object [("a", .string "x")])]
    let path : Path := ⟨[.term "http://example.com/sub", .term "http://example.com/typed"]⟩
    let path' : Path := ⟨[.term "http://example.com/sub", .term "http://example.com/a"]⟩
    fieldPathFromContext .none (.object [("@context", context)]) "T" "sub.a" = .ok path ∧
      pathFromDocument .none document "sub.a" = .ok path' ∧ path ≠ path' := by
  intro context document path path'
  exact ⟨by decide +kernel, by decide +kernel, by decide⟩

end LinkedCommit
