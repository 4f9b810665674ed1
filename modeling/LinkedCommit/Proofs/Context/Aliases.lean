import LinkedCommit.Proofs.Context.CyclicTerms
/-!
# Terms that stand for other terms

While terms are defined, texts are expanded in a table that is not finished; afterwards they are
expanded by the context that comes out (`Context.expand?`).  Both give the same (`textValue_eq`):
what a definition was made of was final then, so the definition follows from the finished table too
(`Consistent.get?_of_finished`).  So a term that names a text stands for what the text stands for,
at the end of whatever chain of terms (`Context.expand?_of_named`).
-/

set_option autoImplicit false

namespace LinkedCommit

namespace Terms

/-- The text that a definition names: the definition itself, or what stands under `@reverse` or else
under `@id`. -/
def namedText : Json → Option String
  | .string text => some text
  | .object m =>
    match NameMap.get? m "@reverse" with
    | some (.string text) => some text
    | _ => (NameMap.get? m "@id").bind Json.string?
  | _ => none

theorem target_of_namedText {term text : String} {value : Json} {draft : Draft}
    (read : Draft.of term value = .ok draft) (named : namedText value = some text) :
    draft.target = .text text := by
  cases value with
  | string raw =>
      cases read
      cases named
      rfl
  | null | bool | number | array => cases named
  | object m =>
      simp only [Draft.of, Draft.ofMembers, Except.bind_eq_ok_iff, target_eq,
        Except.map_eq_ok_iff] at read
      obtain ⟨_, ⟨byId, identified, rfl⟩, _, -, _, -, same⟩ := read
      cases same
      have unreversed : (NameMap.get? m "@id").bind Json.string? = some text →
          byId = .text text := by
        intro given
        obtain ⟨v, found, isText⟩ := Option.bind_eq_some_iff.mp given
        rw [targetById, found] at identified
        cases v <;> cases isText
        exact (Except.ok.inj identified).symm
      rw [namedText] at named
      show ((NameMap.get? m "@reverse").bind Json.string?).elim byId Target.text = .text text
      cases reversed : NameMap.get? m "@reverse" with
      | none =>
          rw [reversed] at named
          exact unreversed named
      | some v =>
          rw [reversed] at named
          cases v with
          | string raw =>
              cases named
              rfl
          | null | bool | number | array | object => exact unreversed named

theorem typeText_of_member {term type : String} {value : Json} {draft : Draft}
    (read : Draft.of term value = .ok draft) (typed : value.member? "@type" = some (.string type)) :
    draft.typeText = some type := by
  cases value with
  | null | bool | number | string | array => cases typed
  | object m =>
      simp only [Draft.of, Draft.ofMembers, Except.bind_eq_ok_iff] at read
      obtain ⟨_, -, text, hasType, _, -, same⟩ := read
      cases same
      have found : NameMap.get? m "@type" = some (.string type) := typed
      rw [typeText, found] at hasType
      cases hasType
      rfl

theorem textValue_eq (ctx : Context) (members : Json.Members) (text : String) :
    textValue ⟨members, ctx.vocab⟩ ctx.terms text = ctx.expand? text true := by
  unfold textValue Context.expand? formValue
  split
  · rfl
  · rfl

end Terms

namespace Context

open Terms (namedText)

theorem not_isKeyword_of_plain {text : String} (plain : startsWithAt text = false) :
    isKeyword text = false := by
  have allAt : ∀ keyword ∈ keywords, startsWithAt keyword = true := by decide
  cases keyword : isKeyword text with
  | false => rfl
  | true =>
      rw [allAt text (List.contains_iff_mem.mp keyword)] at plain
      cases plain

/-- The terms of a local context that is applied are those that defining them all leaves behind. -/
theorem exists_state_of_parse {loader : Loader} {ctx ctx' : Context} {members : Json.Members}
    (selfContained : NameMap.get? members "@import" = none)
    (parsed : ctx.parse loader (.object members) = .ok ctx') :
    ∃ s, ctx'.terms = s.terms ∧ Terms.Grown ⟨members, ctx'.vocab⟩ ctx.terms
      (Terms.definedKeys members) ⟨ctx.terms, []⟩ s := by
  rw [parse_object loader ctx selfContained, Except.mapError_eq_ok_iff, applyMembers_eq,
    Except.bind_eq_ok_iff] at parsed
  obtain ⟨ctx₁, settled, parsed⟩ := parsed
  rw [applySettings_terms settled, Terms.defineAll_eq, Terms.defineInOrder] at parsed
  obtain ⟨terms, defined, rfl⟩ := Except.map_eq_ok_iff.mp parsed
  obtain ⟨s, done, rfl⟩ := Except.map_eq_ok_iff.mp defined
  exact ⟨s, rfl, Terms.requireAll_grown (Terms.define_sound _) _
    (Terms.consistent_initial _ ctx.terms) done⟩

/-- A term that is not its own name stands, in the context that comes out, for what the text that it
names stands for there, or else for the text itself; and so does its type. -/
theorem expand?_of_named {loader : Loader} {ctx ctx' : Context} {members : Json.Members}
    {term : String} {value : Json} (selfContained : NameMap.get? members "@import" = none)
    (parsed : ctx.parse loader (.object members) = .ok ctx')
    (plain : startsWithAt term = false) (found : NameMap.get? members term = some value) :
    (∀ text, namedText value = some text → text ≠ term →
      ctx'.expand? term true = some ((ctx'.expand? text true).getD text)) ∧
    (∀ type, value.member? "@type" = some (.string type) → ∃ d, ctx'.term? term = some d ∧
      d.typeMapping = some ((ctx'.expand? type true).getD type)) := by
  obtain ⟨s, same, grown⟩ := exists_state_of_parse selfContained parsed
  have isLocal : NameMap.contains members term = true := by rw [NameMap.contains, found]; rfl
  have member : term ∈ Terms.definedKeys members := by
    refine List.mem_filter.mpr ⟨List.mem_map_of_mem (NameMap.mem_of_get?_eq_some found), ?_⟩
    rw [plain]
    rfl
  have finished := grown.finished_root member isLocal
  obtain ⟨draft, read⟩ : ∃ draft, Terms.Draft.of term value = .ok draft := by
    obtain ⟨d, -, means⟩ := grown.consistent.means term finished
    cases means with
    | intro found' read =>
        cases found.symm.trans found'
        exact ⟨_, read⟩
  have defined : ctx'.term? term =
      some (draft.definition ⟨members, ctx'.vocab⟩ ctx'.terms term) := by
    rw [term?, same]
    exact grown.consistent.get?_of_finished found read finished
  refine ⟨fun text named differ => ?_, fun type typed => ⟨_, defined, ?_⟩⟩
  · have expanded : ctx'.expand? term true =
        draft.target.value ⟨members, ctx'.vocab⟩ ctx'.terms term := by
      simp only [expand?, not_isKeyword_of_plain plain, defined, Bool.false_eq_true, if_false,
        if_true]
      rfl
    rw [expanded, Terms.target_of_namedText read named, Terms.Target.value, if_neg differ,
      ← Terms.textValue_eq ctx' members]
    split
    · rename_i keyword
      rw [Terms.textValue, if_pos keyword]
      rfl
    · rfl
  · show Terms.typeValue _ _ draft.typeText = _
    rw [Terms.typeText_of_member read typed, Terms.typeValue, Option.map_some, Terms.textValue_eq]

/-- A birth date under another name, with a type whose prefix is defined after it. -/
def renamedTerms : Json.Members :=
  [("birth", .string "s:birthDate"),
   ("born", .object [("@id", .string "birth"), ("@type", .string "day")]),
   ("day", .string "x:date"), ("s", .string "http://schema.org/"),
   ("x", .string "http://www.w3.org/2001/XMLSchema#")]

theorem renamed_terms_expanded :
    ∃ ctx, Context.empty.parse Loader.none (.object renamedTerms) = .ok ctx ∧
      ctx.expand? "born" true = some "http://schema.org/birthDate" ∧
      ∃ d, ctx.term? "born" = some d ∧
        d.typeMapping = some "http://www.w3.org/2001/XMLSchema#date" := by
  have computed : (Context.empty.parse Loader.none (.object renamedTerms)).passes (fun ctx =>
      decide (ctx.expand? "birth" true = some "http://schema.org/birthDate" ∧
        ctx.expand? "day" true = some "http://www.w3.org/2001/XMLSchema#date")) = true := by
    decide +kernel
  obtain ⟨ctx, parsed, expanded⟩ := Except.exists_of_passes computed
  obtain ⟨birth, day⟩ := of_decide_eq_true expanded
  have plain : startsWithAt "born" = false := by decide
  obtain ⟨named, typed⟩ := expand?_of_named rfl parsed plain rfl
  refine ⟨ctx, parsed, ?_, ?_⟩
  · rw [named "birth" rfl (by decide), birth]
    rfl
  · obtain ⟨d, defined, mapped⟩ := typed "day" rfl
    exact ⟨d, defined, by rw [mapped, day]; rfl⟩

end Context

end LinkedCommit
