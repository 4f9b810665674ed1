import LinkedCommit.Document.Inline
import LinkedCommit.Document.Place
import LinkedCommit.Proofs.Context.Inquiry
/-!
# Documents by way of a cache

Making a document self-contained and finding a path consult the loader (`consults_inlineContexts`,
`consults_pathFromDocument`, `Place.consults_walkContext`), as processing a context does.  So none
of them can tell a cache from the loader behind it (`loads_through_cache`).
-/

set_option autoImplicit false

namespace LinkedCommit

namespace Inline

theorem consults_withImport (members : Json.Members) :
    Consults fun loader => withImport loader members := by
  unfold withImport
  cases NameMap.get? members "@import" with
  | none => exact .const _
  | some value =>
      cases value with
      | string url =>
          refine ((Consults.load url).mapError _).bind fun document => ?_
          exact .const _
      | null | bool _ | number _ | array _ | object _ => exact .const _

section Nested

variable {nested : Loader → Nested}
  (consults : ∀ json, Consults fun loader => nested loader json)

include consults

theorem consults_definition (json : Json) :
    Consults fun loader => definition (nested loader) json := by
  cases json with
  | object d =>
      simp only [definition]
      cases NameMap.get? d "@context" with
      | none => exact .const _
      | some json => exact (consults json).bind fun _ => .const _
  | null | bool _ | number _ | string _ | array _ => exact .const _

theorem consults_definitions (members : List (String × Json)) :
    Consults fun loader => definitions (nested loader) members := by
  induction members with
  | nil => exact .const _
  | cons head rest ih =>
      obtain ⟨key, value⟩ := head
      simp only [definitions]
      exact (consults_definition consults value).bind fun _ => ih.bind fun _ => .const _

theorem consults_contextWith (json : Json) :
    Consults fun loader => contextWith loader (nested loader) json := by
  induction json using Json.inductionOn with
  | null | bool _ | number _ =>
      simp only [contextWith]
      exact .const _
  | string url =>
      simp only [contextWith]
      exact (Context.consults_loadContext url).bind consults
  | object members =>
      simp only [contextWith]
      exact (consults_withImport members).bind fun all =>
        (consults_definitions consults all).bind fun _ => .const _
  | array items each =>
      have all : Consults fun loader => itemsWith loader (nested loader) items := by
        induction items with
        | nil =>
            simp only [itemsWith]
            exact .const _
        | cons item rest ih =>
            simp only [itemsWith]
            exact (each item List.mem_cons_self).bind fun _ =>
              (ih fun other member => each other (List.mem_cons_of_mem _ member)).bind fun _ =>
                .const _
      simp only [contextWith]
      exact all.bind fun _ => .const _

end Nested

theorem consults_context (depth : Nat) (json : Json) :
    Consults fun loader => context loader depth json := by
  induction depth generalizing json with
  | zero => exact .const _
  | succ depth ih =>
      simp only [context]
      exact consults_contextWith ih json

end Inline

theorem consults_inlineContexts (json : Json) :
    Consults fun loader => inlineContexts loader json := by
  unfold inlineContexts
  induction json using Json.inductionOn with
  | null | bool _ | number _ | string _ =>
      simp only [Inline.document]
      exact .const _
  | array items each =>
      have all : Consults fun loader => Inline.items loader items := by
        induction items with
        | nil =>
            simp only [Inline.items]
            exact .const _
        | cons item rest ih =>
            simp only [Inline.items]
            exact (each item List.mem_cons_self).bind fun _ =>
              (ih fun other member => each other (List.mem_cons_of_mem _ member)).bind fun _ =>
                .const _
      simp only [Inline.document]
      exact all.bind fun _ => .const _
  | object members each =>
      have all : Consults fun loader => Inline.members loader members := by
        induction members with
        | nil =>
            simp only [Inline.members]
            exact .const _
        | cons head rest ih =>
            obtain ⟨key, value⟩ := head
            have others := ih fun other member => each other (List.mem_cons_of_mem _ member)
            simp only [Inline.members]
            split
            · exact (Inline.consults_context _ value).bind fun _ => others.bind fun _ => .const _
            · exact (each (key, value) List.mem_cons_self).bind fun _ =>
                others.bind fun _ => .const _
      simp only [Inline.document]
      exact all.bind fun _ => .const _

namespace Place

theorem consults_walk (tokens : List String) (ctx : Context) (node : Json) (walked : List String) :
    Consults fun loader => walk loader ctx node walked tokens := by
  induction tokens generalizing ctx node walked with
  | nil =>
      simp only [walk]
      exact .const _
  | cons token rest ih =>
      simp only [walk]
      split
      · exact (Consults.const _).bind fun found => (ih ctx found.2 _).bind fun _ => .const _
      · refine (Consults.const _).bind fun members =>
          (Context.consults_applyEmbedded ctx members).bind fun ctx =>
          (Context.consults_typeScoped ctx members).bind fun typed => ?_
        cases NameMap.get? members token with
        | none => exact .const _
        | some child =>
            dsimp only
            cases typed.expand? token true with
            | none => exact .const _
            | some iri =>
                dsimp only
                cases (typed.term? token).bind TermDefinition.scopedContext with
                | none => exact (ih ctx child _).bind fun _ => .const _
                | some json =>
                    exact (Context.consults_parse ctx json).bind fun below =>
                      (ih below child _).bind fun _ => .const _

theorem consults_walkTerms (tokens : List String) (ctx : Context) (found : Found) :
    Consults fun loader => walkTerms loader ctx found tokens := by
  induction tokens generalizing ctx found with
  | nil =>
      simp only [walkTerms]
      exact .const _
  | cons token rest ih =>
      simp only [walkTerms]
      split
      · cases index? token with
        | none => exact .const _
        | some i => exact ih ctx _
      · cases ctx.term? token with
        | none => exact .const _
        | some d =>
            dsimp only
            cases d.id with
            | none => exact .const _
            | some iri =>
                dsimp only
                cases d.scopedContext with
                | none => exact ih ctx _
                | some json => exact (Context.consults_parse ctx json).bind fun below => ih below _

theorem consults_walkContext (contextDocument : Json) (dotted : String) :
    Consults fun loader => walkContext loader contextDocument dotted := by
  refine (Consults.const _).bind fun parts => ?_
  cases contextDocument.member? "@context" with
  | none => exact .const _
  | some json =>
      exact (Context.consults_parse _ json).bind fun ctx => consults_walkTerms parts ctx _

end Place

theorem consults_pathFromDocument (document : Json) (dotted : String) :
    Consults fun loader => pathFromDocument loader document dotted :=
  (Consults.const _).bind fun parts =>
    (Place.consults_walk parts _ document []).bind fun _ => .const _

theorem consults_pathFromContext (contextDocument : Json) (dotted : String) :
    Consults fun loader => pathFromContext loader contextDocument dotted :=
  (Place.consults_walkContext contextDocument dotted).map _

theorem consults_fieldPathFromContext (contextDocument : Json) (type field : String) :
    Consults fun loader => fieldPathFromContext loader contextDocument type field :=
  (consults_pathFromContext contextDocument _).bind fun _ => .const _

theorem consults_typeFromContext (contextDocument : Json) (dotted : String) :
    Consults fun loader => typeFromContext loader contextDocument dotted :=
  (Place.consults_walkContext contextDocument dotted).map _

theorem consults_typeIdFromContext (contextDocument : Json) (type : String) :
    Consults fun loader => typeIdFromContext loader contextDocument type :=
  (consults_pathFromContext contextDocument type).bind fun _ => .const _

/-- A cache answers as the loader behind it.  It holds as many documents as were found since it was
cleared last.  Without a limit of time it has asked for each of them once in a period, and for what
is not there every time; with a limit of zero, for everything.  Contexts, self-contained documents
and paths come out of it as they come out of the loader. -/
theorem loads_through_cache (inner : Loader) :
    (∀ calls : List Cache.Call,
      let urls := calls.filterMap Cache.Call.url?
      let periods := Cache.Periods.ofCalls calls
      let lasting := Cache.Session.run inner none calls
      let expiring := Cache.Session.run inner (some 0) calls
      lasting.answers = urls.map (fun url => (url, inner url)) ∧
        lasting.cache.size = (inner.answered periods.current).toFinset.card ∧
        (Cache.Session.asked inner none calls).Perm (periods.all.flatMap (Cache.due inner)) ∧
        expiring.answers = urls.map (fun url => (url, inner url)) ∧
        expiring.cache.size = (inner.answered periods.current).toFinset.card ∧
        Cache.Session.asked inner (some 0) calls = urls) ∧
    ∀ (lifetime : Option Nat) (calls : List Cache.Call),
      let c := (Cache.Session.run inner lifetime calls).cache
      (∀ (ctx : Context) json, c.Serves inner fun loader => ctx.parse loader json) ∧
        (∀ document, c.Serves inner fun loader => inlineContexts loader document) ∧
        (∀ document dotted, c.Serves inner fun loader => pathFromDocument loader document dotted) ∧
        (∀ document dotted, c.Serves inner fun loader => pathFromContext loader document dotted) ∧
        (∀ document type field, c.Serves inner fun loader =>
          fieldPathFromContext loader document type field) ∧
        (∀ document dotted, c.Serves inner fun loader => typeFromContext loader document dotted) ∧
        ∀ document type, c.Serves inner fun loader => typeIdFromContext loader document type := by
  constructor
  · intro calls urls periods lasting expiring
    exact ⟨Cache.answers_run inner none calls, (Cache.follows_run inner none calls).size_eq,
      Cache.asked_perm inner calls, Cache.answers_run inner (some 0) calls,
      (Cache.follows_run inner (some 0) calls).size_eq, Cache.asked_of_limit inner calls⟩
  · intro lifetime calls c
    have holds : c.Holds inner := (Cache.follows_run inner lifetime calls).holds
    exact ⟨fun ctx json => (Context.consults_parse ctx json).served holds,
      fun document => (consults_inlineContexts document).served holds,
      fun document dotted => (consults_pathFromDocument document dotted).served holds,
      fun document dotted => (consults_pathFromContext document dotted).served holds,
      fun document type field => (consults_fieldPathFromContext document type field).served holds,
      fun document dotted => (consults_typeFromContext document dotted).served holds,
      fun document type => (consults_typeIdFromContext document type).served holds⟩

/-- A document is loaded twice, one that is not there twice, and the document once more after the
cache was cleared: the loader is asked four times, and a context is read from the cache. -/
theorem loads_through_cleared_cache :
    let document := Json.ofPairs [("@context", Json.ofPairs [("name", .string "urn:name")])]
    let inner := Loader.ofDocuments [("urn:a", document)]
    let calls : List Cache.Call :=
      [.load 0 "urn:a", .load 5 "urn:a", .load 6 "urn:b", .load 6 "urn:b", .clear, .load 7 "urn:a"]
    let session := Cache.Session.run inner none calls
    session.cache.size = 1 ∧
      (Cache.Session.asked inner none calls).Perm ["urn:a", "urn:b", "urn:b", "urn:a"] ∧
      ∃ t : Inquiry (Except DocumentError Context),
        (t.Computes fun loader => Context.empty.parse loader (.string "urn:a")) ∧
        ((t.through session.cache fun n => n + 8).answer inner).1 =
          Context.empty.parse inner (.string "urn:a") := by
  intro document inner calls session
  obtain ⟨sessions, served⟩ := loads_through_cache inner
  obtain ⟨-, size, asked, -⟩ := sessions calls
  obtain ⟨⟨t, computes⟩, through⟩ := (served none calls).1 Context.empty (.string "urn:a")
  have due : (Cache.Periods.ofCalls calls).all.flatMap (Cache.due inner) =
      ["urn:a", "urn:b", "urn:b", "urn:a"] := by decide +kernel
  have held : inner.answered (Cache.Periods.ofCalls calls).current = ["urn:a"] := by decide +kernel
  rw [held] at size
  rw [due] at asked
  exact ⟨size, asked, t, computes, through t _ computes⟩

end LinkedCommit
