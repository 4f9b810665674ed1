import LinkedCommit.Proofs.Context.Chains
import LinkedCommit.Proofs.Document.SelfContained
/-!
# Chains of references and contexts of terms

Making a document self-contained is a recursion too (`Inline.inlining`), which follows the contexts
of terms besides references and puts its limit on both.  In a document it goes down with the size of
the value, in a context with what is left of the limit, as processing does.

`references_limited` says of both recursions that they end whatever a loader answers, that their
results are the ones without a limit, and that what leads back to itself has none.
-/

set_option autoImplicit false

namespace LinkedCommit

open Relation (ReflTransGen TransGen)
open Recursion (By)

namespace Inline

/-- What is made self-contained. -/
inductive Job where
  | document (json : Json)
  /-- A context, with the number of references and contexts of terms that were followed to it. -/
  | context (depth : Nat) (json : Json)

namespace Job

def depth : Job → Nat
  | .document _ => 0
  | .context depth _ => depth

def ofMember (p : String × Json) : Job :=
  if p.1 = "@context" then .context 0 p.2 else .document p.2

inductive Makes (loader : Loader) : Job → Job → Prop
  | member {members : Json.Members} {p : String × Json} (member : p ∈ members) :
      Makes loader (.document (.object members)) (.ofMember p)
  | node {items : List Json} {item : Json} (member : item ∈ items) :
      Makes loader (.document (.array items)) (.document item)
  | item {depth : Nat} {items : List Json} {item : Json} (member : item ∈ items) :
      Makes loader (.context depth (.array items)) (.context depth item)
  | reference {depth : Nat} {url : String} {inner : Json}
      (found : Context.loadContext loader url = .ok inner) :
      Makes loader (.context depth (.string url)) (.context (depth + 1) inner)
  | definition {depth : Nat} {members merged d : Json.Members} {term : String} {inner : Json}
      (found : withImport loader members = .ok merged) (member : (term, .object d) ∈ merged)
      (context : NameMap.get? d "@context" = some inner) :
      Makes loader (.context depth (.object members)) (.context (depth + 1) inner)

/-- What a job comes to, where `answer` tells it of the jobs that it makes. -/
def level (loader : Loader) (answer : Job → Except DocumentError Json) :
    Job → Except DocumentError Json
  | .document (.object members) =>
    (members.mapM fun p => (answer (.ofMember p)).map (p.1, ·)).map .object
  | .document (.array items) => (items.mapM fun item => answer (.document item)).map .array
  | .document json => .ok json
  | .context depth (.string url) => do
    let inner ← Context.loadContext loader url
    answer (.context (depth + 1) inner)
  | .context depth (.array items) =>
    (items.mapM fun item => answer (.context depth item)).map fun made =>
      .array (made.foldr splice [])
  | .context depth (.object members) => do
    let merged ← withImport loader members
    return .object (← definitions (fun inner => answer (.context (depth + 1) inner)) merged)
  | .context _ json => .ok json

end Job

theorem definitions_congr {nested nested' : Nested} {members : Json.Members}
    (agree : ∀ term d inner, (term, .object d) ∈ members → NameMap.get? d "@context" = some inner →
      nested inner = nested' inner) : definitions nested members = definitions nested' members := by
  induction members with
  | nil => rfl
  | cons head rest ih =>
      obtain ⟨term, value⟩ := head
      have first : definition nested value = definition nested' value := by
        unfold definition
        split
        · rename_i d
          split
          · rename_i inner found
            rw [agree term d inner List.mem_cons_self found]
          · rfl
        · rfl
      rw [definitions, definitions, first,
        ih fun term d inner member => agree term d inner (List.mem_cons_of_mem _ member)]

theorem exists_of_mem_definitions {nested : Nested} {members made d : Json.Members} {term : String}
    {inner : Json} (done : definitions nested members = .ok made)
    (member : (term, .object d) ∈ members) (context : NameMap.get? d "@context" = some inner) :
    ∃ out, nested inner = .ok out := by
  obtain ⟨q, -, -, one⟩ := (definitions_eq_ok_iff.mp done).exists_of_mem_left member
  rcases definition_eq_ok one with ⟨d', inner', out, same, found, inlined, -⟩ | ⟨-, absent⟩
  · cases same
    cases context.symm.trans found
    exact ⟨out, inlined⟩
  · rw [absent d rfl] at context
    cases context

namespace Job

variable {loader : Loader} {answer answer' : Job → Except DocumentError Json} {job inner : Job}

theorem level_congr (agree : ∀ inner, Makes loader job inner → answer inner = answer' inner) :
    level loader answer job = level loader answer' job := by
  cases job with
  | document json =>
      cases json with
      | object members =>
          simp only [level]
          rw [Except.mapM_congr fun p member => by rw [agree _ (.member member)]]
      | array items =>
          simp only [level]
          rw [Except.mapM_congr fun item member => agree _ (.node member)]
      | null | bool | number | string => rfl
  | context depth json =>
      cases json with
      | string url =>
          simp only [level]
          cases found : Context.loadContext loader url with
          | error e => rfl
          | ok inner => exact agree _ (.reference found)
      | array items =>
          simp only [level]
          rw [Except.mapM_congr fun item member => agree _ (.item member)]
      | object members =>
          simp only [level]
          cases found : withImport loader members with
          | error e => rfl
          | ok merged =>
              have same : definitions (fun inner => answer (.context (depth + 1) inner)) merged =
                  definitions (fun inner => answer' (.context (depth + 1) inner)) merged :=
                definitions_congr fun term d inner member context =>
                  agree _ (.definition found member context)
              show (definitions _ merged >>= _) = (definitions _ merged >>= _)
              rw [same]
      | null | bool | number => rfl

theorem exists_ok {out : Json} (done : level loader answer job = .ok out)
    (makes : Makes loader job inner) : ∃ out, answer inner = .ok out := by
  cases makes with
  | member member =>
      obtain ⟨made, all, -⟩ := Except.map_eq_ok_iff.mp done
      obtain ⟨q, -, one⟩ := (Except.mapM_eq_ok_iff.mp all).exists_of_mem_left member
      obtain ⟨out, answered, -⟩ := Except.map_eq_ok_iff.mp one
      exact ⟨out, answered⟩
  | node member =>
      obtain ⟨made, all, -⟩ := Except.map_eq_ok_iff.mp done
      obtain ⟨out, -, answered⟩ := (Except.mapM_eq_ok_iff.mp all).exists_of_mem_left member
      exact ⟨out, answered⟩
  | item member =>
      obtain ⟨made, all, -⟩ := Except.map_eq_ok_iff.mp done
      obtain ⟨out, -, answered⟩ := (Except.mapM_eq_ok_iff.mp all).exists_of_mem_left member
      exact ⟨out, answered⟩
  | reference found =>
      rw [level, found] at done
      exact ⟨out, done⟩
  | definition found member context =>
      obtain ⟨merged, found', done⟩ := Except.bind_eq_ok_iff.mp done
      cases found.symm.trans found'
      obtain ⟨made, defined, -⟩ := Except.bind_eq_ok_iff.mp done
      exact exists_of_mem_definitions defined member context

end Job

def inlining (loader : Loader) : Recursion Job DocumentError Json where
  depth := Job.depth
  tooDeep := .context .tooDeep
  level := Job.level loader
  Makes _ := Job.Makes loader
  level_congr agree := Job.level_congr fun inner makes => agree inner makes makes
  makes_congr _ makes := makes
  exists_ok := Job.exists_ok

variable {loader : Loader}

/-! ## Every job ends -/

theorem members_eq_mapM (members : Json.Members) :
    Inline.members loader members =
      members.mapM fun p => (memberWith loader p.1 p.2).map (p.1, ·) := by
  induction members with
  | nil => rfl
  | cons p rest ih =>
      rw [members_cons, List.mapM_cons, ih]
      cases memberWith loader p.1 p.2 <;> rfl

theorem itemsWith_eq_mapM {nested : Nested} (items : List Json) :
    itemsWith loader nested items =
      (items.mapM (contextWith loader nested)).map fun made => made.foldr splice [] := by
  induction items with
  | nil => rfl
  | cons item rest ih =>
      rw [itemsWith, List.mapM_cons, ih]
      cases contextWith loader nested item with
      | error e => rfl
      | ok first =>
          cases rest.mapM (contextWith loader nested) with
          | error e => rfl
          | ok others => cases first <;> rfl

def Job.answer (loader : Loader) : Job → Except DocumentError Json
  | .document json => Inline.document loader json
  | .context depth json => Inline.context loader (maxContextDepth + 1 - depth) json

theorem Job.answer_ofMember (p : String × Json) :
    (ofMember p).answer loader = memberWith loader p.1 p.2 := by
  unfold ofMember memberWith
  split <;> rfl

theorem Job.level_answer (job : Job) (within : job.depth ≤ maxContextDepth) :
    level loader (answer loader) job = job.answer loader := by
  cases job with
  | document json =>
      cases json with
      | object members =>
          simp only [level, answer_ofMember]
          rw [← members_eq_mapM, answer, Inline.document]
          cases Inline.members loader members <;> rfl
      | array items =>
          simp only [level, answer, Inline.document, items_eq_mapM]
          cases items.mapM (Inline.document loader) <;> rfl
      | null | bool | number | string => rfl
  | context depth json =>
      obtain ⟨budget, left⟩ : ∃ budget, maxContextDepth + 1 - depth = budget + 1 :=
        Nat.exists_eq_add_one.mpr (Nat.sub_pos_of_lt (Nat.lt_succ_of_le within))
      have below : maxContextDepth + 1 - (depth + 1) = budget := by omega
      cases json with
      | array items =>
          simp only [level, answer, left, Inline.context, contextWith, itemsWith_eq_mapM]
          cases items.mapM (contextWith loader (Inline.context loader budget)) <;> rfl
      | string url => simp only [level, answer, left, below, Inline.context, contextWith]
      | object members => simp only [level, answer, left, below, Inline.context, contextWith]
      | null | bool | number => simp only [level, answer, left, Inline.context, contextWith]

/-- What is left of the limit, and then the size of the value; documents come before contexts. -/
noncomputable def Job.rank : Job → Nat ×ₗ Nat
  | .document json => toLex (maxContextDepth + 2, sizeOf json)
  | .context depth json => toLex (maxContextDepth + 1 - depth, sizeOf json)

theorem Job.rank_lt {job inner : Job} (within : job.depth ≤ maxContextDepth)
    (makes : Makes loader job inner) : inner.rank < job.rank := by
  cases makes with
  | @member members p member =>
      unfold ofMember
      split
      · rw [rank, rank, Prod.Lex.toLex_lt_toLex]
        exact Or.inl (by dsimp only; omega)
      · rw [rank, rank, Prod.Lex.toLex_lt_toLex]
        refine Or.inr ⟨rfl, ?_⟩
        have inside := List.sizeOf_lt_of_mem member
        have value : sizeOf p = 1 + sizeOf p.1 + sizeOf p.2 := Prod.mk.sizeOf_spec p.1 p.2
        rw [Json.object.sizeOf_spec]
        omega
  | node member | item member =>
      rw [rank, rank, Prod.Lex.toLex_lt_toLex]
      refine Or.inr ⟨rfl, ?_⟩
      have inside := List.sizeOf_lt_of_mem member
      rw [Json.array.sizeOf_spec]
      omega
  | reference | definition =>
      rw [rank, rank, Prod.Lex.toLex_lt_toLex]
      exact Or.inl (by simp only [depth] at within; dsimp only; omega)

/-- Making a document self-contained ends, and with what `inlineContexts` answers. -/
theorem evaluates_inlineContexts_iff (doc : Json) (result : Except DocumentError Json) :
    (inlining loader).Evaluates maxContextDepth (.document doc) result ↔
      result = inlineContexts loader doc := by
  have ends : (inlining loader).Evaluates maxContextDepth (.document doc)
      (Job.answer loader (.document doc)) := by
    refine Recursion.evaluates_of_rank Job.rank (fun job below => ?_)
      (fun job within => job.level_answer (Nat.cast_le.mp within))
      (fun job inner within => Job.rank_lt (Nat.cast_le.mp within)) _
    have below : maxContextDepth < job.depth := Nat.cast_lt.mp below
    cases job with
    | document json => cases below
    | context depth json =>
        have spent : maxContextDepth + 1 - depth = 0 := Nat.sub_eq_zero_of_le below
        rw [Job.answer, spent]
        rfl
  exact ⟨fun evaluates => evaluates.unique ends, fun same => same ▸ ends⟩

/-! ## Contexts that come back -/

/-- A context leads to itself. -/
def Cyclic (loader : Loader) (depth : Nat) (json : Json) : Prop :=
  ∃ depth', TransGen (inlining loader).Follows (.context depth json) (.context depth' json)

def SameContext (job job' : Job) : Prop :=
  ∃ depth depth' json, job = .context depth json ∧ job' = .context depth' json

theorem Cyclic.not_evaluates {depth : Nat} {json : Json} (cyclic : Cyclic loader depth json)
    (out : Json) : ¬ (inlining loader).Evaluates ⊤ (.context depth json) (.ok out) := by
  obtain ⟨again, way⟩ := cyclic
  have repeats : (inlining loader).Repeats (inlining loader).Follows SameContext := by
    rintro job next job' follows ⟨depth, depth', json, rfl, rfl⟩ -
    cases follows with
    | item member => exact ⟨_, .item member, depth, depth', _, rfl, rfl⟩
    | reference found => exact ⟨_, .reference found, depth + 1, depth' + 1, _, rfl, rfl⟩
    | definition found member context =>
        exact ⟨_, .definition found member context, depth + 1, depth' + 1, _, rfl, rfl⟩
  refine repeats.not_evaluates way ⟨depth, depth, json, rfl, rfl⟩ ?_ out
  rintro job' ⟨_, depth', _, same, rfl⟩
  cases same
  exact ⟨depth, depth', json, rfl, rfl⟩

end Inline

/-- Whatever a loader answers, parsing a context and making a document self-contained end.  They
have a result exactly if there is one without a limit, which is then the same, and no chain of
references, or of references and contexts of terms, has more links than the limit.  A reference that
leads back to itself has none. -/
theorem references_limited (loader : Loader) :
    (∀ (ctx : Context) (json : Json),
      let run := Context.processing loader
      let start : Context.Call := ⟨0, ctx, json⟩
      (∀ result, run.Evaluates maxContextDepth start result ↔ result = ctx.parse loader json) ∧
        (∀ out, ctx.parse loader json = .ok out ↔ run.Evaluates ⊤ start (.ok out) ∧
          ∀ call, ReflTransGen run.Follows start call → call.depth ≤ maxContextDepth) ∧
        ∀ call, ReflTransGen run.Follows start call → Context.Cyclic loader call →
          ∃ e, ctx.parse loader json = .error e) ∧
    ∀ doc : Json,
      let run := Inline.inlining loader
      let start : Inline.Job := .document doc
      (∀ result, run.Evaluates maxContextDepth start result ↔
          result = inlineContexts loader doc) ∧
        (∀ out, inlineContexts loader doc = .ok out ↔ run.Evaluates ⊤ start (.ok out) ∧
          ∀ job, ReflTransGen run.Follows start job → job.depth ≤ maxContextDepth) ∧
        ∀ depth json, ReflTransGen run.Follows start (.context depth json) →
          Inline.Cyclic loader depth json → ∃ e, inlineContexts loader doc = .error e := by
  constructor
  · intro ctx json run start
    have ends : run.Evaluates maxContextDepth start (ctx.parse loader json) :=
      (Context.evaluates_parse_iff ctx json _).mpr rfl
    exact ⟨Context.evaluates_parse_iff ctx json, fun out => ends.ok_iff,
      fun call way cyclic => ends.exists_error way cyclic.not_evaluates⟩
  · intro doc run start
    have ends : run.Evaluates maxContextDepth start (inlineContexts loader doc) :=
      (Inline.evaluates_inlineContexts_iff doc _).mpr rfl
    exact ⟨Inline.evaluates_inlineContexts_iff doc, fun out => ends.ok_iff,
      fun depth json way cyclic => ends.exists_error way cyclic.not_evaluates⟩

/-- A relative reference that leads to itself, and a term whose own context leads to it, which only
makes a document endless. -/
theorem references_limited_of_cycles :
    let person := "https://example.com/person"
    let knows : String × Json :=
      ("knows", .object [("@context", .string person), ("@id", .string "urn:knows")])
    let loader := Loader.ofDocuments
      [(person, .object [("@context", .object [knows])]),
       ("https://example.com/self", .object [("@context", .string "self")])]
    let ctx := Context.withBase "https://example.com/"
    let doc : Json := .object [("@context", .string person)]
    (Context.Cyclic loader ⟨0, ctx, .string "self"⟩ ∧
        ∃ e, ctx.parse loader (.string "self") = .error e) ∧
      (∃ out, ctx.parse loader (.string person) = .ok out) ∧
      Inline.Cyclic loader 0 (.string person) ∧ ∃ e, inlineContexts loader doc = .error e := by
  intro person knows loader ctx doc
  obtain ⟨parsing, inlining⟩ := references_limited loader
  have resolved : ctx.resolveReference "self" = "https://example.com/self" := by decide +kernel
  have turns : Context.Cyclic loader ⟨0, ctx, .string "self"⟩ := by
    refine ⟨⟨1, ctx, .string "self"⟩, rfl, Or.inl ⟨.single (.reference ?_), rfl⟩⟩
    rw [resolved]
    rfl
  have nested : Inline.Cyclic loader 0 (.string person) := by
    have imported : Inline.withImport loader [knows] = .ok [knows] := rfl
    exact ⟨2, .tail (.single (.reference rfl))
      (.definition imported (List.mem_singleton_self knows) rfl)⟩
  have parsed : (ctx.parse loader (.string person)).passes fun _ => true := by decide +kernel
  obtain ⟨out, done, -⟩ := Except.exists_of_passes parsed
  refine ⟨⟨turns, (parsing ctx (.string "self")).2.2 _ .refl turns⟩, ⟨out, done⟩, nested, ?_⟩
  refine (inlining doc).2.2 0 (.string person) (.single ?_) nested
  exact .member (List.mem_singleton_self _)

/-- One reference more than the limit is one too many. -/
example :
    let loader (last : Nat) : Loader := fun url => .ok <| .mk url <| .object
      [("@context", if url.length < last then .string (url ++ "/") else .object [])]
    let parsed (last : Nat) := Context.empty.parse (loader last) (.string "u")
    ((parsed 32).passes fun _ => true) = true ∧
      ((parsed 33).fails fun e => e = .context .tooDeep) = true := by decide +kernel

end LinkedCommit
