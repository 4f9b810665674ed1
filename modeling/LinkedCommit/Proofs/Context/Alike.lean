import LinkedCommit.Context.Process
import LinkedCommit.Proofs.NameMap
import LinkedCommit.Proofs.Result
/-!
# Contexts alike but for the contexts of terms

The context of a term is kept with its definition and has no part in what is defined.  So local
contexts whose definitions differ in the contexts of terms alone (`Terms.Alike`), applied to active
contexts that differ in these alone (`Context.Alike`), give such active contexts again, or the same
error (`Context.applyMembers_alike`).
-/

set_option autoImplicit false

namespace LinkedCommit

variable {S : Json → Json → Prop}

/-- One definition but for the contexts of the term, which `S` relates. -/
structure TermDefinition.Alike (S : Json → Json → Prop) (d d' : TermDefinition) : Prop where
  rest : d' = { d with scopedContext := d'.scopedContext }
  nested : Option.Rel S d.scopedContext d'.scopedContext

theorem TermDefinition.Alike.id {d d' : TermDefinition} (alike : Alike S d d') : d'.id = d.id := by
  rw [alike.rest]

theorem TermDefinition.Alike.withId {d d' : TermDefinition} (alike : Alike S d d')
    (id : Option String) : Alike S { d with id } { d' with id } := by
  obtain ⟨rest, nested⟩ := alike
  refine ⟨?_, nested⟩
  rw [rest]

namespace Terms

/-- One value in the place of a definition, but for the contexts that `S` relates. -/
inductive Alike (S : Json → Json → Prop) : Json → Json → Prop
  | same {value : Json}
      (plain : ∀ d, value = .object d → NameMap.get? d "@context" = none) : Alike S value value
  | replaced {d : Json.Members} {inner inner' : Json}
      (found : NameMap.get? d "@context" = some inner) (related : S inner inner') :
      Alike S (.object d) (.object (NameMap.insert d "@context" inner'))

/-- Members that agree but for the contexts that `S` relates. -/
structure Alike.Members (S : Json → Json → Prop) (m m' : Json.Members) : Prop where
  rest : ∀ key, key ≠ "@context" → NameMap.get? m' key = NameMap.get? m key
  nested : Option.Rel S (NameMap.get? m "@context") (NameMap.get? m' "@context")

/-- Values alike are the same, or objects whose members are. -/
theorem Alike.eq_or_object {value value' : Json} (alike : Alike S value value') :
    (value' = value ∧ ∀ m, value ≠ .object m) ∨
      ∃ m m', value = .object m ∧ value' = .object m' ∧ Alike.Members S m m' := by
  cases alike with
  | same plain =>
      cases value with
      | object m =>
          refine Or.inr ⟨m, m, rfl, rfl, fun _ _ => rfl, ?_⟩
          rw [plain m rfl]
          exact .none
      | null | bool | number | string | array => exact Or.inl ⟨rfl, nofun⟩
  | @replaced d inner inner' found related =>
      refine Or.inr ⟨d, _, rfl, rfl, fun key differ => NameMap.get?_insert_of_ne _ _ differ, ?_⟩
      rw [found, NameMap.get?_insert_self]
      exact .some related

/-! ## States -/

structure State.Alike (S : Json → Json → Prop) (s s' : State) : Prop where
  terms : NameMap.Related (TermDefinition.Alike S) s.terms s'.terms
  progress : s'.progress = s.progress

structure Scope.Alike (S : Json → Json → Prop) (scope scope' : Scope) : Prop where
  members : NameMap.Related (Terms.Alike S) scope.members scope'.members
  vocab : scope'.vocab = scope.vocab

def Define.Alike (S : Json → Json → Prop) (define define' : Define) : Prop :=
  ∀ term s s', State.Alike S s s' →
    Except.Related (State.Alike S) (define term s) (define' term s')

def Answer.Alike {α : Type} (S : Json → Json → Prop) (p q : α × State) : Prop :=
  q.1 = p.1 ∧ State.Alike S p.2 q.2

theorem expandCompact_alike {terms terms' : NameMap TermDefinition}
    (alike : NameMap.Related (TermDefinition.Alike S) terms terms') (term rest whole : String) :
    Context.expandCompact terms' term rest whole = Context.expandCompact terms term rest whole := by
  have found := alike.get? term
  unfold Context.expandCompact
  generalize NameMap.get? terms term = old, NameMap.get? terms' term = new at found
  cases found with
  | none => rfl
  | some definitions => simp only [Option.bind_some, definitions.id]

section

variable {scope scope' : Scope} {define define' : Define} {s s' : State}

theorem require_alike (scopes : Scope.Alike S scope scope')
    (defines : Define.Alike S define define') (states : State.Alike S s s') (text : String) :
    Except.Related (State.Alike S) (require scope define text s)
      (require scope' define' text s') := by
  unfold require
  rw [scopes.members.contains]
  split
  · exact defines text s s' states
  · exact .ok states

theorem expandForm_alike (scopes : Scope.Alike S scope scope')
    (defines : Define.Alike S define define') (states : State.Alike S s s') (text : String) :
    Except.Related (Answer.Alike S) (expandForm scope define text s)
      (expandForm scope' define' text s') := by
  unfold expandForm
  split
  · exact .ok ⟨rfl, states⟩
  · refine (require_alike scopes defines states _).bind fun s s' states => .ok ⟨?_, states⟩
    rw [expandCompact_alike states.terms]
  · exact .ok ⟨by rw [scopes.vocab], states⟩

theorem expand_alike (scopes : Scope.Alike S scope scope') (defines : Define.Alike S define define')
    (states : State.Alike S s s') (text : String) :
    Except.Related (Answer.Alike S) (expand scope define text s)
      (expand scope' define' text s') := by
  unfold expand
  split
  · exact .ok ⟨rfl, states⟩
  · refine (require_alike scopes defines states text).bind fun s s' states => ?_
    have found := states.terms.get? text
    generalize NameMap.get? s.terms text = old, NameMap.get? s'.terms text = new at found
    cases found with
    | none => exact expandForm_alike scopes defines states text
    | some definitions => exact .ok ⟨definitions.id, states⟩

theorem identify_alike (scopes : Scope.Alike S scope scope')
    (defines : Define.Alike S define define') (states : State.Alike S s s') (term : String)
    (target : Target) :
    Except.Related (Answer.Alike S) (identify scope define term target s)
      (identify scope' define' term target s') := by
  unfold identify
  split
  · exact .ok ⟨rfl, states⟩
  · split
    · exact .ok ⟨rfl, states⟩
    · split
      · exact expandForm_alike scopes defines states _
      · refine (expand_alike scopes defines states _).bind ?_
        rintro ⟨id, s⟩ ⟨id', s'⟩ ⟨same, states⟩
        exact .ok ⟨by rw [show id' = id from same], states⟩
  · split
    · exact expandForm_alike scopes defines states _
    · exact .ok ⟨by rw [scopes.vocab], states⟩

theorem typeMapping_alike (scopes : Scope.Alike S scope scope')
    (defines : Define.Alike S define define') (states : State.Alike S s s') (term : String)
    {m m' : Json.Members} (members : Alike.Members S m m') :
    Except.Related (Answer.Alike S) (typeMapping scope define term m s)
      (typeMapping scope' define' term m' s') := by
  unfold typeMapping
  rw [members.rest "@type" (by decide)]
  split
  · exact .ok ⟨rfl, states⟩
  · refine (expand_alike scopes defines states _).bind ?_
    rintro ⟨id, s⟩ ⟨id', s'⟩ ⟨same, states⟩
    exact .ok ⟨by rw [show id' = id from same], states⟩
  · exact .error _

theorem describe_alike (scopes : Scope.Alike S scope scope')
    (defines : Define.Alike S define define') (states : State.Alike S s s') (term : String)
    {m m' : Json.Members} (members : Alike.Members S m m') :
    Except.Related (fun p q => TermDefinition.Alike S p.1 q.1 ∧ Answer.Alike S p.2 q.2)
      (describe scope define term m s) (describe scope' define' term m' s') := by
  have targets : target term m' = target term m := by
    unfold target
    rw [members.rest "@id" (by decide), members.rest "@reverse" (by decide)]
  have lists : containers term m' = containers term m := by
    unfold containers
    rw [members.rest "@container" (by decide)]
  unfold describe
  rw [targets, lists]
  refine (Except.Related.refl (fun _ => rfl) (target term m)).bind ?_
  rintro target _ rfl
  refine (typeMapping_alike scopes defines states term members).bind ?_
  rintro ⟨mapping, s⟩ ⟨mapping', s'⟩ ⟨same, states⟩
  cases same
  refine (Except.Related.refl (fun _ => rfl) (containers term m)).bind ?_
  rintro container _ rfl
  refine .ok ⟨⟨?_, members.nested⟩, rfl, states⟩
  simp only [isStringMember, members.rest "@reverse" (by decide),
    members.rest "@language" (by decide), members.rest "@protected" (by decide)]

/-- A definition with its target, given its identifier and put among the others. -/
def finish (scope : Scope) (define : Define) (term : String)
    (described : TermDefinition × Target × State) : Except ContextError State := do
  let (d, target, s) := described
  let (id, s) ← identify scope define term target s
  return { s with
    terms := NameMap.insert s.terms term { d with id }
    progress := NameMap.insert s.progress term .finished }

theorem finish_alike (scopes : Scope.Alike S scope scope')
    (defines : Define.Alike S define define') (term : String)
    (described described' : TermDefinition × Target × State)
    (definitions : TermDefinition.Alike S described.1 described'.1)
    (answers : Answer.Alike S described.2 described'.2) :
    Except.Related (State.Alike S) (finish scope define term described)
      (finish scope' define' term described') := by
  obtain ⟨d, target, s⟩ := described
  obtain ⟨d', target', s'⟩ := described'
  obtain ⟨same, states⟩ := answers
  dsimp only at definitions same states
  subst same
  refine (identify_alike scopes defines states term target').bind ?_
  rintro ⟨id, s⟩ ⟨id', s'⟩ ⟨same, states⟩
  dsimp only at same states
  subst same
  refine .ok ⟨states.terms.insert term (definitions.withId id'), ?_⟩
  rw [states.progress]

theorem defineValue_alike (scopes : Scope.Alike S scope scope')
    (defines : Define.Alike S define define') (states : State.Alike S s s') (term : String)
    {value value' : Json} (values : Terms.Alike S value value') :
    Except.Related (State.Alike S) (defineValue scope define term value s)
      (defineValue scope' define' term value' s') := by
  rcases values.eq_or_object with ⟨rfl, notObject⟩ | ⟨m, m', rfl, rfl, members⟩
  · cases value' with
    | null =>
        exact finish_alike scopes defines term (.empty, .nothing, s) (.empty, .nothing, s')
          ⟨rfl, .none⟩ ⟨rfl, states⟩
    | string raw =>
        exact finish_alike scopes defines term (.empty, .text raw, s) (.empty, .text raw, s')
          ⟨rfl, .none⟩ ⟨rfl, states⟩
    | object m => exact absurd rfl (notObject m)
    | bool | number | array => exact .error _
  · exact (describe_alike scopes defines states term members).bind fun described described' alike =>
      finish_alike scopes defines term described described' alike.1 alike.2

end

theorem define_alike {scope scope' : Scope} (scopes : Scope.Alike S scope scope') (fuel : Nat) :
    Define.Alike S (define scope fuel) (define scope' fuel) := by
  -- On the fuel: a definition leads to others with one less.
  induction fuel with
  | zero => exact fun _ _ _ _ => .error _
  | succ fuel ih =>
      intro term s s' states
      rw [define, define, states.progress]
      split
      · exact .ok states
      · exact .error _
      · have found := scopes.members.get? term
        generalize NameMap.get? scope.members term = old,
          NameMap.get? scope'.members term = new at found
        cases found with
        | none => exact .ok states
        | some values =>
            refine defineValue_alike scopes ih ?_ term values
            exact ⟨states.terms, rfl⟩

theorem defineAll_alike {members members' : Json.Members}
    (alike : NameMap.Related (Terms.Alike S) members members') (vocab : Option String)
    {terms terms' : NameMap TermDefinition}
    (definitions : NameMap.Related (TermDefinition.Alike S) terms terms') :
    Except.Related (NameMap.Related (TermDefinition.Alike S)) (defineAll members vocab terms)
      (defineAll members' vocab terms') := by
  unfold defineAll
  rw [alike.keys, ← List.Forall₂.length_eq alike]
  have scopes : Scope.Alike S ⟨members, vocab⟩ ⟨members', vocab⟩ := ⟨alike, rfl⟩
  have start : State.Alike S ⟨terms, []⟩ ⟨terms', []⟩ := ⟨definitions, rfl⟩
  exact (Except.Related.foldlM (fun s s' term _ => define_alike scopes _ term s s') start).bind
    fun s s' states => .ok states.terms

end Terms

/-! ## Active contexts -/

/-- One active context but for the contexts of terms, which `S` relates. -/
structure Context.Alike (S : Json → Json → Prop) (ctx ctx' : Context) : Prop where
  terms : NameMap.Related (TermDefinition.Alike S) ctx.terms ctx'.terms
  vocab : ctx'.vocab = ctx.vocab
  base : ctx'.base = ctx.base
  language : ctx'.language = ctx.language

namespace Context

theorem Alike.empty : Alike S Context.empty Context.empty := ⟨.nil, rfl, rfl, rfl⟩

variable {ctx ctx' : Context}

theorem resolveReference_of_base (same : ctx'.base = ctx.base) (reference : String) :
    ctx'.resolveReference reference = ctx.resolveReference reference := by
  unfold Context.resolveReference expandByBase?
  rw [same]

theorem Alike.resolveReference (alike : Alike S ctx ctx') (reference : String) :
    ctx'.resolveReference reference = ctx.resolveReference reference :=
  resolveReference_of_base alike.base reference

theorem Alike.expand? (alike : Alike S ctx ctx') (text : String) (vocab : Bool) :
    ctx'.expand? text vocab = ctx.expand? text vocab := by
  have found := alike.terms.get? text
  unfold Context.expand? Context.expandByBase? Context.term?
  simp only [alike.vocab, alike.base, Terms.expandCompact_alike alike.terms]
  generalize NameMap.get? ctx.terms text = old, NameMap.get? ctx'.terms text = new at found
  cases found with
  | none => rfl
  | some definitions => simp only [definitions.id]

variable {members members' : Json.Members}

/-- What is left of an object when nothing is to be imported. -/
def applyMembers (ctx : Context) (members : Json.Members) : Except ContextError Context := do
  let ctx ← applyBase ctx members
  let ctx := applyLanguage (← applyVocab ctx members) members
  return { ctx with terms := ← Terms.defineAll members ctx.vocab ctx.terms }

theorem applyObject_of_withImport {loader : Loader} {merged : Json.Members}
    (imported : withImport loader ctx members = .ok merged) :
    applyObject loader ctx members = (applyMembers ctx merged).mapError .context := by
  rw [applyObject, imported]
  rfl

theorem applyBase_alike (contexts : Alike S ctx ctx')
    (alike : NameMap.Related (Terms.Alike S) members members') :
    Except.Related (Alike S) (applyBase ctx members) (applyBase ctx' members') := by
  have found := alike.get? "@base"
  unfold applyBase
  generalize NameMap.get? members "@base" = old, NameMap.get? members' "@base" = new at found
  cases found with
  | none => exact .ok contexts
  | some values =>
      rcases values.eq_or_object with ⟨rfl, notObject⟩ | ⟨m, m', rfl, rfl, -⟩
      · split
        · rename_i absent
          cases absent
        · exact .ok { contexts with base := rfl }
        · refine .ok { contexts with base := ?_ }
          rw [contexts.resolveReference]
        · exact .error _
      · exact .error _

theorem applyVocab_alike (contexts : Alike S ctx ctx')
    (alike : NameMap.Related (Terms.Alike S) members members') :
    Except.Related (Alike S) (applyVocab ctx members) (applyVocab ctx' members') := by
  have found := alike.get? "@vocab"
  unfold applyVocab
  generalize NameMap.get? members "@vocab" = old, NameMap.get? members' "@vocab" = new at found
  cases found with
  | none => exact .ok contexts
  | some values =>
      rcases values.eq_or_object with ⟨rfl, notObject⟩ | ⟨m, m', rfl, rfl, -⟩
      · split
        · rename_i absent
          cases absent
        · exact .ok { contexts with vocab := rfl }
        · refine .ok { contexts with vocab := ?_ }
          rw [contexts.expand?]
        · exact .error _
      · exact .error _

theorem applyLanguage_alike (contexts : Alike S ctx ctx')
    (alike : NameMap.Related (Terms.Alike S) members members') :
    Alike S (applyLanguage ctx members) (applyLanguage ctx' members') := by
  have found := alike.get? "@language"
  unfold applyLanguage
  generalize NameMap.get? members "@language" = old,
    NameMap.get? members' "@language" = new at found
  cases found with
  | none => exact contexts
  | some values =>
      rcases values.eq_or_object with ⟨rfl, -⟩ | ⟨m, m', rfl, rfl, -⟩
      · exact { contexts with language := rfl }
      · exact { contexts with language := rfl }

theorem applyMembers_alike (contexts : Alike S ctx ctx')
    (alike : NameMap.Related (Terms.Alike S) members members') :
    Except.Related (Alike S) (applyMembers ctx members) (applyMembers ctx' members') := by
  unfold applyMembers
  refine (applyBase_alike contexts alike).bind fun ctx ctx' contexts => ?_
  refine (applyVocab_alike contexts alike).bind fun ctx ctx' contexts => ?_
  have contexts := applyLanguage_alike contexts alike
  dsimp only
  rw [contexts.vocab]
  exact (Terms.defineAll_alike alike _ contexts.terms).bind fun terms terms' definitions =>
    .ok { contexts with terms := definitions, vocab := rfl }

end Context

end LinkedCommit
