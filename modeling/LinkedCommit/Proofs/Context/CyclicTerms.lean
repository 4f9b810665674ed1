import LinkedCommit.Proofs.Context.TermOrder
/-!
# Terms that need themselves

Which terms must be defined before another one can be read off a local context without defining
anything (`Needs`).  If all definitions that the terms lead to are well-formed, the only thing that
can go wrong is a term that needs itself: `define_error` finds one on the way of every failure, and
`Means.not_cyclic` lets none pass.  So processing fails as cyclic exactly if there is a circle that
some term leads to, and otherwise defines every term (`Context.parse_cyclic_iff`).

A term is begun once at most, so definitions are never nested deeper than the number of terms, and
the bound on their nesting is never what stops them (`define_eq_of_room`).
-/

set_option autoImplicit false

namespace LinkedCommit

namespace Terms

open Relation (ReflTransGen TransGen)

variable {scope : Scope} {old : NameMap TermDefinition}

/-! ## How deep definitions are nested -/

/-- Two computations end alike, and neither for want of room to begin a definition. -/
structure EndsAlike {α : Type} (result result' : Except ContextError α) : Prop where
  same : result = result'
  within : ∀ t, result ≠ .error (.unfinished t)

namespace EndsAlike

variable {α β : Type} {result result' : Except ContextError α}

theorem ok (a : α) : EndsAlike (.ok a) (.ok a) := ⟨rfl, nofun⟩

theorem bind {next next' : α → Except ContextError β} (alike : EndsAlike result result')
    (after : ∀ a, result = .ok a → EndsAlike (next a) (next' a)) :
    EndsAlike (result >>= next) (result' >>= next') := by
  obtain ⟨rfl, within⟩ := alike
  cases ended : result with
  | error e =>
      refine ⟨rfl, fun t failed => within t ?_⟩
      cases failed
      exact ended
  | ok a => exact after a ended

theorem map (alike : EndsAlike result result') (f : α → β) :
    EndsAlike (result.map f) (result'.map f) := by
  obtain ⟨rfl, within⟩ := alike
  exact ⟨rfl, fun t failed => within t (Except.map_eq_error_iff.mp failed)⟩

end EndsAlike

def targetById (term : String) (m : Json.Members) : Except ContextError Target :=
  match NameMap.get? m "@id" with
  | none => .ok .implicit
  | some .null => .ok .nothing
  | some (.string s) => .ok (.text s)
  | some _ => .error (.idNotString term)

theorem target_eq (term : String) (m : Json.Members) :
    Terms.target term m = (targetById term m).map fun byId =>
      ((NameMap.get? m "@reverse").bind Json.string?).elim byId .text := by
  unfold Terms.target targetById
  cases NameMap.get? m "@id" with
  | none => cases NameMap.get? m "@reverse" with
    | none => rfl
    | some v => cases v <;> rfl
  | some byId => cases byId with
    | bool | number | array | object => rfl
    | null | string => cases NameMap.get? m "@reverse" with
      | none => rfl
      | some v => cases v <;> rfl

theorem target_ends (term : String) (m : Json.Members) :
    EndsAlike (target term m) (target term m) := by
  have byId : EndsAlike (targetById term m) (targetById term m) := by
    refine ⟨rfl, fun t => ?_⟩
    unfold targetById
    split <;> nofun
  rw [target_eq]
  exact byId.map _

theorem typeText_ends (term : String) (m : Json.Members) :
    EndsAlike (typeText term m) (typeText term m) := by
  refine ⟨rfl, fun t => ?_⟩
  unfold typeText
  split <;> nofun

theorem containers_ends (term : String) (m : Json.Members) :
    EndsAlike (containers term m) (containers term m) := by
  refine ⟨rfl, fun t => ?_⟩
  unfold containers
  split <;> nofun

section Congruence

variable {define define' : Define} {s : State}

/-- Two ways to define a term that end alike wherever no more and no fewer terms are begun. -/
def Define.AgreeAt (scope : Scope) (old : NameMap TermDefinition) (s : State)
    (define define' : Define) : Prop :=
  ∀ name s₁, Consistent scope old s₁ → (∀ u, s₁.Started u ↔ s.Started u) →
    EndsAlike (define name s₁) (define' name s₁)

theorem Define.AgreeAt.later {s' : State} (agree : Define.AgreeAt scope old s define define')
    (same : ∀ u, s'.Started u ↔ s.Started u) : Define.AgreeAt scope old s' define define' :=
  fun name s₁ consistent started => agree name s₁ consistent fun u =>
    (started u).trans (same u)

theorem requireAll_congr (sound : Sound scope old define) (names : List String)
    (consistent : Consistent scope old s) (agree : Define.AgreeAt scope old s define define') :
    EndsAlike (requireAll define names s) (requireAll define' names s) := by
  induction names generalizing s with
  | nil => exact .ok s
  | cons name rest ih =>
      rw [← List.singleton_append, requireAll_append, requireAll_append, requireAll_singleton,
        requireAll_singleton]
      apply (agree name s consistent fun _ => Iff.rfl).bind
      intro s₁ first
      have grown := sound name s s₁ consistent first
      exact ih grown.consistent (agree.later grown.started)

theorem finish_congr (sound : Sound scope old define) (sound' : Sound scope old define')
    (consistent : Consistent scope old s) (agree : Define.AgreeAt scope old s define define')
    (term : String) (d : TermDefinition) (target : Target) :
    EndsAlike (finish scope define term (d, target, s))
      (finish scope define' term (d, target, s)) := by
  rw [finish_eq sound consistent, finish_eq sound' consistent]
  exact (requireAll_congr sound _ consistent agree).map _

theorem typeMapping_congr (sound : Sound scope old define) (sound' : Sound scope old define')
    (consistent : Consistent scope old s) (agree : Define.AgreeAt scope old s define define')
    (term : String) (m : Json.Members) :
    EndsAlike (typeMapping scope define term m s) (typeMapping scope define' term m s) := by
  rw [typeMapping_eq sound consistent, typeMapping_eq sound' consistent]
  exact (typeText_ends term m).bind fun text _ => (requireAll_congr sound _ consistent agree).map _

theorem describe_congr (sound : Sound scope old define) (sound' : Sound scope old define')
    (consistent : Consistent scope old s) (agree : Define.AgreeAt scope old s define define')
    (term : String) (m : Json.Members) :
    EndsAlike (describe scope define term m s) (describe scope define' term m s) := by
  unfold describe
  apply (target_ends term m).bind
  intro target _
  apply (typeMapping_congr sound sound' consistent agree term m).bind
  intro typed _
  apply (containers_ends term m).bind
  intro container _
  exact .ok _

theorem defineValue_congr (sound : Sound scope old define) (sound' : Sound scope old define')
    (consistent : Consistent scope old s) (agree : Define.AgreeAt scope old s define define')
    (term : String) (value : Json) :
    EndsAlike (defineValue scope define term value s) (defineValue scope define' term value s) := by
  cases value with
  | null => exact finish_congr sound sound' consistent agree term .empty .nothing
  | string raw => exact finish_congr sound sound' consistent agree term .empty (.text raw)
  | bool | number | array => exact ⟨rfl, nofun⟩
  | object m =>
      show EndsAlike (describe scope define term m s >>= finish scope define term)
        (describe scope define' term m s >>= finish scope define' term)
      apply (describe_congr sound sound' consistent agree term m).bind
      rintro ⟨d, target, s₁⟩ described
      obtain ⟨draft, read⟩ := exists_draft_of_describe described
      rw [describe_eq sound consistent read, Except.map_eq_ok_iff] at described
      obtain ⟨s₂, typed, same⟩ := described
      cases same
      have grown := requireAll_grown sound _ consistent typed
      exact finish_congr sound sound' grown.consistent (agree.later grown.started) term _ _

end Congruence

/-- Two bounds on the nesting give one answer as long as they leave room for all terms, and are not
what stops the definition then. -/
theorem define_eq_of_room (fuel fuel' : Nat) (term : String) {s : State} {begun : List String}
    (consistent : Consistent scope old s) (underway : Underway scope s begun)
    (room : scope.members.length < begun.length + fuel)
    (room' : scope.members.length < begun.length + fuel') :
    EndsAlike (define scope fuel term s) (define scope fuel' term s) := by
  -- on the bound: what is needed is defined with one more term begun, and one bound less
  have fits := underway.length_le
  induction fuel generalizing fuel' term s begun with
  | zero => omega
  | succ fuel ih =>
      cases fuel' with
      | zero => omega
      | succ fuel' =>
          rw [define, define]
          cases progress : NameMap.get? s.progress term with
          | some mark =>
              cases mark with
              | finished => exact .ok s
              | started =>
                  refine ⟨rfl, ?_⟩
                  intro _ ended
                  cases ended
          | none =>
              cases found : NameMap.get? scope.members term with
              | none => exact .ok s
              | some value =>
                  apply defineValue_congr (s := s.start term) (define_sound fuel)
                    (define_sound fuel') (consistent.start progress)
                  intro name s₁ consistent₁ same
                  have pushed := underway.push progress (isLocal_of_found found) same
                  refine ih fuel' name consistent₁ pushed ?_ ?_ pushed.length_le
                  · rw [List.length_cons]
                    omega
                  · rw [List.length_cons]
                    omega

/-- No bound on the nesting above the number of terms changes the answer, or is reached. -/
theorem requireAll_eq_of_bound (scope : Scope) (old : NameMap TermDefinition)
    (names : List String) {fuel : Nat} (enough : scope.members.length < fuel) :
    EndsAlike (requireAll (define scope fuel) names ⟨old, []⟩)
      (requireAll (define scope (scope.members.length + 1)) names ⟨old, []⟩) := by
  apply requireAll_congr (define_sound fuel) names (consistent_initial scope old)
  intro name s consistent same
  exact define_eq_of_room _ _ name consistent (.initial scope same) (by simpa using enough)
    (by simp)

/-- Terms are never left undefined for want of room. -/
theorem defineAll_ends_within (members : Json.Members) (vocab : Option String)
    (terms : NameMap TermDefinition) (t : String) :
    defineAll members vocab terms ≠ .error (.unfinished t) := by
  intro failed
  rw [defineAll_eq, defineInOrder, Except.map_eq_error_iff] at failed
  exact (requireAll_eq_of_bound ⟨members, vocab⟩ terms (definedKeys members)
    (Nat.lt_succ_self _)).within t failed

/-! ## Why a definition fails -/

/-- What can stand for the definition of a term: null, an identifier, or an object whose `@id`,
`@type` and `@container` are of the kinds that are read. -/
def WellFormedDefinition : Json → Prop
  | .null | .string _ => True
  | .object m =>
    (∀ v, NameMap.get? m "@id" = some v → v = .null ∨ ∃ s, v = .string s) ∧
    (∀ v, NameMap.get? m "@type" = some v → ∃ s, v = .string s) ∧
    (∀ v, NameMap.get? m "@container" = some v →
      v = .null ∨ (∃ s, v = .string s) ∨ ∃ items, v = .array items)
  | _ => False

theorem exists_target_iff (term : String) (m : Json.Members) :
    (∃ target, Terms.target term m = .ok target) ↔
      ∀ v, NameMap.get? m "@id" = some v → v = .null ∨ ∃ s, v = .string s := by
  simp only [target_eq, Except.map_eq_ok_iff, targetById]
  cases NameMap.get? m "@id" with
  | none => simp
  | some v => cases v <;> simp

theorem exists_typeText_iff (term : String) (m : Json.Members) :
    (∃ text, typeText term m = .ok text) ↔
      ∀ v, NameMap.get? m "@type" = some v → ∃ s, v = .string s := by
  unfold typeText
  cases NameMap.get? m "@type" with
  | none => simp
  | some v => cases v <;> simp

theorem exists_containers_iff (term : String) (m : Json.Members) :
    (∃ container, containers term m = .ok container) ↔
      ∀ v, NameMap.get? m "@container" = some v →
        v = .null ∨ (∃ s, v = .string s) ∨ ∃ items, v = .array items := by
  unfold containers
  cases NameMap.get? m "@container" with
  | none => simp
  | some v => cases v <;> simp

theorem exists_draft_iff (term : String) (value : Json) :
    (∃ draft, Draft.of term value = .ok draft) ↔ WellFormedDefinition value := by
  cases value with
  | null | string => exact ⟨fun _ => trivial, fun _ => ⟨_, rfl⟩⟩
  | bool | number | array => exact ⟨fun ⟨_, absurd⟩ => (nomatch absurd), False.elim⟩
  | object m =>
      rw [WellFormedDefinition, ← exists_target_iff term, ← exists_typeText_iff term,
        ← exists_containers_iff term]
      simp only [Draft.of, Draft.ofMembers, Except.bind_eq_ok_iff]
      constructor
      · rintro ⟨_, target, byId, text, typed, container, held, -⟩
        exact ⟨⟨target, byId⟩, ⟨text, typed⟩, ⟨container, held⟩⟩
      · rintro ⟨⟨target, byId⟩, ⟨text, typed⟩, ⟨container, held⟩⟩
        exact ⟨_, target, byId, text, typed, container, held, rfl⟩

/-- A term leads to well-formed definitions only. -/
def LeadsToWellFormed (scope : Scope) (old : NameMap TermDefinition) (term : String) : Prop :=
  ∀ n, ReflTransGen (Needs scope old) term n → ∀ value,
    NameMap.get? scope.members n = some value → WellFormedDefinition value

theorem LeadsToWellFormed.step {term name : String}
    (wellFormed : LeadsToWellFormed scope old term) (needs : Needs scope old term name) :
    LeadsToWellFormed scope old name :=
  fun n way => wellFormed n (.head needs way)

theorem leadsToWellFormed_of_forall {members : Json.Members}
    (all : ∀ p ∈ members, WellFormedDefinition p.2) (vocab : Option String)
    (old : NameMap TermDefinition) (term : String) :
    LeadsToWellFormed ⟨members, vocab⟩ old term :=
  fun _ _ _ found => all _ (NameMap.mem_of_get?_eq_some found)

/-- Among well-formed definitions, one that fails has come to a term that needs itself. -/
theorem define_error (fuel : Nat) {term : String} {s : State} {begun : List String}
    {e : ContextError} (consistent : Consistent scope old s)
    (stack : Begun scope old s fuel term begun) (wellFormed : LeadsToWellFormed scope old term)
    (failed : define scope fuel term s = .error e) :
    ∃ t, e = .cyclicTerm t ∧ ReflTransGen (Needs scope old) term t ∧
      TransGen (Needs scope old) t t := by
  -- a term that is begun already needs the one that leads to it again
  induction fuel generalizing term s begun with
  | zero =>
      have room := stack.room
      have fits := stack.underway.length_le
      omega
  | succ fuel ih =>
      rw [define] at failed
      cases progress : NameMap.get? s.progress term with
      | some mark =>
          rw [progress] at failed
          cases mark with
          | finished => cases failed
          | started =>
              cases failed
              exact ⟨term, rfl, .refl, stack.needing term ((stack.started term).mp progress)⟩
      | none =>
          rw [progress] at failed
          cases found : NameMap.get? scope.members term with
          | none =>
              rw [found] at failed
              cases failed
          | some value =>
              rw [found] at failed
              have started := consistent.start progress
              obtain ⟨draft, read⟩ :=
                (exists_draft_iff term value).mpr (wellFormed term .refl value found)
              have failed : defineValue scope (define scope fuel) term value (s.start term) =
                .error e := failed
              rw [defineValue_eq (define_sound fuel) started read, Except.map_eq_error_iff]
                at failed
              obtain ⟨before, name, after, s₁, split, done, failed⟩ := Except.foldlM_eq_error failed
              have grown := requireAll_grown (define_sound fuel) before started done
              have member : name ∈ draft.needs scope old term := by
                rw [split]
                exact List.mem_append_right before List.mem_cons_self
              have needs := (needs_iff found read).mpr member
              obtain ⟨t, same, way, cyclic⟩ := ih grown.consistent
                (stack.push progress needs grown.started) (wellFormed.step needs) failed
              exact ⟨t, same, .head needs way, cyclic⟩

theorem Means.not_leads_to_cycle {term n : String} {d : TermDefinition}
    (means : Means scope old term d) (way : ReflTransGen (Needs scope old) term n) :
    ¬ TransGen (Needs scope old) n n := by
  induction way using ReflTransGen.head_induction_on generalizing d with
  | refl => exact means.not_cyclic
  | head needs _ ih =>
      cases means with
      | @intro _ value draft terms found read there meant outside =>
          have member := (needs_iff found read).mp needs
          obtain ⟨dn, has⟩ := there _ member
          exact ih (meant _ member dn has)

/-- A circle of terms that need each other, to which a term leads that is defined for its own sake.
The vocabulary has no part in what terms need. -/
def LeadsToCycle (members : Json.Members) (old : NameMap TermDefinition) : Prop :=
  ∃ key ∈ definedKeys members, ∃ n, ReflTransGen (Needs ⟨members, none⟩ old) key n ∧
    TransGen (Needs ⟨members, none⟩ old) n n

/-- A measure that gets smaller with every need leaves no circle. -/
theorem not_leadsToCycle_of_measure {members : Json.Members} {old : NameMap TermDefinition}
    (measure : String → Nat)
    (smaller : ∀ p ∈ members, ∀ draft, Draft.of p.1 p.2 = .ok draft →
      ∀ name ∈ draft.needs ⟨members, none⟩ old p.1, measure name < measure p.1) :
    ¬ LeadsToCycle members old := by
  rintro ⟨_, -, n, -, cyclic⟩
  have step : ∀ a b, Needs ⟨members, none⟩ old a b → measure b < measure a := by
    rintro a b ⟨value, draft, found, read, member⟩
    exact smaller (a, value) (NameMap.mem_of_get?_eq_some found) draft read b member
  have way : ∀ a, TransGen (Needs ⟨members, none⟩ old) n a → measure a < measure n := by
    intro a path
    induction path with
    | single needs => exact step _ _ needs
    | tail _ needs ih => exact Nat.lt_trans (step _ _ needs) ih
  exact Nat.lt_irrefl _ (way n cyclic)

theorem defineAll_ends (members : Json.Members) (vocab : Option String)
    (terms : NameMap TermDefinition)
    (wellFormed : ∀ key ∈ definedKeys members, LeadsToWellFormed ⟨members, none⟩ terms key) :
    (LeadsToCycle members terms ∧ ∃ t, defineAll members vocab terms = .error (.cyclicTerm t)) ∨
    (¬ LeadsToCycle members terms ∧ ∃ table, defineAll members vocab terms = .ok table ∧
      ∀ key ∈ definedKeys members, ∃ d, NameMap.get? table key = some d) := by
  have consistent := consistent_initial ⟨members, vocab⟩ terms
  rcases defineInOrder_ends members vocab terms (.refl _) with
    ⟨⟨e, failed⟩, -⟩ | ⟨s, done, -, meaning⟩
  · refine .inl ?_
    rw [← defineAll_eq] at failed
    rw [failed]
    rw [defineAll_eq, defineInOrder, Except.map_eq_error_iff] at failed
    obtain ⟨before, key, after, s, split, done, failed⟩ := Except.foldlM_eq_error failed
    have grown := requireAll_grown (define_sound _) before consistent done
    have member : key ∈ definedKeys members := by
      rw [split]
      exact List.mem_append_right before List.mem_cons_self
    obtain ⟨t, rfl, way, cyclic⟩ :=
      define_error _ grown.consistent (.initial grown.started) (wellFormed key member) failed
    exact ⟨⟨key, member, t, way, cyclic⟩, t, rfl⟩
  · refine .inr ⟨?_, s.terms, done, fun key member => ?_⟩
    · rintro ⟨key, member, n, way, cyclic⟩
      obtain ⟨d, -, means⟩ := meaning key member
      exact means.not_leads_to_cycle way cyclic
    · obtain ⟨d, has, -⟩ := meaning key member
      exact ⟨d, has⟩

end Terms

/-! ## Applying a local context -/

namespace Context

open Terms (definedKeys requireAll LeadsToCycle LeadsToWellFormed)

def applySettings (ctx : Context) (members : Json.Members) : Except ContextError Context := do
  let ctx ← applyBase ctx members
  let ctx ← applyVocab ctx members
  return applyLanguage ctx members

theorem applyMembers_eq (ctx : Context) (members : Json.Members) :
    applyMembers ctx members = applySettings ctx members >>= fun ctx =>
      (Terms.defineAll members ctx.vocab ctx.terms).map fun terms => { ctx with terms } := by
  unfold applyMembers applySettings
  cases applyBase ctx members with
  | error e => rfl
  | ok ctx =>
      show (applyVocab ctx members >>= _) = (applyVocab ctx members >>= _) >>= _
      cases applyVocab ctx members with
      | error e => rfl
      | ok ctx => rfl

theorem applySettings_terms {ctx ctx' : Context} {members : Json.Members}
    (done : applySettings ctx members = .ok ctx') : ctx'.terms = ctx.terms := by
  simp only [applySettings, Except.bind_eq_ok_iff] at done
  obtain ⟨ctx₁, based, ctx₂, named, same⟩ := done
  cases same
  have kept : ctx₁.terms = ctx.terms := by
    unfold applyBase at based
    split at based <;> cases based <;> rfl
  have kept' : ctx₂.terms = ctx₁.terms := by
    unfold applyVocab at named
    split at named <;> cases named <;> rfl
  rw [← kept, ← kept', applyLanguage]
  split <;> rfl

theorem applySettings_ends_within (ctx : Context) (members : Json.Members) (t : String) :
    applySettings ctx members ≠ .error (.unfinished t) := by
  have based : ∀ ctx, applyBase ctx members ≠ .error (.unfinished t) := by
    intro ctx
    unfold applyBase
    split <;> nofun
  have named : ∀ ctx, applyVocab ctx members ≠ .error (.unfinished t) := by
    intro ctx
    unfold applyVocab
    split <;> nofun
  intro failed
  rcases Except.bind_eq_error_iff.mp failed with failed | ⟨ctx₁, -, failed⟩
  · exact based ctx failed
  · rcases Except.bind_eq_error_iff.mp failed with failed | ⟨ctx₂, -, failed⟩
    · exact named ctx₁ failed
    · cases failed

theorem applyMembers_ends_within (ctx : Context) (members : Json.Members) (t : String) :
    applyMembers ctx members ≠ .error (.unfinished t) := by
  intro failed
  rw [applyMembers_eq] at failed
  rcases Except.bind_eq_error_iff.mp failed with failed | ⟨ctx₁, -, failed⟩
  · exact applySettings_ends_within ctx members t failed
  · exact Terms.defineAll_ends_within members ctx₁.vocab ctx₁.terms t
      (Except.map_eq_error_iff.mp failed)

/-- What can stand under `@base` and `@vocab`: a text or null. -/
def WellFormedSetting (members : Json.Members) (keyword : String) : Prop :=
  ∀ v, NameMap.get? members keyword = some v → v = .null ∨ ∃ s, v = .string s

theorem exists_applySettings (ctx : Context) {members : Json.Members}
    (base : WellFormedSetting members "@base") (vocab : WellFormedSetting members "@vocab") :
    ∃ ctx', applySettings ctx members = .ok ctx' := by
  have based : ∃ ctx₁, applyBase ctx members = .ok ctx₁ := by
    unfold applyBase
    cases found : NameMap.get? members "@base" with
    | none => exact ⟨_, rfl⟩
    | some v => obtain rfl | ⟨s, rfl⟩ := base v found <;> exact ⟨_, rfl⟩
  obtain ⟨ctx₁, based⟩ := based
  have named : ∃ ctx₂, applyVocab ctx₁ members = .ok ctx₂ := by
    unfold applyVocab
    cases found : NameMap.get? members "@vocab" with
    | none => exact ⟨_, rfl⟩
    | some v => obtain rfl | ⟨s, rfl⟩ := vocab v found <;> exact ⟨_, rfl⟩
  obtain ⟨ctx₂, named⟩ := named
  refine ⟨applyLanguage ctx₂ members, ?_⟩
  rw [applySettings, based]
  show (applyVocab ctx₁ members >>= _) = _
  rw [named]
  rfl

theorem parse_object (loader : Loader) (ctx : Context) {members : Json.Members}
    (selfContained : NameMap.get? members "@import" = none) :
    ctx.parse loader (.object members) = (applyMembers ctx members).mapError .context := by
  have nothing : withImport loader ctx members = .ok members := by rw [withImport, selfContained]
  exact applyObject_of_withImport nothing

/-- Processing the terms of a local context ends: no bound on how deep definitions are begun inside
each other that is above the number of members has a part in the answer, and none is ever reached.
If everything in it that is read is well-formed, it fails as cyclic exactly if some term leads to a
circle of terms that need each other, and otherwise it gives each of its terms a definition. -/
theorem parse_cyclic_iff (loader : Loader) (ctx : Context) {members : Json.Members}
    (selfContained : NameMap.get? members "@import" = none) :
    (∀ vocab fuel, members.length < fuel →
      requireAll (Terms.define ⟨members, vocab⟩ fuel) (definedKeys members) ⟨ctx.terms, []⟩ =
        requireAll (Terms.define ⟨members, vocab⟩ (members.length + 1)) (definedKeys members)
          ⟨ctx.terms, []⟩) ∧
    (∀ t, ctx.parse loader (.object members) ≠ .error (.context (.unfinished t))) ∧
    (WellFormedSetting members "@base" → WellFormedSetting members "@vocab" →
      (∀ key ∈ definedKeys members, LeadsToWellFormed ⟨members, none⟩ ctx.terms key) →
      ((∃ t, ctx.parse loader (.object members) = .error (.context (.cyclicTerm t))) ↔
        LeadsToCycle members ctx.terms) ∧
      (¬ LeadsToCycle members ctx.terms → ∃ ctx', ctx.parse loader (.object members) = .ok ctx' ∧
        ∀ key ∈ definedKeys members, ∃ d, ctx'.term? key = some d)) := by
  refine ⟨fun vocab fuel enough =>
      (Terms.requireAll_eq_of_bound ⟨members, vocab⟩ ctx.terms _ enough).same,
    fun t => ?_, fun base vocab wellFormed => ?_⟩
  · rw [parse_object loader ctx selfContained]
    intro failed
    obtain ⟨e, failed, same⟩ := Except.mapError_eq_error_iff.mp failed
    cases same
    exact applyMembers_ends_within ctx members t failed
  obtain ⟨ctx₁, settled⟩ := exists_applySettings ctx base vocab
  have parsed : ctx.parse loader (.object members) =
      ((Terms.defineAll members ctx₁.vocab ctx.terms).map fun terms =>
        { ctx₁ with terms }).mapError .context := by
    rw [parse_object loader ctx selfContained, applyMembers_eq, settled]
    show Except.mapError _ (Except.map _ (Terms.defineAll members ctx₁.vocab ctx₁.terms)) = _
    rw [applySettings_terms settled]
  rw [parsed]
  rcases Terms.defineAll_ends members ctx₁.vocab ctx.terms wellFormed with
    ⟨cyclic, t, failed⟩ | ⟨acyclic, table, done, defined⟩
  · rw [failed]
    exact ⟨⟨fun _ => cyclic, fun _ => ⟨t, rfl⟩⟩, fun acyclic => absurd cyclic acyclic⟩
  · rw [done]
    refine ⟨⟨?_, fun cyclic => absurd cyclic acyclic⟩, fun _ => ⟨_, rfl, defined⟩⟩
    rintro ⟨t, absurd⟩
    cases absurd

/-- A type that is a compact form of the term that it types. -/
def circularTerms : Json.Members :=
  [("born", .object [("@id", .string "s:birthDate"), ("@type", .string "day")]),
   ("day", .string "born:day"), ("s", .string "http://schema.org/")]

/-- A prefix that is needed twice over and has a prefix itself, which another name needs too. -/
def sharedTerms : Json.Members :=
  [("born", .object [("@id", .string "on:birth"), ("@type", .string "on:day")]),
   ("on", .string "x:on/"), ("x", .string "http://schema.org/"), ("x:name", .object [])]

theorem only_circular_terms_refused :
    (LeadsToCycle circularTerms [] ∧ ∃ t, Context.empty.parse Loader.none (.object circularTerms) =
      .error (.context (.cyclicTerm t))) ∧
    ¬ LeadsToCycle sharedTerms [] ∧
      ∃ ctx, Context.empty.parse Loader.none (.object sharedTerms) = .ok ctx ∧
        ∀ key ∈ definedKeys sharedTerms, ∃ d, ctx.term? key = some d := by
  have first : Terms.Needs ⟨circularTerms, none⟩ [] "born" "day" := by
    refine ⟨_, _, rfl, rfl, ?_⟩
    decide +kernel
  have second : Terms.Needs ⟨circularTerms, none⟩ [] "day" "born" := by
    refine ⟨_, _, rfl, rfl, ?_⟩
    decide +kernel
  have cyclic : LeadsToCycle circularTerms [] :=
    ⟨"born", by decide +kernel, "born", .refl, .head first (.single second)⟩
  have circularFormed : ∀ p ∈ circularTerms, Terms.WellFormedDefinition p.2 := by
    simp only [circularTerms, List.forall_mem_cons]
    exact ⟨(Terms.exists_draft_iff "born" _).mp ⟨_, rfl⟩, trivial, trivial, nofun⟩
  have sharedFormed : ∀ p ∈ sharedTerms, Terms.WellFormedDefinition p.2 := by
    simp only [sharedTerms, List.forall_mem_cons]
    exact ⟨(Terms.exists_draft_iff "born" _).mp ⟨_, rfl⟩, trivial, trivial,
      (Terms.exists_draft_iff "x:name" _).mp ⟨_, rfl⟩, nofun⟩
  -- names are longer than those that they need
  have acyclic : ¬ LeadsToCycle sharedTerms [] := by
    refine Terms.not_leadsToCycle_of_measure String.length fun p member draft read name needed => ?_
    have shorter : ∀ p ∈ sharedTerms, (Terms.Draft.of p.1 p.2).passes (fun draft =>
        (draft.needs ⟨sharedTerms, none⟩ [] p.1).all (·.length < p.1.length)) = true := by
      decide +kernel
    have all := shorter p member
    rw [read] at all
    exact of_decide_eq_true (List.all_eq_true.mp all name needed)
  have selfContained : NameMap.get? circularTerms "@import" = none := rfl
  have circularEnds := (parse_cyclic_iff Loader.none .empty selfContained).2.2 nofun nofun
    fun key _ => Terms.leadsToWellFormed_of_forall circularFormed none [] key
  have selfContained : NameMap.get? sharedTerms "@import" = none := rfl
  have sharedEnds := (parse_cyclic_iff Loader.none .empty selfContained).2.2 nofun nofun
    fun key _ => Terms.leadsToWellFormed_of_forall sharedFormed none [] key
  exact ⟨⟨cyclic, circularEnds.1.mpr cyclic⟩, acyclic, sharedEnds.2 acyclic⟩

end Context

end LinkedCommit
