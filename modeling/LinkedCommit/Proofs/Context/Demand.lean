import Mathlib.Data.List.Perm.Subperm
import LinkedCommit.Proofs.Context.Alike
import LinkedCommit.Proofs.Context.Meaning
/-!
# Definitions on demand

A term is defined by defining what it needs and then giving it the definition that follows
(`defineValue_eq_ok_iff`).  So a definition that succeeds leaves a consistent state in which the
terms that can be reached from it are finished, and no more than before are left begun
(`define_sound`).  A term that means something is defined from every state in which nothing is begun
but terms that need it (`define_complete`): these are part of no cycle, so there is room for all the
definitions begun inside each other.
-/

set_option autoImplicit false

namespace LinkedCommit.Terms

open Relation (ReflTransGen TransGen)

variable {scope : Scope} {old : NameMap TermDefinition}

/-! ## What is required -/

def requireAll (define : Define) (names : List String) (s : State) : Except ContextError State :=
  names.foldlM (fun s name => define name s) s

section Required

variable {define : Define} {s : State}

@[simp] theorem requireAll_nil : requireAll define [] s = .ok s := rfl

@[simp] theorem requireAll_singleton (name : String) :
    requireAll define [name] s = define name s := by
  show (define name s >>= fun s => .ok s) = _
  cases define name s <;> rfl

theorem requireAll_append (names names' : List String) :
    requireAll define (names ++ names') s =
      requireAll define names s >>= requireAll define names' :=
  List.foldlM_append

theorem requireAll_grown (sound : Sound scope old define) (names : List String) {s' : State}
    (consistent : Consistent scope old s) (done : requireAll define names s = .ok s') :
    Grown scope old names s s' := by
  induction names generalizing s with
  | nil =>
      cases done
      exact .nil consistent
  | cons name rest ih =>
      rw [← List.singleton_append, requireAll_append, Except.bind_eq_ok_iff] at done
      obtain ⟨s₁, first, done⟩ := done
      rw [requireAll_singleton] at first
      have grown := sound name s s₁ consistent first
      exact grown.append (ih grown.consistent done)

theorem expandForm_eq (text : String) :
    expandForm scope define text s =
      (requireAll define (formNeeds scope text) s).map fun s' =>
        (formValue scope s'.terms text, s') := by
  unfold expandForm formNeeds formValue
  cases Colon.of text with
  | literal => rfl
  | absent => rfl
  | compact term rest =>
      simp only [require]
      split
      · rw [requireAll_singleton]
        cases define term s <;> rfl
      · rfl

/-- A text is looked up once what it needs is defined; a term of the local context then has its new
definition, and any other text the one of before or none. -/
theorem expand_eq (sound : Sound scope old define) (consistent : Consistent scope old s)
    (text : String) :
    expand scope define text s =
      (requireAll define (textNeeds scope old text) s).map fun s' =>
        (textValue scope s'.terms text, s') := by
  unfold expand textNeeds textValue
  by_cases keyword : isKeyword text = true
  · simp only [if_pos keyword]
    rfl
  simp only [if_neg keyword, require]
  cases isLocal : NameMap.contains scope.members text with
  | true =>
      simp only [if_true, requireAll_singleton]
      cases done : define text s with
      | error e => rfl
      | ok s' =>
          have grown := sound text s s' consistent done
          obtain ⟨d, has, -⟩ :=
            grown.consistent.means text (grown.finished_root (List.mem_singleton_self _) isLocal)
          simp only [bind, Except.bind, Except.map, has]
          rfl
  | false =>
      have before := consistent.outside isLocal
      simp only [Bool.false_eq_true, if_false, bind, Except.bind, before, NameMap.contains]
      rcases (NameMap.get? old text).eq_none_or_eq_some with defined | ⟨d, defined⟩
      · simp only [defined, Option.isSome_none, Bool.false_eq_true, if_false, expandForm_eq]
        cases done : requireAll define (formNeeds scope text) s with
        | error e => rfl
        | ok s' =>
            have after := (requireAll_grown sound _ consistent done).consistent.outside isLocal
            simp only [Except.map, after, defined]
      · simp only [defined, Option.isSome_some, if_true, requireAll_nil, Except.map, before]
        rfl

theorem identify_eq (sound : Sound scope old define) (consistent : Consistent scope old s)
    (term : String) (target : Target) :
    identify scope define term target s =
      (requireAll define (target.needs scope old term) s).map fun s' =>
        (target.value scope s'.terms term, s') := by
  cases target with
  | nothing => rfl
  | text raw =>
      simp only [identify, Target.needs, Target.value]
      split
      · rfl
      · split
        · exact expandForm_eq raw
        · rw [expand_eq sound consistent]
          cases requireAll define (textNeeds scope old raw) s <;> rfl
  | implicit =>
      simp only [identify, Target.needs, Target.value]
      split
      · exact expandForm_eq term
      · rfl

theorem typeMapping_eq (sound : Sound scope old define) (consistent : Consistent scope old s)
    (term : String) (m : Json.Members) :
    typeMapping scope define term m s =
      typeText term m >>= fun text =>
        (requireAll define (typeNeeds scope old text) s).map fun s' =>
          (typeValue scope s'.terms text, s') := by
  unfold typeMapping typeText
  cases NameMap.get? m "@type" with
  | none => rfl
  | some value =>
      cases value with
      | string t =>
          simp only [expand_eq sound consistent]
          show (Except.map _ (requireAll define (textNeeds scope old t) s) >>= _) =
            Except.map _ (requireAll define (textNeeds scope old t) s)
          cases requireAll define (textNeeds scope old t) s <;> rfl
      | null | bool | number | array | object => rfl

theorem finish_eq (sound : Sound scope old define) (consistent : Consistent scope old s)
    (term : String) (d : TermDefinition) (target : Target) :
    finish scope define term (d, target, s) =
      (requireAll define (target.needs scope old term) s).map fun s' =>
        s'.finish term { d with id := target.value scope s'.terms term } := by
  simp only [finish, identify_eq sound consistent]
  cases requireAll define (target.needs scope old term) s <;> rfl

theorem describe_eq (sound : Sound scope old define) (consistent : Consistent scope old s)
    {term : String} {m : Json.Members} {draft : Draft}
    (read : Draft.ofMembers term m = .ok draft) :
    describe scope define term m s =
      (requireAll define (typeNeeds scope old draft.typeText) s).map fun s' =>
        ({ draft.plain with typeMapping := typeValue scope s'.terms draft.typeText },
          draft.target, s') := by
  simp only [Draft.ofMembers, Except.bind_eq_ok_iff] at read
  obtain ⟨target, byId, text, typed, container, held, same⟩ := read
  cases same
  simp only [describe, typeMapping_eq sound consistent, byId, typed, held, bind, Except.bind]
  cases requireAll define (typeNeeds scope old text) s <;> rfl

theorem exists_draft_of_describe {term : String} {m : Json.Members}
    {described : TermDefinition × Target × State}
    (done : describe scope define term m s = .ok described) :
    ∃ draft, Draft.ofMembers term m = .ok draft := by
  simp only [describe, Except.bind_eq_ok_iff] at done
  obtain ⟨target, byId, mapping, typed, container, held, -⟩ := done
  have text : ∃ text, typeText term m = .ok text := by
    rw [typeMapping] at typed
    rw [typeText]
    cases found : NameMap.get? m "@type" with
    | none => exact ⟨none, rfl⟩
    | some v =>
        rw [found] at typed
        cases v with
        | string t => exact ⟨some t, rfl⟩
        | null | bool | number | array | object => cases typed
  obtain ⟨text, typed⟩ := text
  simp only [Draft.ofMembers, Except.bind_eq_ok_iff]
  exact ⟨_, target, byId, text, typed, container, held, rfl⟩

end Required

/-! ## One definition -/

section Definition

variable {define : Define} {s : State}

/-- The type is expanded before the target is defined, and would be expanded to the same after. -/
theorem typeValue_kept {typeText : Option String} {roots : List String} {s₁ s₂ : State}
    (typed : Grown scope old (typeNeeds scope old typeText) s s₁)
    (later : Grown scope old roots s₁ s₂) :
    typeValue scope s₁.terms typeText = typeValue scope s₂.terms typeText :=
  typeValue_congr (later.agree typed.consistent fun _ member =>
    typed.finished_root member (typeNeeds_local member))

theorem defineValue_eq (sound : Sound scope old define) (consistent : Consistent scope old s)
    {term : String} {value : Json} {draft : Draft} (read : Draft.of term value = .ok draft) :
    defineValue scope define term value s =
      (requireAll define (draft.needs scope old term) s).map fun s' =>
        s'.finish term (draft.definition scope s'.terms term) := by
  cases value with
  | null =>
      cases read
      exact finish_eq sound consistent term .empty .nothing
  | string raw =>
      cases read
      exact finish_eq sound consistent term .empty (.text raw)
  | bool | number | array => cases read
  | object m =>
      show describe scope define term m s >>= finish scope define term = _
      rw [describe_eq sound consistent read, Draft.needs, requireAll_append]
      cases typed : requireAll define (typeNeeds scope old draft.typeText) s with
      | error e => rfl
      | ok s₁ =>
          have grown := requireAll_grown sound _ consistent typed
          show finish scope define term (_, draft.target, s₁) =
            Except.map _ (requireAll define _ s₁)
          rw [finish_eq sound grown.consistent]
          cases done : requireAll define (draft.target.needs scope old term) s₁ with
          | error e => rfl
          | ok s' =>
              simp only [Except.map, Draft.definition,
                typeValue_kept grown (requireAll_grown sound _ grown.consistent done)]

theorem exists_draft_of_defineValue {term : String} {value : Json} {s'' : State}
    (done : defineValue scope define term value s = .ok s'') :
    ∃ draft, Draft.of term value = .ok draft := by
  cases value with
  | null => exact ⟨_, rfl⟩
  | string raw => exact ⟨_, rfl⟩
  | bool | number | array => cases done
  | object m =>
      obtain ⟨described, first, -⟩ :=
        Except.bind_eq_ok_iff.mp (show describe scope define term m s >>= finish scope define term =
          .ok s'' from done)
      exact exists_draft_of_describe first

theorem defineValue_eq_ok_iff (sound : Sound scope old define) (consistent : Consistent scope old s)
    {term : String} {value : Json} {s'' : State} :
    defineValue scope define term value s = .ok s'' ↔
      ∃ draft s', Draft.of term value = .ok draft ∧
        requireAll define (draft.needs scope old term) s = .ok s' ∧
        s'' = s'.finish term (draft.definition scope s'.terms term) := by
  constructor
  · intro done
    obtain ⟨draft, read⟩ := exists_draft_of_defineValue done
    rw [defineValue_eq sound consistent read, Except.map_eq_ok_iff] at done
    obtain ⟨s', needed, rfl⟩ := done
    exact ⟨draft, s', read, needed, rfl⟩
  · rintro ⟨draft, s', read, needed, rfl⟩
    rw [defineValue_eq sound consistent read, needed]
    rfl

end Definition

/-- What a definition leaves behind, if it succeeds. -/
theorem define_sound (fuel : Nat) : Sound scope old (define scope fuel) := by
  -- what is needed is defined with less fuel, in the state in which the term is begun
  induction fuel with
  | zero =>
      intro term s s' _ done
      cases done
  | succ fuel ih =>
      intro term s s' consistent done
      rw [define] at done
      cases progress : NameMap.get? s.progress term with
      | some mark =>
          rw [progress] at done
          cases mark with
          | started => cases done
          | finished =>
              cases done
              exact .again consistent progress
      | none =>
          rw [progress] at done
          cases found : NameMap.get? scope.members term with
          | none =>
              rw [found] at done
              cases done
              exact .foreign consistent (by rw [NameMap.contains, found]; rfl)
          | some value =>
              rw [found] at done
              have started := consistent.start progress
              obtain ⟨draft, s₁, read, needed, rfl⟩ :=
                (defineValue_eq_ok_iff (s := s.start term) ih started).mp done
              exact .define found read progress (requireAll_grown ih _ started needed)

/-! ## Terms that are defined -/

/-- The terms that are begun: different ones, all of the local context. -/
structure Underway (scope : Scope) (s : State) (begun : List String) : Prop where
  nodup : begun.Nodup
  started : ∀ u, s.Started u ↔ u ∈ begun
  isLocal : ∀ u ∈ begun, NameMap.contains scope.members u = true

theorem Underway.length_le {s : State} {begun : List String} (underway : Underway scope s begun) :
    begun.length ≤ scope.members.length := by
  have inMembers : begun ⊆ NameMap.keys scope.members := by
    intro u member
    obtain ⟨value, found⟩ := Option.isSome_iff_exists.mp (underway.isLocal u member)
    exact List.mem_map_of_mem (NameMap.mem_of_get?_eq_some found)
  have fits := (underway.nodup.subperm inMembers).length_le
  rwa [NameMap.keys, List.length_map] at fits

theorem Underway.push {s s' : State} {term : String} {begun : List String}
    (underway : Underway scope s begun) (fresh : NameMap.get? s.progress term = none)
    (isLocal : NameMap.contains scope.members term = true)
    (same : ∀ u, s'.Started u ↔ (s.start term).Started u) :
    Underway scope s' (term :: begun) where
  nodup := by
    refine List.nodup_cons.mpr ⟨fun member => ?_, underway.nodup⟩
    cases fresh.symm.trans ((underway.started term).mpr member)
  started := by
    intro u
    rw [same, State.started_start_iff, underway.started, List.mem_cons]
  isLocal := List.forall_mem_cons.mpr ⟨isLocal, underway.isLocal⟩

theorem Underway.initial (scope : Scope) {s : State}
    (same : ∀ u, s.Started u ↔ (⟨old, []⟩ : State).Started u) : Underway scope s [] where
  nodup := .nil
  started := by
    intro u
    rw [same]
    exact ⟨nofun, nofun⟩
  isLocal := nofun

/-- The terms that are begun: all of them need one term, and there is room to begin more. -/
structure Begun (scope : Scope) (old : NameMap TermDefinition) (s : State) (fuel : Nat)
    (term : String) (begun : List String) : Prop where
  nodup : begun.Nodup
  started : ∀ u, s.Started u ↔ u ∈ begun
  needing : ∀ u ∈ begun, TransGen (Needs scope old) u term
  room : scope.members.length < begun.length + fuel

theorem Begun.underway {s : State} {fuel : Nat} {term : String} {begun : List String}
    (stack : Begun scope old s fuel term begun) : Underway scope s begun where
  nodup := stack.nodup
  started := stack.started
  isLocal := by
    intro u member
    obtain ⟨v, needs, -⟩ := TransGen.head'_iff.mp (stack.needing u member)
    obtain ⟨value, _, found, _⟩ := needs
    exact isLocal_of_found found

theorem Begun.push {s s' : State} {fuel : Nat} {term name : String} {begun : List String}
    (stack : Begun scope old s (fuel + 1) term begun) (fresh : NameMap.get? s.progress term = none)
    (needs : Needs scope old term name) (same : ∀ u, s'.Started u ↔ (s.start term).Started u) :
    Begun scope old s' fuel name (term :: begun) := by
  obtain ⟨value, _, found, _⟩ := id needs
  have pushed := stack.underway.push fresh (isLocal_of_found found) same
  refine ⟨pushed.nodup, pushed.started, fun u member => ?_, ?_⟩
  · rcases List.mem_cons.mp member with rfl | earlier
    · exact .single needs
    · exact .tail (stack.needing u earlier) needs
  · have room := stack.room
    rw [List.length_cons]
    omega

theorem Begun.initial {s : State} {term : String}
    (same : ∀ u, s.Started u ↔ (⟨old, []⟩ : State).Started u) :
    Begun scope old s (scope.members.length + 1) term [] where
  nodup := .nil
  started := (Underway.initial scope same).started
  needing := nofun
  room := by simp

theorem requireAll_complete {define : Define} (sound : Sound scope old define)
    (names : List String) {s : State} (consistent : Consistent scope old s)
    (each : ∀ name ∈ names, ∀ s₁, Consistent scope old s₁ → (∀ u, s₁.Started u ↔ s.Started u) →
      ∃ s', define name s₁ = .ok s') :
    ∃ s', requireAll define names s = .ok s' := by
  induction names generalizing s with
  | nil => exact ⟨s, rfl⟩
  | cons name rest ih =>
      obtain ⟨s₁, first⟩ := each name List.mem_cons_self s consistent fun _ => Iff.rfl
      have grown := sound name s s₁ consistent first
      obtain ⟨s', later⟩ := ih grown.consistent fun n member s₂ consistent₂ same =>
        each n (List.mem_cons_of_mem _ member) s₂ consistent₂ fun u =>
          (same u).trans (grown.started u)
      refine ⟨s', ?_⟩
      rw [← List.singleton_append, requireAll_append, requireAll_singleton, first]
      exact later

/-- A term that means something is defined. -/
theorem define_complete {term : String} {d : TermDefinition} (means : Means scope old term d)
    (fuel : Nat) {s : State} {begun : List String} (consistent : Consistent scope old s)
    (stack : Begun scope old s fuel term begun) : ∃ s', define scope fuel term s = .ok s' := by
  -- on how the term comes by its meaning: what it needs means something too
  induction means generalizing fuel s begun with
  | @intro term value draft terms found read there meant outside ih =>
      have notBegun : term ∉ begun := by
        intro member
        exact (Means.intro found read there meant outside).not_cyclic (stack.needing term member)
      cases fuel with
      | zero =>
          -- the terms that are begun are all different and of the local context
          have room := stack.room
          have fits := stack.underway.length_le
          omega
      | succ fuel =>
          rw [define]
          cases progress : NameMap.get? s.progress term with
          | some mark =>
              cases mark with
              | finished => exact ⟨s, rfl⟩
              | started => exact absurd ((stack.started term).mp progress) notBegun
          | none =>
              rw [found]
              have started := consistent.start progress
              have needed : ∃ s', requireAll (define scope fuel) (draft.needs scope old term)
                  (s.start term) = .ok s' := by
                refine requireAll_complete (define_sound fuel) _ started
                  fun n member s₁ consistent₁ same => ?_
                obtain ⟨dn, has⟩ := there n member
                exact ih n member dn has fuel consistent₁
                  (stack.push progress ((needs_iff found read).mpr member) same)
              obtain ⟨s', needed⟩ := needed
              exact ⟨_, (defineValue_eq_ok_iff (define_sound fuel) started).mpr
                ⟨draft, s', read, needed, rfl⟩⟩

end LinkedCommit.Terms
