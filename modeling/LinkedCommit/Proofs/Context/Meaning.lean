import Mathlib.Logic.Relation
import LinkedCommit.Proofs.Context.Needs
/-!
# What the terms of a local context mean

A term `Means` a definition if what it needs means something and the definition follows from that.
It means one definition at most (`Means.unique`), and none if it is needed for itself
(`Means.not_cyclic`).

While terms are defined, the states are `Consistent`: every term that is finished has the definition
that it means, with all that it needs, and the others have the one of before.  From one state to a
later one, some roots and all that can be reached from them become finished (`Grown`).
-/

set_option autoImplicit false

namespace LinkedCommit.Terms

open Relation (ReflTransGen TransGen)

/-- A term must be defined before another one. -/
def Needs (scope : Scope) (old : NameMap TermDefinition) (term name : String) : Prop :=
  ∃ value draft, NameMap.get? scope.members term = some value ∧ Draft.of term value = .ok draft ∧
    name ∈ draft.needs scope old term

/-- A definition follows from the value of its term and a table in which the terms that are needed
have the definitions that they mean. -/
inductive Means (scope : Scope) (old : NameMap TermDefinition) : String → TermDefinition → Prop
  | intro {term : String} {value : Json} {draft : Draft} {terms : NameMap TermDefinition}
      (found : NameMap.get? scope.members term = some value)
      (read : Draft.of term value = .ok draft)
      (there : ∀ n ∈ draft.needs scope old term, ∃ d, NameMap.get? terms n = some d)
      (meant : ∀ n ∈ draft.needs scope old term, ∀ d, NameMap.get? terms n = some d →
        Means scope old n d)
      (outside : ∀ n, NameMap.contains scope.members n = false →
        NameMap.get? terms n = NameMap.get? old n) :
      Means scope old term (draft.definition scope terms term)

variable {scope : Scope} {old : NameMap TermDefinition}

theorem isLocal_of_found {term : String} {value : Json}
    (found : NameMap.get? scope.members term = some value) :
    NameMap.contains scope.members term = true := by
  rw [NameMap.contains, found]
  rfl

theorem needs_iff {term name : String} {value : Json} {draft : Draft}
    (found : NameMap.get? scope.members term = some value) (read : Draft.of term value = .ok draft) :
    Needs scope old term name ↔ name ∈ draft.needs scope old term := by
  constructor
  · rintro ⟨value', draft', found', read', member⟩
    cases found.symm.trans found'
    cases read.symm.trans read'
    exact member
  · exact fun member => ⟨value, draft, found, read, member⟩

theorem Needs.isLocal {term name : String} (needs : Needs scope old term name) :
    NameMap.contains scope.members name = true := by
  obtain ⟨_, _, _, _, member⟩ := needs
  exact Draft.needs_local member

theorem Means.isLocal {term : String} {d : TermDefinition} (means : Means scope old term d) :
    NameMap.contains scope.members term = true := by
  cases means with
  | intro found => exact isLocal_of_found found

theorem Means.unique {term : String} {d d' : TermDefinition} (means : Means scope old term d)
    (means' : Means scope old term d') : d = d' := by
  -- what is needed means the same in both tables, and nothing else of them counts
  induction means generalizing d' with
  | @intro term value draft terms found read there _ outside ih =>
      cases means' with
      | @intro _ value' draft' terms' found' read' there' meant' outside' =>
          cases found.symm.trans found'
          cases read.symm.trans read'
          refine Draft.definition_congr ⟨fun n member => ?_, fun n isOutside =>
            ⟨outside n isOutside, outside' n isOutside⟩⟩
          obtain ⟨dn, has⟩ := there n member
          obtain ⟨dn', has'⟩ := there' n member
          exact ⟨dn, has, ih n member dn has (meant' n member dn' has') ▸ has'⟩

theorem Means.not_cyclic {term : String} {d : TermDefinition} (means : Means scope old term d) :
    ¬ TransGen (Needs scope old) term term := by
  -- a circle through the term is one through the first term that it needs
  induction means with
  | @intro term value draft terms found read there _ _ ih =>
      intro cyclic
      obtain ⟨n, needs, way⟩ := TransGen.head'_iff.mp cyclic
      have member := (needs_iff found read).mp needs
      obtain ⟨dn, has⟩ := there n member
      exact ih n member dn has (TransGen.tail' way needs)

/-! ## States -/

namespace State

def Finished (s : State) (name : String) : Prop := NameMap.get? s.progress name = some .finished

def Started (s : State) (name : String) : Prop := NameMap.get? s.progress name = some .started

def start (s : State) (term : String) : State :=
  { s with progress := NameMap.insert s.progress term .started }

def finish (s : State) (term : String) (d : TermDefinition) : State where
  terms := NameMap.insert s.terms term d
  progress := NameMap.insert s.progress term .finished

theorem finished_finish_iff {s : State} {term name : String} {d : TermDefinition} :
    (s.finish term d).Finished name ↔ name = term ∨ s.Finished name := by
  by_cases same : name = term
  · subst same
    simp [Finished, finish, NameMap.get?_insert_self]
  · simp [Finished, finish, NameMap.get?_insert_of_ne _ _ same, same]

theorem started_finish_iff {s : State} {term name : String} {d : TermDefinition} :
    (s.finish term d).Started name ↔ name ≠ term ∧ s.Started name := by
  by_cases same : name = term
  · subst same
    simp [Started, finish, NameMap.get?_insert_self]
  · simp [Started, finish, NameMap.get?_insert_of_ne _ _ same, same]

theorem started_start_iff {s : State} {term name : String} :
    (s.start term).Started name ↔ name = term ∨ s.Started name := by
  by_cases same : name = term
  · subst same
    simp [Started, start, NameMap.get?_insert_self]
  · simp [Started, start, NameMap.get?_insert_of_ne _ _ same, same]

theorem finished_start_iff {s : State} {term name : String}
    (fresh : NameMap.get? s.progress term = none) :
    (s.start term).Finished name ↔ s.Finished name := by
  by_cases same : name = term
  · subst same
    simp [Finished, start, NameMap.get?_insert_self, fresh]
  · simp [Finished, start, NameMap.get?_insert_of_ne _ _ same]

end State

/-- Finished terms have the definitions that they mean, and all others those of before. -/
structure Consistent (scope : Scope) (old : NameMap TermDefinition) (s : State) : Prop where
  means : ∀ n, s.Finished n → ∃ d, NameMap.get? s.terms n = some d ∧ Means scope old n d
  closed : ∀ n m, s.Finished n → Needs scope old n m → s.Finished m
  pending : ∀ n, ¬ s.Finished n → NameMap.get? s.terms n = NameMap.get? old n
  sorted : old.Sorted → s.terms.Sorted

/-- What there is in a later state: the terms that were finished, and those that can be reached from
some roots. -/
structure Grown (scope : Scope) (old : NameMap TermDefinition) (roots : List String)
    (s s' : State) : Prop where
  consistent : Consistent scope old s'
  started : ∀ n, s'.Started n ↔ s.Started n
  finished : ∀ n, s'.Finished n ↔ s.Finished n ∨ ∃ root ∈ roots,
    NameMap.contains scope.members root = true ∧ ReflTransGen (Needs scope old) root n

/-- A way to define a term leaves behind what can be reached from it. -/
def Sound (scope : Scope) (old : NameMap TermDefinition) (define : Define) : Prop :=
  ∀ term s s', Consistent scope old s → define term s = .ok s' → Grown scope old [term] s s'

section States

variable {s s' s'' : State} {roots roots' : List String}

theorem consistent_initial (scope : Scope) (old : NameMap TermDefinition) :
    Consistent scope old ⟨old, []⟩ where
  means := nofun
  closed := nofun
  pending := fun _ _ => rfl
  sorted := fun sorted => sorted

theorem Consistent.outside (consistent : Consistent scope old s) {n : String}
    (isOutside : NameMap.contains scope.members n = false) :
    NameMap.get? s.terms n = NameMap.get? old n := by
  refine consistent.pending n fun finished => ?_
  obtain ⟨d, -, means⟩ := consistent.means n finished
  rw [means.isLocal] at isOutside
  cases isOutside

theorem Consistent.finished_of_reach (consistent : Consistent scope old s) {n m : String}
    (finished : s.Finished n) (way : ReflTransGen (Needs scope old) n m) : s.Finished m := by
  induction way with
  | refl => exact finished
  | tail _ needs ih => exact consistent.closed _ _ ih needs

theorem Consistent.start (consistent : Consistent scope old s) {term : String}
    (fresh : NameMap.get? s.progress term = none) : Consistent scope old (s.start term) where
  means := fun n finished => consistent.means n ((State.finished_start_iff fresh).mp finished)
  closed := fun n m finished needs => (State.finished_start_iff fresh).mpr
    (consistent.closed n m ((State.finished_start_iff fresh).mp finished) needs)
  pending := fun n unfinished =>
    consistent.pending n (unfinished ∘ (State.finished_start_iff fresh).mpr)
  sorted := consistent.sorted

theorem Grown.nil (consistent : Consistent scope old s) : Grown scope old [] s s where
  consistent := consistent
  started := fun _ => Iff.rfl
  finished := by simp

theorem Grown.append (first : Grown scope old roots s s') (second : Grown scope old roots' s' s'') :
    Grown scope old (roots ++ roots') s s'' where
  consistent := second.consistent
  started := fun n => (second.started n).trans (first.started n)
  finished := by
    intro n
    simp only [second.finished, first.finished, List.mem_append, or_assoc, or_and_right, exists_or]

theorem Grown.finished_root (grown : Grown scope old roots s s') {n : String} (root : n ∈ roots)
    (isLocal : NameMap.contains scope.members n = true) : s'.Finished n :=
  (grown.finished n).mpr (Or.inr ⟨n, root, isLocal, .refl⟩)

theorem Grown.again (consistent : Consistent scope old s) {term : String}
    (finished : s.Finished term) : Grown scope old [term] s s where
  consistent := consistent
  started := fun _ => Iff.rfl
  finished := by
    intro n
    constructor
    · exact Or.inl
    · rintro (before | ⟨root, member, -, way⟩)
      · exact before
      · cases List.mem_singleton.mp member
        exact consistent.finished_of_reach finished way

theorem Grown.foreign (consistent : Consistent scope old s) {name : String}
    (isOutside : NameMap.contains scope.members name = false) : Grown scope old [name] s s where
  consistent := consistent
  started := fun _ => Iff.rfl
  finished := by simp [isOutside]

theorem Grown.kept (grown : Grown scope old roots s s') (consistent : Consistent scope old s)
    {n : String} (finished : s.Finished n) :
    ∃ d, NameMap.get? s.terms n = some d ∧ NameMap.get? s'.terms n = some d := by
  obtain ⟨d, has, means⟩ := consistent.means n finished
  obtain ⟨d', has', means'⟩ :=
    grown.consistent.means n ((grown.finished n).mpr (Or.inl finished))
  exact ⟨d, has, means.unique means' ▸ has'⟩

theorem Grown.agree (grown : Grown scope old roots s s') (consistent : Consistent scope old s)
    {names : List String} (finished : ∀ n ∈ names, s.Finished n) :
    Agree scope old names s.terms s'.terms where
  named := fun n member => grown.kept consistent (finished n member)
  outside := fun _ isOutside => ⟨consistent.outside isOutside, grown.consistent.outside isOutside⟩

/-- Once all that a term needs is finished, the definition that follows is what it means. -/
theorem Consistent.means_of_needed {term : String} {value : Json} {draft : Draft}
    (consistent : Consistent scope old s) (found : NameMap.get? scope.members term = some value)
    (read : Draft.of term value = .ok draft)
    (needed : ∀ n ∈ draft.needs scope old term, s.Finished n) :
    Means scope old term (draft.definition scope s.terms term) := by
  refine .intro found read (fun m member => ?_) (fun m member d has => ?_)
    fun m isOutside => consistent.outside isOutside
  · obtain ⟨d, has, -⟩ := consistent.means m (needed m member)
    exact ⟨d, has⟩
  · obtain ⟨d', has', means⟩ := consistent.means m (needed m member)
    cases has.symm.trans has'
    exact means

/-- The definition of a finished term still follows from the table. -/
theorem Consistent.get?_of_finished {term : String} {value : Json} {draft : Draft}
    (consistent : Consistent scope old s) (found : NameMap.get? scope.members term = some value)
    (read : Draft.of term value = .ok draft) (finished : s.Finished term) :
    NameMap.get? s.terms term = some (draft.definition scope s.terms term) := by
  obtain ⟨d, has, means⟩ := consistent.means term finished
  have needed : ∀ n ∈ draft.needs scope old term, s.Finished n := fun n member =>
    consistent.closed term n finished ((needs_iff found read).mpr member)
  rw [has, means.unique (consistent.means_of_needed found read needed)]

theorem Consistent.finish {term : String} {value : Json} {draft : Draft}
    (consistent : Consistent scope old s) (found : NameMap.get? scope.members term = some value)
    (read : Draft.of term value = .ok draft)
    (needed : ∀ n ∈ draft.needs scope old term, s.Finished n) :
    Consistent scope old (s.finish term (draft.definition scope s.terms term)) where
  means := by
    intro n finished
    by_cases same : n = term
    · subst same
      exact ⟨_, NameMap.get?_insert_self .., consistent.means_of_needed found read needed⟩
    · obtain ⟨d, has, means⟩ :=
        consistent.means n ((State.finished_finish_iff.mp finished).resolve_left same)
      exact ⟨d, (NameMap.get?_insert_of_ne _ _ same).trans has, means⟩
  closed := by
    intro n m finished needs
    apply State.finished_finish_iff.mpr
    rcases State.finished_finish_iff.mp finished with rfl | earlier
    · exact .inr (needed m ((needs_iff found read).mp needs))
    · exact .inr (consistent.closed n m earlier needs)
  pending := by
    intro n unfinished
    rw [State.finished_finish_iff, not_or] at unfinished
    exact (NameMap.get?_insert_of_ne _ _ unfinished.1).trans (consistent.pending n unfinished.2)
  sorted := fun sorted => (consistent.sorted sorted).update _ _

/-- Beginning a term, defining what it needs and finishing it. -/
theorem Grown.define {term : String} {value : Json} {draft : Draft}
    (found : NameMap.get? scope.members term = some value) (read : Draft.of term value = .ok draft)
    (fresh : NameMap.get? s.progress term = none)
    (grown : Grown scope old (draft.needs scope old term) (s.start term) s') :
    Grown scope old [term] s (s'.finish term (draft.definition scope s'.terms term)) where
  consistent := grown.consistent.finish found read fun _ member =>
    grown.finished_root member (Draft.needs_local member)
  started := by
    intro n
    rw [State.started_finish_iff, grown.started, State.started_start_iff]
    constructor
    · rintro ⟨differ, same | before⟩
      · exact absurd same differ
      · exact before
    · intro before
      refine ⟨?_, .inr before⟩
      rintro rfl
      cases fresh.symm.trans before
  finished := by
    intro n
    rw [State.finished_finish_iff, grown.finished, State.finished_start_iff fresh]
    constructor
    · rintro (rfl | before | ⟨root, member, -, way⟩)
      · exact .inr ⟨n, List.mem_singleton_self _, isLocal_of_found found, .refl⟩
      · exact .inl before
      · exact .inr ⟨term, List.mem_singleton_self _, isLocal_of_found found,
          .head ((needs_iff found read).mpr member) way⟩
    · rintro (before | ⟨root, member, -, way⟩)
      · exact .inr (.inl before)
      · cases List.mem_singleton.mp member
        rcases way.cases_head with rfl | ⟨m, needs, way⟩
        · exact .inl rfl
        · exact .inr (.inr ⟨m, (needs_iff found read).mp needs, needs.isLocal, way⟩)

end States

end LinkedCommit.Terms
