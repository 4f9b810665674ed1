import LinkedCommit.Proofs.Context.Demand
/-!
# The order of terms

The terms of a local context may be defined in any order.  That succeeds exactly if each of them means
something (`requireAll_isOk_iff`), and then the table holds what can be reached from them with its
meaning, and of the rest what was there before (`Grown.get?_terms_eq`).
-/

set_option autoImplicit false

namespace LinkedCommit.Terms

/-- The terms of a local context that are defined for their own sake. -/
def definedKeys (members : Json.Members) : List String :=
  (NameMap.keys members).filter fun key => !startsWithAt key

def defineInOrder (members : Json.Members) (vocab : Option String) (terms : NameMap TermDefinition)
    (order : List String) : Except ContextError (NameMap TermDefinition) :=
  (requireAll (define ⟨members, vocab⟩ (members.length + 1)) order ⟨terms, []⟩).map State.terms

/-- Processing a local context takes its terms in the order of their names. -/
theorem defineAll_eq (members : Json.Members) (vocab : Option String)
    (terms : NameMap TermDefinition) :
    defineAll members vocab terms = defineInOrder members vocab terms (definedKeys members) :=
  rfl

section Order

variable {scope : Scope} {old : NameMap TermDefinition}

theorem requireAll_isOk_iff (scope : Scope) (old : NameMap TermDefinition) {names : List String}
    (isLocal : ∀ name ∈ names, NameMap.contains scope.members name = true) :
    (∃ s, requireAll (define scope (scope.members.length + 1)) names ⟨old, []⟩ = .ok s) ↔
      ∀ name ∈ names, ∃ d, Means scope old name d := by
  have consistent := consistent_initial scope old
  constructor
  · rintro ⟨s, done⟩ name member
    have grown := requireAll_grown (define_sound _) names consistent done
    obtain ⟨d, -, means⟩ :=
      grown.consistent.means name (grown.finished_root member (isLocal name member))
    exact ⟨d, means⟩
  · intro meaning
    refine requireAll_complete (define_sound _) names consistent
      fun name member s consistent same => ?_
    obtain ⟨d, means⟩ := meaning name member
    exact define_complete means _ consistent (.initial same)

theorem Grown.get?_terms_eq {roots roots' : List String} {s s' : State}
    (grown : Grown scope old roots ⟨old, []⟩ s) (grown' : Grown scope old roots' ⟨old, []⟩ s')
    (same : ∀ name, name ∈ roots ↔ name ∈ roots') (name : String) :
    NameMap.get? s.terms name = NameMap.get? s'.terms name := by
  have finished : s.Finished name ↔ s'.Finished name := by
    simp only [grown.finished, grown'.finished, same]
  by_cases reached : s.Finished name
  · obtain ⟨d, has, means⟩ := grown.consistent.means name reached
    obtain ⟨d', has', means'⟩ := grown'.consistent.means name (finished.mp reached)
    rw [has, has', means.unique means']
  · rw [grown.consistent.pending name reached,
      grown'.consistent.pending name (reached ∘ finished.mpr)]

end Order

theorem contains_of_mem_definedKeys {members : Json.Members} {name : String}
    (member : name ∈ definedKeys members) : NameMap.contains members name = true := by
  have isKey := (List.mem_filter.mp member).1
  rw [NameMap.contains, Option.isSome_iff_ne_none]
  exact fun absent => NameMap.get?_eq_none_iff.mp absent isKey

/-- Defining all terms fails if one of them means nothing.  Or else each has the definition that it
means, and the table is the one that they leave behind. -/
theorem defineInOrder_ends (members : Json.Members) (vocab : Option String)
    (terms : NameMap TermDefinition) {order : List String}
    (perm : order.Perm (definedKeys members)) :
    ((∃ e, defineInOrder members vocab terms order = .error e) ∧
      ∃ name ∈ definedKeys members, ¬ ∃ d, Means ⟨members, vocab⟩ terms name d) ∨
    ∃ s, defineInOrder members vocab terms order = .ok s.terms ∧
      Grown ⟨members, vocab⟩ terms order ⟨terms, []⟩ s ∧
      ∀ name ∈ definedKeys members, ∃ d, NameMap.get? s.terms name = some d ∧
        Means ⟨members, vocab⟩ terms name d := by
  have isLocal : ∀ name ∈ order, NameMap.contains members name = true := by
    intro name member
    exact contains_of_mem_definedKeys (perm.mem_iff.mp member)
  have ends := requireAll_isOk_iff ⟨members, vocab⟩ terms isLocal
  unfold defineInOrder
  cases outcome : requireAll (define ⟨members, vocab⟩ (members.length + 1)) order ⟨terms, []⟩ with
  | error e =>
      have notAll : ¬ ∀ name ∈ order, ∃ d, Means ⟨members, vocab⟩ terms name d := by
        intro meaning
        obtain ⟨s, done⟩ := ends.mpr meaning
        cases outcome.symm.trans done
      simp only [not_forall] at notAll
      obtain ⟨name, member, meaningless⟩ := notAll
      exact .inl ⟨⟨e, rfl⟩, name, perm.mem_iff.mp member, meaningless⟩
  | ok s =>
      have grown := requireAll_grown (define_sound _) order (consistent_initial _ terms) outcome
      refine .inr ⟨s, rfl, grown, fun name member => grown.consistent.means name ?_⟩
      have inOrder := perm.mem_iff.mpr member
      exact grown.finished_root inOrder (isLocal name inOrder)

/-- In whatever two orders the terms of a local context are defined: either one of them means nothing
and neither order succeeds, or both do, with the same definitions, which the terms mean. -/
theorem definitions_in_any_order (members : Json.Members) (vocab : Option String)
    (terms : NameMap TermDefinition) {order order' : List String}
    (perm : order.Perm (definedKeys members)) (perm' : order'.Perm (definedKeys members)) :
    ((∃ name ∈ definedKeys members, ¬ ∃ d, Means ⟨members, vocab⟩ terms name d) ∧
      ∃ e e', defineInOrder members vocab terms order = .error e ∧
        defineInOrder members vocab terms order' = .error e') ∨
    ∃ a b, defineInOrder members vocab terms order = .ok a ∧
      defineInOrder members vocab terms order' = .ok b ∧
      (∀ name, NameMap.get? a name = NameMap.get? b name) ∧ (terms.Sorted → a = b) ∧
      ∀ name ∈ definedKeys members, ∃ d, NameMap.get? a name = some d ∧
        Means ⟨members, vocab⟩ terms name d := by
  rcases defineInOrder_ends members vocab terms perm with
    ⟨⟨e, failed⟩, name, member, meaningless⟩ | ⟨s, done, grown, meaning⟩
  · rcases defineInOrder_ends members vocab terms perm' with ⟨⟨e', failed'⟩, -⟩ | ⟨s', -, -, meaning'⟩
    · exact .inl ⟨⟨name, member, meaningless⟩, e, e', failed, failed'⟩
    · obtain ⟨d, -, means⟩ := meaning' name member
      exact absurd ⟨d, means⟩ meaningless
  · rcases defineInOrder_ends members vocab terms perm' with
      ⟨-, name, member, meaningless⟩ | ⟨s', done', grown', -⟩
    · obtain ⟨d, -, means⟩ := meaning name member
      exact absurd ⟨d, means⟩ meaningless
    · have same : ∀ name, name ∈ order ↔ name ∈ order' := by
        intro name
        exact perm.mem_iff.trans perm'.mem_iff.symm
      have agree := grown.get?_terms_eq grown' same
      refine .inr ⟨s.terms, s'.terms, done, done', agree, fun sorted => ?_, meaning⟩
      exact NameMap.Sorted.eq_of_get? (grown.consistent.sorted sorted)
        (grown'.consistent.sorted sorted) agree

/-- A birth date whose type is an alias of an alias, the terms in the order of their names. -/
def datedTerms : Json.Members :=
  [("born", .object [("@id", .string "s:birthDate"), ("@type", .string "day")]),
   ("date", .string "s:Date"), ("day", .string "date"), ("s", .string "http://schema.org/")]

theorem dated_terms_in_two_orders :
    ∃ t, defineAll datedTerms none [] = .ok t ∧
      defineInOrder datedTerms none [] ["s", "day", "date", "born"] = .ok t ∧
      (NameMap.get? t "born").bind TermDefinition.typeMapping = some "http://schema.org/Date" := by
  have computed : (defineAll datedTerms none []).passes (fun t => decide
      ((NameMap.get? t "born").bind TermDefinition.typeMapping =
        some "http://schema.org/Date")) = true := by
    decide +kernel
  obtain ⟨t, done, typed⟩ := Except.exists_of_passes computed
  have perm : ["s", "day", "date", "born"].Perm (definedKeys datedTerms) := by decide +kernel
  rcases definitions_in_any_order datedTerms none [] (.refl _) perm with
    ⟨-, e, -, failed, -⟩ | ⟨a, b, first, second, -, same, -⟩
  · rw [defineAll_eq, failed] at done
    cases done
  · rw [defineAll_eq, first] at done
    cases done
    cases same NameMap.sorted_nil
    exact ⟨t, first, second, of_decide_eq_true typed⟩

end LinkedCommit.Terms
