import LinkedCommit.Context.Terms
import LinkedCommit.Proofs.Result
/-!
# What a definition needs, and what it then is

The value of a term can be read without any other term (`Draft.of`).  What it says names the terms of
the local context that must be defined first (`Draft.needs`), and once they are it is a definition
(`Draft.definition`).  The definition depends on theirs and on no other term of the local context
(`Draft.definition_congr`).
-/

set_option autoImplicit false

namespace LinkedCommit.Terms

/-! ## Values read alone -/

/-- What the value of a term says before any other term is looked at. -/
structure Draft where
  target : Target
  typeText : Option String
  /-- The definition but for its identifier and its type. -/
  plain : TermDefinition

def typeText (term : String) (m : Json.Members) : Except ContextError (Option String) :=
  match NameMap.get? m "@type" with
  | none => .ok none
  | some (.string t) => .ok (some t)
  | some _ => .error (.typeNotString term)

namespace Draft

def ofMembers (term : String) (m : Json.Members) : Except ContextError Draft := do
  let target ← Terms.target term m
  let typeText ← Terms.typeText term m
  let container ← containers term m
  return {
    target
    typeText
    plain := {
      id := none
      isReverse := isStringMember m "@reverse"
      typeMapping := none
      container
      language := ((NameMap.get? m "@language").bind Json.string?).map Text.lower
      scopedContext := NameMap.get? m "@context"
      isProtected := match NameMap.get? m "@protected" with
        | some (.bool b) => b
        | _ => false } }

def of (term : String) : Json → Except ContextError Draft
  | .null => .ok ⟨.nothing, none, .empty⟩
  | .string raw => .ok ⟨.text raw, none, .empty⟩
  | .object m => ofMembers term m
  | _ => .error (.invalidDefinition term)

end Draft

/-! ## What texts stand for, and what they need for it -/

section Texts

variable (scope : Scope) (old terms : NameMap TermDefinition)

def formValue (text : String) : Option String :=
  match Colon.of text with
  | .literal => some text
  | .compact term rest => some (Context.expandCompact terms term rest text)
  | .absent => scope.vocab.map (· ++ text)

/-- The prefix of a text, if it is a term of the local context. -/
def formNeeds (text : String) : List String :=
  match Colon.of text with
  | .compact term _ => if NameMap.contains scope.members term then [term] else []
  | _ => []

def textValue (text : String) : Option String :=
  if isKeyword text then some text
  else
    match NameMap.get? terms text with
    | some d => d.id
    | none => formValue scope terms text

/-- A text that is a term of the local context, or else its prefix unless the text was defined
before. -/
def textNeeds (text : String) : List String :=
  if isKeyword text then []
  else if NameMap.contains scope.members text then [text]
  else if NameMap.contains old text then []
  else formNeeds scope text

def Target.value (term : String) : Target → Option String
  | .nothing => none
  | .text raw =>
    if isKeyword raw then some raw
    else if raw = term then formValue scope terms raw
    else some ((textValue scope terms raw).getD raw)
  | .implicit =>
    if (cutAtColon term).isSome then formValue scope terms term
    else scope.vocab.map (· ++ term)

def typeValue (typeText : Option String) : Option String :=
  typeText.map fun t => (textValue scope terms t).getD t

/-- The term's own name counts only through its prefix. -/
def Target.needs (term : String) : Target → List String
  | .nothing => []
  | .text raw =>
    if isKeyword raw then []
    else if raw = term then formNeeds scope raw
    else textNeeds scope old raw
  | .implicit => if (cutAtColon term).isSome then formNeeds scope term else []

def typeNeeds (typeText : Option String) : List String :=
  (typeText.map (textNeeds scope old)).getD []

/-- The terms of the local context that must be defined before a term. -/
def Draft.needs (term : String) (draft : Draft) : List String :=
  typeNeeds scope old draft.typeText ++ draft.target.needs scope old term

def Draft.definition (term : String) (draft : Draft) : TermDefinition :=
  { draft.plain with
    id := draft.target.value scope terms term
    typeMapping := typeValue scope terms draft.typeText }

end Texts

section Agreement

variable {scope : Scope} {old terms terms' : NameMap TermDefinition}

theorem formNeeds_local {text name : String} (member : name ∈ formNeeds scope text) :
    NameMap.contains scope.members name = true := by
  unfold formNeeds at member
  split at member
  · split at member
    · rwa [List.mem_singleton.mp member]
    · cases member
  · cases member

theorem textNeeds_local {text name : String} (member : name ∈ textNeeds scope old text) :
    NameMap.contains scope.members name = true := by
  unfold textNeeds at member
  split at member
  · cases member
  · split at member
    · rwa [List.mem_singleton.mp member]
    · split at member
      · cases member
      · exact formNeeds_local member

theorem typeNeeds_local {typeText : Option String} {name : String}
    (member : name ∈ typeNeeds scope old typeText) : NameMap.contains scope.members name = true := by
  cases typeText with
  | none => cases member
  | some t => exact textNeeds_local member

theorem Draft.needs_local {term name : String} {draft : Draft}
    (member : name ∈ draft.needs scope old term) : NameMap.contains scope.members name = true := by
  rcases List.mem_append.mp member with ofType | ofTarget
  · exact typeNeeds_local ofType
  · unfold Target.needs at ofTarget
    split at ofTarget
    · cases ofTarget
    · split at ofTarget
      · cases ofTarget
      · split at ofTarget
        · exact formNeeds_local ofTarget
        · exact textNeeds_local ofTarget
    · split at ofTarget
      · exact formNeeds_local ofTarget
      · cases ofTarget

/-- Two tables have the same definitions of some names, and of all that are no terms of the local
context those of before. -/
structure Agree (scope : Scope) (old : NameMap TermDefinition) (names : List String)
    (terms terms' : NameMap TermDefinition) : Prop where
  named : ∀ n ∈ names, ∃ d, NameMap.get? terms n = some d ∧ NameMap.get? terms' n = some d
  outside : ∀ n, NameMap.contains scope.members n = false →
    NameMap.get? terms n = NameMap.get? old n ∧ NameMap.get? terms' n = NameMap.get? old n

theorem Agree.mono {few many : List String} (agree : Agree scope old many terms terms')
    (subset : few ⊆ many) : Agree scope old few terms terms' :=
  ⟨fun n member => agree.named n (subset member), agree.outside⟩

theorem formValue_congr {text : String} (agree : Agree scope old (formNeeds scope text) terms terms') :
    formValue scope terms text = formValue scope terms' text := by
  unfold formNeeds at agree
  unfold formValue
  split
  · rfl
  · rename_i term rest form
    rw [form] at agree
    have same : NameMap.get? terms term = NameMap.get? terms' term := by
      cases isLocal : NameMap.contains scope.members term with
      | true =>
          obtain ⟨d, found, found'⟩ := agree.named term (by simp [isLocal])
          rw [found, found']
      | false => rw [(agree.outside term isLocal).1, (agree.outside term isLocal).2]
    rw [Context.expandCompact, Context.expandCompact, same]
  · rfl

theorem textValue_congr {text : String}
    (agree : Agree scope old (textNeeds scope old text) terms terms') :
    textValue scope terms text = textValue scope terms' text := by
  unfold textNeeds at agree
  unfold textValue
  by_cases keyword : isKeyword text = true
  · rw [if_pos keyword, if_pos keyword]
  rw [if_neg keyword, if_neg keyword]
  rw [if_neg keyword] at agree
  cases isLocal : NameMap.contains scope.members text with
  | true =>
      rw [isLocal, if_pos rfl] at agree
      obtain ⟨d, found, found'⟩ := agree.named text (List.mem_singleton_self _)
      rw [found, found']
  | false =>
      rw [(agree.outside text isLocal).1, (agree.outside text isLocal).2]
      cases defined : NameMap.get? old text with
      | some d => rfl
      | none =>
          have undefined : NameMap.contains old text = false := by rw [NameMap.contains, defined]; rfl
          simp only [isLocal, undefined, Bool.false_eq_true, if_false] at agree
          exact formValue_congr agree

theorem typeValue_congr {typeText : Option String}
    (agree : Agree scope old (typeNeeds scope old typeText) terms terms') :
    typeValue scope terms typeText = typeValue scope terms' typeText := by
  cases typeText with
  | none => rfl
  | some t => rw [typeValue, typeValue, Option.map_some, Option.map_some, textValue_congr agree]

theorem Draft.definition_congr {term : String} {draft : Draft}
    (agree : Agree scope old (draft.needs scope old term) terms terms') :
    draft.definition scope terms term = draft.definition scope terms' term := by
  have ofTarget := agree.mono (List.subset_append_right (typeNeeds scope old draft.typeText) _)
  have ofType := agree.mono (List.subset_append_left _ (draft.target.needs scope old term))
  have sameTarget : draft.target.value scope terms term = draft.target.value scope terms' term := by
    unfold Target.needs at ofTarget
    unfold Target.value
    split
    · rfl
    · rename_i raw isText
      rw [isText] at ofTarget
      by_cases keyword : isKeyword raw = true
      · rw [if_pos keyword, if_pos keyword]
      by_cases own : raw = term
      · simp only [if_neg keyword, if_pos own] at ofTarget ⊢
        exact formValue_congr ofTarget
      · simp only [if_neg keyword, if_neg own] at ofTarget ⊢
        rw [textValue_congr ofTarget]
    · rename_i isImplicit
      rw [isImplicit] at ofTarget
      by_cases colon : (cutAtColon term).isSome = true
      · simp only [if_pos colon] at ofTarget ⊢
        exact formValue_congr ofTarget
      · rw [if_neg colon, if_neg colon]
  rw [Draft.definition, Draft.definition, sameTarget, typeValue_congr ofType]

end Agreement

end LinkedCommit.Terms
