import LinkedCommit.Document.Place
import LinkedCommit.Proofs.Result
/-!
# Ways through a document

The walk to a place in a document answers identifiers and indices.  `Place.way?` is the same walk
with all that it meets: at each step the array with the index, or the object with the contexts that
apply there and the token, and at the end the value of the place (`Place.walk_eq_ok_iff`).
-/

set_option autoImplicit false

namespace LinkedCommit

namespace Place

/-! ## Tokens -/

theorem splitOn_ne_nil (c : Char) (cs : List Char) : Iri.splitOn c cs ≠ [] := by
  cases cs with
  | nil => exact List.cons_ne_nil _ _
  | cons d rest =>
      rw [Iri.splitOn, List.foldr_cons]
      split
      · exact List.cons_ne_nil _ _
      · split <;> exact List.cons_ne_nil _ _

theorem splitOn_append (c : Char) (before after : List Char) :
    Iri.splitOn c (before ++ c :: after) = Iri.splitOn c before ++ Iri.splitOn c after := by
  induction before with
  | nil => simp [Iri.splitOn]
  | cons d rest ih =>
      have nonempty := splitOn_ne_nil c rest
      unfold Iri.splitOn at ih nonempty ⊢
      rw [List.cons_append, List.foldr_cons, List.foldr_cons, ih]
      split
      · rfl
      · generalize List.foldr _ [[]] rest = groups at nonempty ⊢
        cases groups with
        | nil => exact absurd rfl nonempty
        | cons group others => rfl

theorem tokens_eq_ok_iff {dotted : String} {parts : List String} :
    tokens dotted = .ok parts ↔ dotted.isEmpty = false ∧
      parts = (Iri.splitOn '.' dotted.toList).map String.ofList ∧
      parts.any String.isEmpty = false := by
  unfold tokens
  split
  · rename_i isEmpty
    simp [isEmpty]
  · rename_i notEmpty
    dsimp only
    split
    · rename_i gap
      constructor
      · nofun
      · rintro ⟨-, rfl, full⟩
        exact absurd gap (by rw [full]; exact Bool.false_ne_true)
    · rename_i full
      constructor
      · intro done
        cases done
        exact ⟨(Bool.not_eq_true _).mp notEmpty, rfl, (Bool.not_eq_true _).mp full⟩
      · rintro ⟨-, rfl, -⟩
        rfl

theorem tokens_append {first second : String} {parts others : List String}
    (done : tokens first = .ok parts) (done' : tokens second = .ok others) :
    tokens (first ++ "." ++ second) = .ok (parts ++ others) := by
  rw [tokens_eq_ok_iff] at *
  obtain ⟨-, rfl, full⟩ := done
  obtain ⟨-, rfl, full'⟩ := done'
  have chars : (first ++ "." ++ second).toList = first.toList ++ '.' :: second.toList := by
    simp [String.toList_append]
  refine ⟨?_, ?_, ?_⟩
  · rw [← Bool.not_eq_true, String.isEmpty_iff]
    intro empty
    rw [empty] at chars
    simp at chars
  · rw [chars, splitOn_append, List.map_append]
  · rw [List.any_append, full, full']
    rfl

/-! ## Steps -/

/-- A step: to an item of an array, or to a member of an object under contexts.  The typed context
has what belongs to the types of the object besides. -/
inductive Step where
  | item (items : List Json) (i : Nat)
  | member (ctx typed : Context) (members : Json.Members) (token iri : String)

def Step.segment : Step → Segment
  | .item _ i => .index i
  | .member _ _ _ _ iri => .term iri

def below (loader : Loader) (ctx typed : Context) (token : String) : Except DocumentError Context :=
  match (typed.term? token).bind TermDefinition.scopedContext with
  | some json => ctx.parse loader json
  | none => .ok ctx

def way? (loader : Loader) (ctx : Context) (node : Json) :
    List String → Option (List Step × Json)
  | [] => some ([], node)
  | token :: rest =>
    match isIndex token, node with
    | true, .array items => do
      let i ← index? token
      let item ← items[i]?
      let (steps, target) ← way? loader ctx item rest
      return (.item items i :: steps, target)
    | false, .object members => do
      let ctx ← (ctx.applyEmbedded loader members).toOption
      let typed ← (ctx.typeScoped loader members).toOption
      let child ← NameMap.get? members token
      let iri ← typed.expand? token true
      let inner ← (below loader ctx typed token).toOption
      let (steps, target) ← way? loader inner child rest
      return (.member ctx typed members token iri :: steps, target)
    | _, _ => none

variable {loader : Loader} {ctx : Context} {node target : Json} {token : String}
  {tokens : List String} {steps : List Step} {step : Step}

/-- What the first step of a way is. -/
inductive Stepped (loader : Loader) (ctx : Context) (token : String) :
    Json → Step → Context → Json → Prop
  | item {items : List Json} {i : Nat} {item : Json} (digits : isIndex token = true)
      (index : index? token = some i) (found : items[i]? = some item) :
      Stepped loader ctx token (.array items) (.item items i) ctx item
  | member {members : Json.Members} {around typed inner : Context} {child : Json} {iri : String}
      (term : isIndex token = false) (embedded : ctx.applyEmbedded loader members = .ok around)
      (scopes : around.typeScoped loader members = .ok typed)
      (found : NameMap.get? members token = some child)
      (expanded : typed.expand? token true = some iri)
      (under : below loader around typed token = .ok inner) :
      Stepped loader ctx token (.object members) (.member around typed members token iri) inner
        child

theorem way?_cons_eq_some_iff {way : List Step} :
    way? loader ctx node (token :: tokens) = some (way, target) ↔
      ∃ step inner child steps, Stepped loader ctx token node step inner child ∧
        way? loader inner child tokens = some (steps, target) ∧ way = step :: steps := by
  constructor
  · intro found
    unfold way? at found
    split at found
    · rename_i items digits
      simp only [Option.bind_eq_bind, Option.bind_eq_some_iff, Prod.exists] at found
      obtain ⟨i, index, item, there, steps, target', further, same⟩ := found
      cases same
      exact ⟨_, ctx, item, steps, .item digits index there, further, rfl⟩
    · rename_i members term
      simp only [Option.bind_eq_bind, Option.bind_eq_some_iff, Prod.exists,
        Except.toOption_eq_some_iff] at found
      obtain ⟨around, embedded, typed, scopes, child, there, iri, expanded, inner, under, steps,
        target', further, same⟩ := found
      cases same
      exact ⟨_, inner, child, steps, .member term embedded scopes there expanded under, further,
        rfl⟩
    · cases found
  · rintro ⟨step, inner, child, steps, stepped, further, rfl⟩
    cases stepped with
    | item digits index found =>
        rw [way?]
        · simp [index, found, further]
        · exact digits
    | member term embedded scopes found expanded under =>
        rw [way?]
        · simp [embedded, scopes, found, expanded, under, further, Except.toOption]
        · exact term

theorem itemAt_eq_ok_iff {place : String} {i : Nat} {item : Json} :
    itemAt node token place = .ok (i, item) ↔
      ∃ items, node = .array items ∧ index? token = some i ∧ items[i]? = some item := by
  have found : ∀ items : List Json,
      ((index? token).bind fun i => (items[i]?).map (i, ·)) = some (i, item) ↔
        index? token = some i ∧ items[i]? = some item := by
    intro items
    simp only [Option.bind_eq_some_iff, Option.map_eq_some_iff, Prod.mk.injEq]
    constructor
    · rintro ⟨i, index, item, there, rfl, rfl⟩
      exact ⟨index, there⟩
    · rintro ⟨index, there⟩
      exact ⟨i, index, item, there, rfl, rfl⟩
  unfold itemAt
  split
  · constructor
    · nofun
    · rintro ⟨items, same, -, there⟩
      cases same
      cases there
  · rename_i items _
    constructor
    · intro done
      split at done
      · rename_i one
        cases done
        exact ⟨items, rfl, (found items).mp one⟩
      · cases done
    · rintro ⟨_, same, there⟩
      cases same
      rw [(found items).mpr there]
  · rename_i notArray
    constructor
    · nofun
    · rintro ⟨items, rfl, -⟩
      exact absurd rfl (notArray items)

theorem membersAt_eq_ok_iff {place : String} {members : Json.Members} :
    membersAt node place = .ok members ↔ node = .object members := by
  unfold membersAt
  split
  · simp
  · simp
  · rename_i notObject _
    constructor
    · nofun
    · rintro rfl
      exact absurd rfl (notObject members)

theorem walk_cons_eq_ok_iff {walked : List String} {segments : List Segment} :
    walk loader ctx node walked (token :: tokens) = .ok segments ↔
      ∃ step inner child rest, Stepped loader ctx token node step inner child ∧
        walk loader inner child (walked ++ [token]) tokens = .ok rest ∧
        segments = step.segment :: rest := by
  rw [walk]
  split
  · rename_i digits
    simp only [Except.bind_eq_ok_iff, Prod.exists, itemAt_eq_ok_iff]
    constructor
    · rintro ⟨i, item, ⟨items, rfl, index, there⟩, rest, further, same⟩
      cases same
      exact ⟨_, ctx, item, rest, .item digits index there, further, rfl⟩
    · rintro ⟨step, inner, child, rest, stepped, further, rfl⟩
      cases stepped with
      | item _ index there => exact ⟨_, _, ⟨_, rfl, index, there⟩, rest, further, rfl⟩
      | member term => exact absurd digits (by rw [term]; exact Bool.false_ne_true)
  · rename_i notDigits
    simp only [Except.bind_eq_ok_iff, membersAt_eq_ok_iff]
    constructor
    · rintro ⟨members, rfl, around, embedded, typed, scopes, done⟩
      split at done
      · cases done
      · rename_i child there
        split at done
        · cases done
        · rename_i iri expanded
          have done : (below loader around typed token >>= fun inner =>
              walk loader inner child (walked ++ [token]) tokens >>= fun rest =>
                .ok (.term iri :: rest)) = .ok segments := by
            unfold below
            generalize (typed.term? token).bind TermDefinition.scopedContext = scope at done ⊢
            cases scope <;> exact done
          obtain ⟨inner, under, done⟩ := Except.bind_eq_ok_iff.mp done
          obtain ⟨rest, further, same⟩ := Except.bind_eq_ok_iff.mp done
          have term : isIndex token = false := (Bool.not_eq_true _).mp notDigits
          exact ⟨_, inner, child, rest, .member term embedded scopes there expanded under, further,
            (Except.ok.inj same).symm⟩
    · rintro ⟨step, inner, child, rest, stepped, further, rfl⟩
      cases stepped with
      | item digits => exact absurd digits notDigits
      | member _ embedded scopes there expanded under =>
          refine ⟨_, rfl, _, embedded, _, scopes, ?_⟩
          rw [there]
          dsimp only
          rw [expanded]
          dsimp only
          unfold below at under
          generalize (Option.bind _ TermDefinition.scopedContext) = scope at under ⊢
          cases scope with
          | none =>
              cases under
              exact Except.bind_eq_ok_iff.mpr ⟨inner, rfl,
                Except.bind_eq_ok_iff.mpr ⟨rest, further, rfl⟩⟩
          | some json =>
              exact Except.bind_eq_ok_iff.mpr ⟨inner, under,
                Except.bind_eq_ok_iff.mpr ⟨rest, further, rfl⟩⟩

theorem walk_eq_ok_iff {walked : List String} {segments : List Segment} :
    walk loader ctx node walked tokens = .ok segments ↔
      ∃ steps target, way? loader ctx node tokens = some (steps, target) ∧
        segments = steps.map Step.segment := by
  induction tokens generalizing ctx node walked segments with
  | nil =>
      rw [walk, way?]
      constructor
      · intro done
        cases done
        exact ⟨[], node, rfl, rfl⟩
      · rintro ⟨steps, target, found, rfl⟩
        cases found
        rfl
  | cons token rest ih =>
      simp only [walk_cons_eq_ok_iff, way?_cons_eq_some_iff, ih]
      constructor
      · rintro ⟨step, inner, child, _, stepped, ⟨steps, target, further, rfl⟩, rfl⟩
        exact ⟨_, target, ⟨step, inner, child, steps, stepped, further, rfl⟩, rfl⟩
      · rintro ⟨_, target, ⟨step, inner, child, steps, stepped, further, rfl⟩, rfl⟩
        exact ⟨step, inner, child, _, stepped, ⟨steps, target, further, rfl⟩, rfl⟩

theorem way_of_pathFromDocument {document : Json} {dotted : String} {parts : List String}
    {path : Path} (parted : Place.tokens dotted = .ok parts)
    (done : pathFromDocument loader document dotted = .ok path) :
    ∃ steps target, way? loader .empty document parts = some (steps, target) ∧
      path = ⟨steps.map Step.segment⟩ := by
  rw [pathFromDocument, parted] at done
  change (walk loader .empty document [] parts >>= fun segments => .ok (Path.mk segments)) = _
    at done
  obtain ⟨segments, walked, same⟩ := Except.bind_eq_ok_iff.mp done
  cases same
  obtain ⟨steps, target, way, rfl⟩ := walk_eq_ok_iff.mp walked
  exact ⟨steps, target, way, rfl⟩

end Place

end LinkedCommit
