import Mathlib.Data.Prod.Lex
import Mathlib.Order.WellFounded
import LinkedCommit.Proofs.Context.Inlined
import LinkedCommit.Proofs.Recursion
/-!
# Chains of references

What a context refers to comes from the loader, so the size of a context is no measure of the work
that it makes.  Processing is a recursion with a limit on the references followed inside each other
(`Context.processing`): what is left of the limit goes down with a reference, the size of the local
context with an item of a list.  So it ends (`evaluates_parse_iff`).

What an object imports is loaded too, but leads to no further call, as its own import is left alone.
References are resolved by the base alone.  So a call has no result that comes back to its local
context with the base that it has, or by absolute references (`Cyclic.not_evaluates`).
-/

set_option autoImplicit false

namespace LinkedCommit.Context

open Relation (TransGen)
open Recursion (By)

structure Call where
  /-- The number of references that were followed to come here. -/
  depth : Nat
  context : Context
  json : Json

namespace Call

/-- A call makes another one.  With the rest of a list it goes on in what the first item makes of
the active context. -/
inductive Makes (loader : Loader) (E : Call → Except DocumentError Context → Prop) :
    Call → Call → Prop
  | reference {depth : Nat} {ctx : Context} {reference : String} {inner : Json}
      (found : loadContext loader (ctx.resolveReference reference) = .ok inner) :
      Makes loader E ⟨depth, ctx, .string reference⟩ ⟨depth + 1, ctx, inner⟩
  | first {depth : Nat} {ctx : Context} {item : Json} {rest : List Json} :
      Makes loader E ⟨depth, ctx, .array (item :: rest)⟩ ⟨depth, ctx, item⟩
  | next {depth : Nat} {ctx mid : Context} {item : Json} {rest : List Json}
      (first : E ⟨depth, ctx, item⟩ (.ok mid)) :
      Makes loader E ⟨depth, ctx, .array (item :: rest)⟩ ⟨depth, mid, .array rest⟩

/-- What a call comes to, where `answer` tells it of the calls that it makes. -/
def level (loader : Loader) (answer : Call → Except DocumentError Context) :
    Call → Except DocumentError Context
  | ⟨depth, ctx, .string reference⟩ => do
    let inner ← loadContext loader (ctx.resolveReference reference)
    answer ⟨depth + 1, ctx, inner⟩
  | ⟨_, ctx, .array []⟩ => .ok ctx
  | ⟨depth, ctx, .array (item :: rest)⟩ => do
    let mid ← answer ⟨depth, ctx, item⟩
    answer ⟨depth, mid, .array rest⟩
  | ⟨_, ctx, .null⟩ => .ok { empty with base := ctx.base }
  | ⟨_, ctx, .object members⟩ => applyObject loader ctx members
  | ⟨_, _, other⟩ => .error (.context (.notAContext other.text))

variable {loader : Loader} {answer answer' : Call → Except DocumentError Context}
  {call inner : Call}

theorem level_congr (agree : ∀ inner, Makes loader (By answer) call inner →
    Makes loader (By answer') call inner → answer inner = answer' inner) :
    level loader answer call = level loader answer' call := by
  obtain ⟨depth, ctx, json⟩ := call
  cases json with
  | string reference =>
      simp only [level]
      cases found : loadContext loader (ctx.resolveReference reference) with
      | error e => rfl
      | ok inner => exact agree _ (.reference found) (.reference found)
  | array items =>
      cases items with
      | nil => rfl
      | cons item rest =>
          simp only [level]
          have first := agree _ .first .first
          cases came : answer' ⟨depth, ctx, item⟩ with
          | error e => rw [first, came]; rfl
          | ok mid =>
              rw [first, came]
              exact agree _ (.next (first.trans came)) (.next came)
  | null | bool | number | object => rfl

theorem makes_congr {E E' : Call → Except DocumentError Context → Prop}
    (keep : ∀ other result, Makes loader E call other → Makes loader E' call other →
      E other result → E' other result) (makes : Makes loader E call inner) :
    Makes loader E' call inner := by
  cases makes with
  | reference found => exact .reference found
  | first => exact .first
  | next first => exact .next (keep _ _ .first .first first)

theorem exists_ok {out : Context} (done : level loader answer call = .ok out)
    (makes : Makes loader (By answer) call inner) : ∃ out, answer inner = .ok out := by
  cases makes with
  | reference found =>
      rw [level, found] at done
      exact ⟨out, done⟩
  | first =>
      obtain ⟨mid, first, -⟩ := Except.bind_eq_ok_iff.mp done
      exact ⟨mid, first⟩
  | next first =>
      obtain ⟨mid, first', done⟩ := Except.bind_eq_ok_iff.mp done
      cases first.symm.trans first'
      exact ⟨out, done⟩

end Call

def processing (loader : Loader) : Recursion Call DocumentError Context where
  depth := Call.depth
  tooDeep := .context .tooDeep
  level := Call.level loader
  Makes := Call.Makes loader
  level_congr := Call.level_congr
  makes_congr := Call.makes_congr
  exists_ok := Call.exists_ok

variable {loader : Loader}

/-! ## Processing ends -/

def Call.answer (loader : Loader) (call : Call) : Except DocumentError Context :=
  process loader (maxContextDepth + 1 - call.depth) call.context call.json

theorem Call.level_answer (call : Call) (within : call.depth ≤ maxContextDepth) :
    level loader (answer loader) call = call.answer loader := by
  obtain ⟨depth, ctx, json⟩ := call
  obtain ⟨budget, left⟩ : ∃ budget, maxContextDepth + 1 - depth = budget + 1 :=
    Nat.exists_eq_add_one.mpr (Nat.sub_pos_of_lt (Nat.lt_succ_of_le within))
  have below : maxContextDepth + 1 - (depth + 1) = budget := by omega
  cases json with
  | array items =>
      cases items <;> simp only [answer, level, left, process, applyLocal, applyItems]
  | string reference => simp only [answer, level, left, below, process, applyLocal]
  | null | bool | number | object => simp only [answer, level, left, process, applyLocal]

/-- What is left of the limit, and then the size of the local context, which a reference may raise
to anything. -/
noncomputable def Call.rank (call : Call) : Nat ×ₗ Nat :=
  toLex (maxContextDepth + 1 - call.depth, sizeOf call.json)

theorem Call.rank_lt {E : Call → Except DocumentError Context → Prop} {call inner : Call}
    (within : call.depth ≤ maxContextDepth) (makes : Makes loader E call inner) :
    inner.rank < call.rank := by
  rw [rank, rank, Prod.Lex.toLex_lt_toLex]
  cases makes with
  | reference => exact Or.inl (by dsimp only at within ⊢; omega)
  | first | next =>
      refine Or.inr ⟨rfl, ?_⟩
      simp only [Json.array.sizeOf_spec, List.cons.sizeOf_spec]
      omega

/-- Processing ends, and with what `parse` answers. -/
theorem evaluates_parse_iff (ctx : Context) (json : Json) (result : Except DocumentError Context) :
    (processing loader).Evaluates maxContextDepth ⟨0, ctx, json⟩ result ↔
      result = ctx.parse loader json := by
  have ends : (processing loader).Evaluates maxContextDepth ⟨0, ctx, json⟩
      (Call.answer loader ⟨0, ctx, json⟩) := by
    refine Recursion.evaluates_of_rank Call.rank (fun call below => ?_)
      (fun call within => call.level_answer (Nat.cast_le.mp within))
      (fun call inner within => Call.rank_lt (Nat.cast_le.mp within)) _
    have below : maxContextDepth < call.depth := Nat.cast_lt.mp below
    rw [Call.answer, Nat.sub_eq_zero_of_le below]
    rfl
  exact ⟨fun evaluates => evaluates.unique ends, fun same => same ▸ ends⟩

/-! ## Bases -/

section Base

variable {ctx ctx' : Context} {members : Json.Members}

theorem withImport_of_base (same : ctx'.base = ctx.base) :
    withImport loader ctx' members = withImport loader ctx members := by
  unfold withImport
  simp only [resolveReference_of_base same]

theorem applyBase_of_base (same : ctx'.base = ctx.base) {out out' : Context}
    (done : applyBase ctx members = .ok out) (done' : applyBase ctx' members = .ok out') :
    out'.base = out.base := by
  unfold applyBase at done done'
  generalize NameMap.get? members "@base" = found at done done'
  cases found with
  | none =>
      cases done
      cases done'
      exact same
  | some value =>
      cases value with
      | null =>
          cases done
          cases done'
          rfl
      | string reference =>
          cases done
          cases done'
          exact congrArg some (resolveReference_of_base same reference)
      | bool | number | array | object => cases done

theorem base_of_applyVocab {out : Context} (done : applyVocab ctx members = .ok out) :
    out.base = ctx.base := by
  unfold applyVocab at done
  split at done <;> cases done <;> rfl

theorem base_of_applyMembers {out : Context} (done : applyMembers ctx members = .ok out) :
    ∃ based, applyBase ctx members = .ok based ∧ out.base = based.base := by
  obtain ⟨based, first, done⟩ := Except.bind_eq_ok_iff.mp done
  obtain ⟨worded, second, done⟩ := Except.bind_eq_ok_iff.mp done
  obtain ⟨terms, -, same⟩ := Except.bind_eq_ok_iff.mp done
  cases same
  refine ⟨based, first, ?_⟩
  show (applyLanguage worded members).base = based.base
  rw [← base_of_applyVocab second]
  unfold applyLanguage
  split <;> rfl

theorem applyObject_of_base (same : ctx'.base = ctx.base) {out out' : Context}
    (done : applyObject loader ctx members = .ok out)
    (done' : applyObject loader ctx' members = .ok out') : out'.base = out.base := by
  obtain ⟨merged, imported, -⟩ := Except.bind_eq_ok_iff.mp done
  rw [applyObject_of_withImport imported, Except.mapError_eq_ok_iff] at done
  rw [applyObject_of_withImport ((withImport_of_base same).trans imported),
    Except.mapError_eq_ok_iff] at done'
  obtain ⟨based, first, kept⟩ := base_of_applyMembers done
  obtain ⟨based', first', kept'⟩ := base_of_applyMembers done'
  rw [kept, kept']
  exact applyBase_of_base same first first'

end Base

section Inversion

variable {depth : Nat} {ctx out : Context}

theorem evaluates_object {limit : ℕ∞} {members : Json.Members}
    (done : (processing loader).Evaluates limit ⟨depth, ctx, .object members⟩ (.ok out)) :
    applyObject loader ctx members = .ok out := by
  cases done with
  | level _ _ made => exact made

theorem evaluates_string {limit : ℕ∞} {reference : String}
    (done : (processing loader).Evaluates limit ⟨depth, ctx, .string reference⟩ (.ok out)) :
    ∃ inner, loadContext loader (ctx.resolveReference reference) = .ok inner ∧
      (processing loader).Evaluates limit ⟨depth + 1, ctx, inner⟩ (.ok out) := by
  cases done with
  | level _ each made =>
      obtain ⟨inner, found, answered⟩ := Except.bind_eq_ok_iff.mp made
      exact ⟨inner, found, answered ▸ each _ (.reference found)⟩

theorem evaluates_cons {limit : ℕ∞} {item : Json} {rest : List Json}
    (done : (processing loader).Evaluates limit ⟨depth, ctx, .array (item :: rest)⟩ (.ok out)) :
    ∃ mid, (processing loader).Evaluates limit ⟨depth, ctx, item⟩ (.ok mid) ∧
      (processing loader).Evaluates limit ⟨depth, mid, .array rest⟩ (.ok out) := by
  cases done with
  | level _ each made =>
      obtain ⟨mid, first, answered⟩ := Except.bind_eq_ok_iff.mp made
      exact ⟨mid, first ▸ each _ .first, answered ▸ each _ (.next first)⟩

end Inversion

/-- Two results of a local context have one base if the active contexts before had one. -/
theorem base_eq_of_evaluates {depth depth' : Nat} {ctx ctx' out out' : Context} {json : Json}
    (base : ctx'.base = ctx.base)
    (done : (processing loader).Evaluates ⊤ ⟨depth, ctx, json⟩ (.ok out))
    (done' : (processing loader).Evaluates ⊤ ⟨depth', ctx', json⟩ (.ok out')) :
    out'.base = out.base := by
  generalize started : Call.mk depth ctx json = call, ended : Except.ok out = result at done
  induction done generalizing depth ctx json out depth' ctx' out' with
  | tooDeep => cases ended
  | level _ each made ih =>
      subst started ended
      cases json with
      | object members => exact applyObject_of_base base made (evaluates_object done')
      | string reference =>
          obtain ⟨inner, found, answered⟩ := Except.bind_eq_ok_iff.mp made
          obtain ⟨inner', found', inside'⟩ := evaluates_string done'
          rw [resolveReference_of_base base, found] at found'
          cases found'
          exact ih _ (.reference found) base inside' rfl answered.symm
      | array items =>
          cases items with
          | nil =>
              cases made
              cases done' with
              | level _ _ made' =>
                  cases made'
                  exact base
          | cons item rest =>
              obtain ⟨mid, first, answered⟩ := Except.bind_eq_ok_iff.mp made
              obtain ⟨mid', first', others'⟩ := evaluates_cons done'
              have mids : mid'.base = mid.base := ih _ .first base first' rfl first.symm
              exact ih _ (.next first) mids others' rfl answered.symm
      | null =>
          cases made
          cases done' with
          | level _ _ made' =>
              cases made'
              exact base
      | bool | number => cases made

/-! ## Calls that come back -/

/-- A local context that is a reference is an absolute one. -/
def Call.Absolute (call : Call) : Prop :=
  ∀ reference, call.json = .string reference → (Url.parse? reference).isSome

/-- A call comes back to its local context, with the base that it has or by absolute references
only. -/
def Cyclic (loader : Loader) (call : Call) : Prop :=
  ∃ again : Call, again.json = call.json ∧
    (TransGen (processing loader).Follows call again ∧ again.context.base = call.context.base ∨
      TransGen (fun outer inner => (processing loader).Follows outer inner ∧ outer.Absolute)
        call again)

/-- A step is made again from a call with the same local context that resolves its reference alike,
and leads to one base from one base. -/
theorem follows_again {call next call' : Call} (follows : (processing loader).Follows call next)
    (json : call'.json = call.json)
    (resolved : ∀ reference, call.json = .string reference →
      call'.context.resolveReference reference = call.context.resolveReference reference)
    (done : ∃ out, (processing loader).Evaluates ⊤ call' (.ok out)) :
    ∃ next', (processing loader).Follows call' next' ∧ next'.json = next.json ∧
      (call'.context.base = call.context.base → next'.context.base = next.context.base) := by
  obtain ⟨depth', ctx', json'⟩ := call'
  dsimp only at json
  subst json
  cases follows with
  | reference found =>
      rw [← resolved _ rfl] at found
      exact ⟨_, .reference found, rfl, id⟩
  | first => exact ⟨_, .first, rfl, id⟩
  | next first =>
      obtain ⟨_, done⟩ := done
      obtain ⟨mid', first', -⟩ := evaluates_cons done
      exact ⟨_, .next first', rfl, fun base => base_eq_of_evaluates base first first'⟩

theorem Cyclic.not_evaluates {call : Call} (cyclic : Cyclic loader call) (out : Context) :
    ¬ (processing loader).Evaluates ⊤ call (.ok out) := by
  obtain ⟨again, json, ⟨way, base⟩ | way⟩ := cyclic
  · have repeats : (processing loader).Repeats (processing loader).Follows fun call call' =>
        call'.json = call.json ∧ call'.context.base = call.context.base := by
      rintro call next call' follows ⟨json, base⟩ done
      obtain ⟨next', follows', json', base'⟩ := follows_again follows json
        (fun reference _ => resolveReference_of_base base reference) done
      exact ⟨next', follows', json', base' base⟩
    exact repeats.not_evaluates way ⟨rfl, rfl⟩
      (fun _ alike => ⟨alike.1.trans json, alike.2.trans base⟩) out
  · have repeats : (processing loader).Repeats
        (fun outer inner => (processing loader).Follows outer inner ∧ outer.Absolute)
        fun call call' => call'.json = call.json := by
      rintro call next call' ⟨follows, absolute⟩ json done
      have resolved : ∀ reference, call.json = .string reference →
          call'.context.resolveReference reference = call.context.resolveReference reference := by
        intro reference isReference
        have parsed := absolute reference isReference
        rw [resolveReference_of_absolute _ parsed, resolveReference_of_absolute _ parsed]
      obtain ⟨next', follows', json', -⟩ := follows_again follows json resolved done
      exact ⟨next', follows', json'⟩
    exact repeats.not_evaluates way rfl (fun _ alike => alike.trans json) out

end LinkedCommit.Context
