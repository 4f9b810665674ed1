import Mathlib.Data.ENat.Basic
import Mathlib.Logic.Relation
import Mathlib.Order.WellFounded
/-!
# Recursions with a limit

A recursion is given by one level of it: which calls a call makes, and what it comes to when these
have come to something.  `Recursion.Evaluates` is what a call comes to in finitely many calls where
a limit is put on their depth, or none (`⊤`).  `Recursion.Follows` leads from call to call.

A call comes to one thing at most (`Evaluates.unique`), and to something if the calls that it makes
are smaller (`evaluates_of_rank`).  A result, other than an error, is the one without a limit, and
is there exactly if no chain of calls goes deeper than the limit (`evaluates_ok_iff`).  A call that
leads to the like of itself has none (`Repeats.not_evaluates`).
-/

set_option autoImplicit false

namespace LinkedCommit

open Relation (ReflTransGen TransGen)

abbrev Recursion.By {Call ε α : Type} (answer : Call → Except ε α) (call : Call)
    (result : Except ε α) : Prop :=
  answer call = result

/-- One level of a recursion. -/
structure Recursion (Call ε α : Type) where
  depth : Call → Nat
  /-- The error of a call that is deeper than the limit. -/
  tooDeep : ε
  /-- What a call comes to, given what other calls come to. -/
  level : (Call → Except ε α) → Call → Except ε α
  /-- A call makes another one, which may hang on what those before have come to. -/
  Makes : (Call → Except ε α → Prop) → Call → Call → Prop
  /-- No other calls count than those that are made. -/
  level_congr : ∀ {answer answer' : Call → Except ε α} {call : Call},
    (∀ inner, Makes (Recursion.By answer) call inner → Makes (Recursion.By answer') call inner →
      answer inner = answer' inner) → level answer call = level answer' call
  makes_congr : ∀ {E E' : Call → Except ε α → Prop} {call inner : Call},
    (∀ other result, Makes E call other → Makes E' call other → E other result →
      E' other result) → Makes E call inner → Makes E' call inner
  /-- An error of a call that is made is not caught. -/
  exists_ok : ∀ {answer : Call → Except ε α} {call inner : Call} {out : α},
    level answer call = .ok out → Makes (Recursion.By answer) call inner →
      ∃ out, answer inner = .ok out

namespace Recursion

variable {Call ε α : Type} {r : Recursion Call ε α} {limit : ℕ∞}

/-- What a call comes to with a limit on the depth of calls. -/
inductive Evaluates (r : Recursion Call ε α) (limit : ℕ∞) : Call → Except ε α → Prop
  | tooDeep {call : Call} (deep : limit < r.depth call) :
      Evaluates r limit call (.error r.tooDeep)
  | level {call : Call} {answer : Call → Except ε α} {result : Except ε α}
      (within : r.depth call ≤ limit)
      (each : ∀ inner, r.Makes (By answer) call inner → Evaluates r limit inner (answer inner))
      (made : r.level answer call = result) : Evaluates r limit call result

/-- A call makes another one where there is no limit. -/
def Follows (r : Recursion Call ε α) : Call → Call → Prop := r.Makes (r.Evaluates ⊤)

/-! ## Every call comes to one thing -/

theorem Evaluates.unique {call : Call} {result result' : Except ε α}
    (one : r.Evaluates limit call result) (other : r.Evaluates limit call result') :
    result = result' := by
  induction one generalizing result' with
  | tooDeep deep =>
      cases other with
      | tooDeep => rfl
      | level within => exact absurd within (not_le_of_gt deep)
  | level within _ made ih =>
      cases other with
      | tooDeep deep => exact absurd within (not_le_of_gt deep)
      | level _ each' made' =>
          rw [← made, ← made']
          exact r.level_congr fun inner makes makes' => ih inner makes (each' inner makes')

/-- A function is what calls come to if it is so level by level, and within the limit the calls
that are made are smaller. -/
theorem evaluates_of_rank {β : Type} [LT β] [WellFoundedLT β] (rank : Call → β)
    {solve : Call → Except ε α}
    (deep : ∀ call, limit < r.depth call → solve call = .error r.tooDeep)
    (fixed : ∀ call, r.depth call ≤ limit → r.level solve call = solve call)
    (smaller : ∀ call inner, r.depth call ≤ limit → r.Makes (By solve) call inner →
      rank inner < rank call)
    (call : Call) : r.Evaluates limit call (solve call) := by
  induction call using (InvImage.wf rank wellFounded_lt).induction with
  | _ call ih =>
      by_cases within : r.depth call ≤ limit
      · exact .level within (fun inner makes => ih inner (smaller call inner within makes))
          (fixed call within)
      · have below := lt_of_not_ge within
        rw [deep call below]
        exact .tooDeep below

/-! ## Results, and the chains that there are -/

theorem Evaluates.depth_le {call : Call} {out : α} (done : r.Evaluates limit call (.ok out)) :
    r.depth call ≤ limit := by
  cases done
  assumption

/-- A result does not come from the limit. -/
theorem Evaluates.unlimited {call : Call} {out : α} (done : r.Evaluates limit call (.ok out)) :
    r.Evaluates ⊤ call (.ok out) := by
  generalize ended : Except.ok out = result at done
  induction done generalizing out with
  | tooDeep => cases ended
  | level _ _ made ih =>
      refine .level le_top (fun inner makes => ?_) made
      obtain ⟨out, answered⟩ := r.exists_ok (made.trans ended.symm) makes
      exact ih inner makes answered.symm

theorem makes_of_follows {call inner : Call} {answer : Call → Except ε α} {out : α}
    (each : ∀ inner, r.Makes (By answer) call inner → r.Evaluates limit inner (answer inner))
    (made : r.level answer call = .ok out) (follows : r.Follows call inner) :
    r.Makes (By answer) call inner := by
  refine r.makes_congr (fun other result _ makes evaluates => ?_) follows
  obtain ⟨out, answered⟩ := r.exists_ok made makes
  have done := each other makes
  rw [answered] at done
  exact answered.trans (done.unlimited.unique evaluates)

theorem Evaluates.step {call inner : Call} {out : α} (done : r.Evaluates limit call (.ok out))
    (follows : r.Follows call inner) : ∃ out, r.Evaluates limit inner (.ok out) := by
  cases done with
  | level _ each made =>
      have makes := makes_of_follows each made follows
      obtain ⟨out, answered⟩ := r.exists_ok made makes
      exact ⟨out, answered ▸ each inner makes⟩

theorem Evaluates.run {call last : Call} {out : α} (done : r.Evaluates limit call (.ok out))
    (way : ReflTransGen r.Follows call last) : ∃ out, r.Evaluates limit last (.ok out) := by
  induction way with
  | refl => exact ⟨out, done⟩
  | tail _ follows ih =>
      obtain ⟨_, there⟩ := ih
      exact there.step follows

/-- What has a result without a limit has it with one that no chain exceeds. -/
theorem Evaluates.limited {call : Call} {out : α} (done : r.Evaluates ⊤ call (.ok out))
    (bounded : ∀ last, ReflTransGen r.Follows call last → r.depth last ≤ limit) :
    r.Evaluates limit call (.ok out) := by
  generalize ended : Except.ok out = result at done
  induction done generalizing out with
  | tooDeep => cases ended
  | @level call answer _ _ each made ih =>
      refine .level (bounded _ .refl) (fun inner makes => ?_) made
      obtain ⟨out, answered⟩ := r.exists_ok (made.trans ended.symm) makes
      -- the answers are those without a limit, so the calls that are made are on a chain
      have follows : r.Follows call inner :=
        r.makes_congr (fun other _ makes _ answered => answered.subst (each other makes)) makes
      exact ih inner makes (fun last way => bounded last (.head follows way)) answered.symm

theorem evaluates_ok_iff {call : Call} {out : α} :
    r.Evaluates limit call (.ok out) ↔
      r.Evaluates ⊤ call (.ok out) ∧
        ∀ last, ReflTransGen r.Follows call last → r.depth last ≤ limit := by
  constructor
  · intro done
    refine ⟨done.unlimited, fun last way => ?_⟩
    obtain ⟨_, there⟩ := done.run way
    exact there.depth_le
  · rintro ⟨done, bounded⟩
    exact done.limited bounded

section Limited

variable {limit : Nat} {start : Call} {result : Except ε α}

theorem Evaluates.ok_iff (ends : r.Evaluates limit start result) {out : α} :
    result = .ok out ↔ r.Evaluates ⊤ start (.ok out) ∧
      ∀ last, ReflTransGen r.Follows start last → r.depth last ≤ limit := by
  have same : result = .ok out ↔ r.Evaluates limit start (.ok out) :=
    ⟨fun same => same ▸ ends, fun done => ends.unique done⟩
  rw [same, evaluates_ok_iff]
  simp only [Nat.cast_le]

/-- A chain that leads to a call without a result ends in an error. -/
theorem Evaluates.exists_error (ends : r.Evaluates limit start result) {call : Call}
    (way : ReflTransGen r.Follows start call) (endless : ∀ out, ¬ r.Evaluates ⊤ call (.ok out)) :
    ∃ e, result = .error e := by
  cases result with
  | error e => exact ⟨e, rfl⟩
  | ok out =>
      obtain ⟨out, there⟩ := ends.run way
      exact absurd there.unlimited (endless out)

end Limited

/-! ## Chains without an end -/

/-- From a call that has a result, every chain comes to an end. -/
theorem Evaluates.acc {call : Call} {out : α} (done : r.Evaluates ⊤ call (.ok out)) :
    Acc (Function.swap r.Follows) call := by
  generalize ended : Except.ok out = result at done
  induction done generalizing out with
  | tooDeep => cases ended
  | level _ each made ih =>
      subst ended
      refine ⟨_, fun inner follows => ?_⟩
      have makes := makes_of_follows each made follows
      obtain ⟨out, answered⟩ := r.exists_ok made makes
      exact ih inner makes answered.symm

/-- A member of a family that leads on within the family has no result. -/
theorem not_evaluates_of_onward {S : Call → Prop}
    (onward : ∀ call, S call → (∃ out, r.Evaluates ⊤ call (.ok out)) →
      ∃ next, TransGen r.Follows call next ∧ S next)
    {call : Call} (member : S call) (out : α) : ¬ r.Evaluates ⊤ call (.ok out) := by
  intro done
  have ends := done.acc.transGen
  -- the family would lead on for ever, a call or more at a time
  induction ends generalizing out with
  | intro call _ ih =>
      obtain ⟨next, way, within⟩ := onward call member ⟨out, done⟩
      obtain ⟨out, there⟩ := done.run way.to_reflTransGen
      exact ih next (Relation.transGen_swap.mpr way) within out there

/-- The steps from a call are made again from the like of it, if this has a result. -/
def Repeats (r : Recursion Call ε α) (step like : Call → Call → Prop) : Prop :=
  ∀ call next call', step call next → like call call' →
    (∃ out, r.Evaluates ⊤ call' (.ok out)) → ∃ next', r.Follows call' next' ∧ like next next'

theorem Repeats.way {step like : Call → Call → Prop} (repeats : r.Repeats step like)
    {call call' last : Call} (way : TransGen step call last) (alike : like call call')
    (done : ∃ out, r.Evaluates ⊤ call' (.ok out)) :
    ∃ last', TransGen r.Follows call' last' ∧ like last last' := by
  induction way with
  | single first =>
      obtain ⟨next', follows, alike⟩ := repeats _ _ _ first alike done
      exact ⟨next', .single follows, alike⟩
  | tail _ last ih =>
      obtain ⟨mid', way', alike⟩ := ih
      obtain ⟨out, done⟩ := done
      obtain ⟨next', follows, alike⟩ := repeats _ _ _ last alike (done.run way'.to_reflTransGen)
      exact ⟨next', .tail way' follows, alike⟩

/-- A call that leads to the like of itself has no result. -/
theorem Repeats.not_evaluates {step like : Call → Call → Prop} (repeats : r.Repeats step like)
    {call again : Call} (way : TransGen step call again) (self : like call call)
    (returns : ∀ call', like again call' → like call call') (out : α) :
    ¬ r.Evaluates ⊤ call (.ok out) := by
  refine not_evaluates_of_onward (S := like call) (fun call' alike done => ?_) self out
  obtain ⟨again', way', alike⟩ := repeats.way way alike done
  exact ⟨again', way', returns again' alike⟩

end Recursion

end LinkedCommit
