import Mathlib.Data.List.Forall2
/-!
# Computations that may fail

What it takes for a step of a computation to have a result, and for the steps of a list to have one
each.
-/

set_option autoImplicit false

namespace List

variable {α β : Type} {R : α → β → Prop}

theorem Forall₂.exists_of_mem_left {xs : List α} {ys : List β} (all : Forall₂ R xs ys) {x : α}
    (member : x ∈ xs) : ∃ y ∈ ys, R x y := by
  induction all with
  | nil => cases member
  | @cons first y _ _ head _ ih =>
      rcases mem_cons.mp member with rfl | later
      · exact ⟨y, mem_cons_self, head⟩
      · obtain ⟨y', inRest, related⟩ := ih later
        exact ⟨y', mem_cons_of_mem _ inRest, related⟩

end List

namespace Except

variable {ε ε' α β : Type}

@[simp] theorem bind_eq_ok_iff {first : Except ε α} {next : α → Except ε β} {b : β} :
    first >>= next = .ok b ↔ ∃ a, first = .ok a ∧ next a = .ok b := by
  cases first with
  | error e => exact ⟨nofun, nofun⟩
  | ok a =>
      constructor
      · exact fun done => ⟨a, rfl, done⟩
      · rintro ⟨a', same, done⟩
        cases same
        exact done

@[simp] theorem mapError_eq_ok_iff {first : Except ε α} {f : ε → ε'} {a : α} :
    first.mapError f = .ok a ↔ first = .ok a := by
  cases first with
  | error e => exact ⟨nofun, nofun⟩
  | ok a' => exact ⟨fun same => congrArg ok (Except.ok.inj same), fun same => same ▸ rfl⟩

theorem bind_eq_error_iff {first : Except ε α} {next : α → Except ε β} {e : ε} :
    first >>= next = .error e ↔ first = .error e ∨ ∃ a, first = .ok a ∧ next a = .error e := by
  cases first with
  | error e' =>
      constructor
      · intro failed
        exact Or.inl (congrArg error (Except.error.inj failed))
      · rintro (failed | ⟨a, absurd, -⟩)
        · cases failed
          rfl
        · cases absurd
  | ok a =>
      constructor
      · exact fun failed => Or.inr ⟨a, rfl, failed⟩
      · rintro (absurd | ⟨a', same, failed⟩)
        · cases absurd
        · cases same
          exact failed

theorem mapError_eq_error_iff {first : Except ε α} {f : ε → ε'} {e : ε'} :
    first.mapError f = .error e ↔ ∃ reason, first = .error reason ∧ f reason = e := by
  cases first with
  | error reason => simp [Except.mapError]
  | ok a => exact ⟨nofun, nofun⟩

theorem toOption_eq_some_iff {result : Except ε α} {a : α} :
    result.toOption = some a ↔ result = .ok a := by
  cases result with
  | error e => exact ⟨nofun, nofun⟩
  | ok a' => exact ⟨fun same => congrArg ok (Option.some.inj same), fun same => same ▸ rfl⟩

theorem map_eq_error_iff {first : Except ε α} {f : α → β} {e : ε} :
    first.map f = .error e ↔ first = .error e := by
  cases first with
  | error e' => exact ⟨fun same => congrArg error (Except.error.inj same), fun same => same ▸ rfl⟩
  | ok a => exact ⟨nofun, nofun⟩

theorem map_eq_ok_iff {first : Except ε α} {f : α → β} {b : β} :
    first.map f = .ok b ↔ ∃ a, first = .ok a ∧ f a = b := by
  cases first with
  | error e => exact ⟨nofun, nofun⟩
  | ok a => simp [Except.map]

def passes (result : Except ε α) (test : α → Bool) : Bool := result.toOption.any test

theorem exists_of_passes {result : Except ε α} {test : α → Bool}
    (passed : result.passes test = true) : ∃ a, result = .ok a ∧ test a = true := by
  cases result with
  | error e => cases passed
  | ok a => exact ⟨a, rfl, passed⟩

def fails (result : Except ε α) (test : ε → Bool) : Bool :=
  match result with
  | .error e => test e
  | .ok _ => false

theorem exists_of_fails {result : Except ε α} {test : ε → Bool}
    (failed : result.fails test = true) : ∃ e, result = .error e ∧ test e = true := by
  cases result with
  | error e => exact ⟨e, rfl, failed⟩
  | ok a => cases failed

theorem mapM_eq_ok_iff {f : α → Except ε β} {xs : List α} {ys : List β} :
    xs.mapM f = .ok ys ↔ List.Forall₂ (fun x y => f x = .ok y) xs ys := by
  induction xs generalizing ys with
  | nil =>
      rw [List.mapM_nil, List.forall₂_nil_left_iff]
      exact ⟨fun same => (Except.ok.inj same).symm, fun empty => empty ▸ rfl⟩
  | cons x rest ih =>
      rw [List.mapM_cons, List.forall₂_cons_left_iff]
      simp only [bind_eq_ok_iff, ih]
      constructor
      · rintro ⟨y, first, others, all, same⟩
        exact ⟨y, others, first, all, (Except.ok.inj same).symm⟩
      · rintro ⟨y, others, first, all, rfl⟩
        exact ⟨y, first, others, all, rfl⟩

theorem mapM_congr {f g : α → Except ε β} {xs : List α} (agree : ∀ x ∈ xs, f x = g x) :
    xs.mapM f = xs.mapM g := by
  induction xs with
  | nil => rfl
  | cons x rest ih =>
      rw [List.mapM_cons, List.mapM_cons, agree x List.mem_cons_self,
        ih fun y member => agree y (List.mem_cons_of_mem _ member)]

theorem forM_eq_ok {f : α → Except ε Unit} {xs : List α} (done : xs.forM f = .ok ()) :
    ∀ x ∈ xs, f x = .ok () := by
  induction xs with
  | nil => nofun
  | cons x rest ih =>
      change (f x >>= fun _ => rest.forM f) = .ok () at done
      obtain ⟨⟨⟩, first, done⟩ := bind_eq_ok_iff.mp done
      exact List.forall_mem_cons.mpr ⟨first, ih done⟩

/-- A fold that fails has come as far as the element that it fails on. -/
theorem foldlM_eq_error {f : β → α → Except ε β} {xs : List α} {b : β} {e : ε}
    (failed : xs.foldlM f b = .error e) :
    ∃ before x after b', xs = before ++ x :: after ∧ before.foldlM f b = .ok b' ∧
      f b' x = .error e := by
  induction xs generalizing b with
  | nil => cases failed
  | cons x rest ih =>
      rw [List.foldlM_cons] at failed
      cases first : f b x with
      | error e' =>
          rw [first] at failed
          cases failed
          exact ⟨[], x, rest, b, rfl, rfl, first⟩
      | ok b' =>
          rw [first] at failed
          obtain ⟨before, x', after, last, rfl, done, stopped⟩ := ih failed
          refine ⟨x :: before, x', after, last, rfl, ?_, stopped⟩
          rw [List.foldlM_cons, first]
          exact done

/-- Two computations end alike: with one error, or with related results. -/
inductive Related (R : α → β → Prop) : Except ε α → Except ε β → Prop
  | ok {a : α} {b : β} (results : R a b) : Related R (.ok a) (.ok b)
  | error (e : ε) : Related R (.error e) (.error e)

namespace Related

variable {γ δ : Type} {R : α → β → Prop} {S : γ → δ → Prop}

theorem refl {R : α → α → Prop} (results : ∀ a, R a a) (result : Except ε α) :
    Related R result result := by
  cases result with
  | ok a => exact .ok (results a)
  | error e => exact .error e

theorem bind {first : Except ε α} {first' : Except ε β} (related : Related R first first')
    {next : α → Except ε γ} {next' : β → Except ε δ}
    (after : ∀ a b, R a b → Related S (next a) (next' b)) :
    Related S (first >>= next) (first' >>= next') := by
  cases related with
  | ok results => exact after _ _ results
  | error e => exact .error e

theorem mapError {first : Except ε α} {first' : Except ε β} (related : Related R first first')
    (f : ε → ε') : Related R (first.mapError f) (first'.mapError f) := by
  cases related with
  | ok results => exact .ok results
  | error e => exact .error (f e)

theorem foldlM {step : α → γ → Except ε α} {step' : β → γ → Except ε β} {xs : List γ} {a : α}
    {b : β} (each : ∀ a b, ∀ x ∈ xs, R a b → Related R (step a x) (step' b x)) (start : R a b) :
    Related R (xs.foldlM step a) (xs.foldlM step' b) := by
  induction xs generalizing a b with
  | nil => exact .ok start
  | cons x rest ih =>
      rw [List.foldlM_cons, List.foldlM_cons]
      exact (each a b x List.mem_cons_self start).bind fun a b related =>
        ih (fun a b x member => each a b x (List.mem_cons_of_mem _ member)) related

end Related

end Except
