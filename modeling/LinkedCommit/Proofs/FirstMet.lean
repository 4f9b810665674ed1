import Mathlib.Data.Finset.Card
import Mathlib.Data.List.Induction
/-!
# Lists without their repetitions

`List.eraseDups` keeps each element where it is first met: it has as many as there are different
ones (`length_eraseDups`), in the order of their first places (`idxOf_eraseDups_lt_iff`).
-/

set_option autoImplicit false

namespace LinkedCommit

theorem eraseDups_append_singleton {α : Type} [BEq α] [LawfulBEq α] (xs : List α) (x : α) :
    (xs ++ [x]).eraseDups = if x ∈ xs then xs.eraseDups else xs.eraseDups ++ [x] := by
  rw [List.eraseDups_append]
  by_cases member : x ∈ xs <;> simp [List.removeAll, List.eraseDups_cons, member]

variable {α : Type} [DecidableEq α]

theorem nodup_eraseDups (xs : List α) : xs.eraseDups.Nodup := by
  induction xs using List.reverseRecOn with
  | nil => exact List.nodup_nil
  | append_singleton xs x ih =>
      rw [eraseDups_append_singleton]
      split
      · exact ih
      · rename_i new
        refine List.nodup_append.mpr ⟨ih, List.nodup_singleton x, ?_⟩
        intro a member b last same
        rw [same, List.mem_singleton.mp last] at member
        exact new (List.mem_eraseDups.mp member)

theorem length_eraseDups (xs : List α) : xs.eraseDups.length = xs.toFinset.card := by
  rw [← List.toFinset_card_of_nodup (nodup_eraseDups xs)]
  congr 1
  ext a
  simp

theorem idxOf_eraseDups_lt_iff {xs : List α} {a b : α} (inList : a ∈ xs) (inList' : b ∈ xs) :
    xs.eraseDups.idxOf a < xs.eraseDups.idxOf b ↔ xs.idxOf a < xs.idxOf b := by
  induction xs using List.reverseRecOn with
  | nil => cases inList
  | append_singleton xs x ih =>
      have inside {c : α} (member : c ∈ xs) :
          xs.eraseDups.idxOf c < xs.eraseDups.length ∧ xs.idxOf c < xs.length :=
        ⟨List.idxOf_lt_length_of_mem (List.mem_eraseDups.mpr member),
          List.idxOf_lt_length_of_mem member⟩
      have last {c : α} (member : c ∈ xs ++ [x]) (new : c ∉ xs) : c = x :=
        List.mem_singleton.mp ((List.mem_append.mp member).resolve_left new)
      rw [eraseDups_append_singleton]
      by_cases again : x ∈ xs
      · have old {c : α} (member : c ∈ xs ++ [x]) : c ∈ xs := by
          by_contra new
          exact new (last member new ▸ again)
        rw [if_pos again, List.idxOf_append_of_mem (old inList),
          List.idxOf_append_of_mem (old inList')]
        exact ih (old inList) (old inList')
      · -- What is met before the last element keeps its place, and that one comes after.
        rw [if_neg again]
        simp only [List.idxOf_append, List.mem_eraseDups]
        by_cases old : a ∈ xs <;> by_cases old' : b ∈ xs
        · rw [if_pos old, if_pos old', if_pos old, if_pos old']
          exact ih old old'
        · rw [if_pos old, if_neg old', if_pos old, if_neg old']
          exact iff_of_true (Nat.lt_add_left _ (inside old).1) (Nat.lt_add_left _ (inside old).2)
        · rw [if_neg old, if_pos old', if_neg old, if_pos old']
          obtain ⟨erased, kept⟩ := inside old'
          exact iff_of_false (by omega) (by omega)
        · rw [last inList old, last inList' old']
          exact iff_of_false (Nat.lt_irrefl _) (Nat.lt_irrefl _)

theorem idxOf?_of_mem {xs : List α} {a : α} (member : a ∈ xs) :
    xs.idxOf? a = some (xs.idxOf a) := by
  cases found : xs.idxOf? a with
  | none => exact absurd member (List.idxOf?_eq_none_iff.mp found)
  | some i => rw [List.idxOf_eq_getD_idxOf?, found, Option.getD_some]

end LinkedCommit
