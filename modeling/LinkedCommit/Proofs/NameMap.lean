import Mathlib.Data.List.Forall2
import Mathlib.Data.Option.Defs
import LinkedCommit.NameMap
/-!
# Maps related value by value

Two maps are related if they have the same names and related values under each.  A map may also be
read under other names (`get?_map`).
-/

set_option autoImplicit false

namespace LinkedCommit.NameMap

variable {α β : Type} {R : α → β → Prop} {map : NameMap α} {map' : NameMap β}

def Related (R : α → β → Prop) : NameMap α → NameMap β → Prop :=
  List.Forall₂ fun p q => p.1 = q.1 ∧ R p.2 q.2

theorem Related.keys (related : Related R map map') : map'.keys = map.keys := by
  induction related with
  | nil => rfl
  | cons head _ ih =>
      rw [NameMap.keys, List.map_cons, ← head.1, ← NameMap.keys, ih]
      rfl

theorem Related.get? (related : Related R map map') (key : String) :
    Option.Rel R (NameMap.get? map key) (NameMap.get? map' key) := by
  induction related with
  | nil => exact .none
  | @cons p q _ _ head _ ih =>
      obtain ⟨name, value⟩ := p
      obtain ⟨name', value'⟩ := q
      obtain ⟨same, first⟩ := head
      dsimp only at same first
      subst same
      rw [NameMap.get?, NameMap.get?]
      split
      · exact .some first
      · exact ih

theorem Related.get?_eq_none_iff (related : Related R map map') (key : String) :
    NameMap.get? map' key = none ↔ NameMap.get? map key = none := by
  rw [NameMap.get?_eq_none_iff, NameMap.get?_eq_none_iff, related.keys]

theorem Related.contains (related : Related R map map') (key : String) :
    NameMap.contains map' key = NameMap.contains map key := by
  have found := related.get? key
  unfold NameMap.contains
  generalize NameMap.get? map key = old, NameMap.get? map' key = new at found
  cases found <;> rfl

theorem Related.insert (related : Related R map map') (key : String) {value : α} {value' : β}
    (values : R value value') :
    Related R (NameMap.insert map key value) (NameMap.insert map' key value') := by
  unfold NameMap.insert
  induction related with
  | nil => exact .cons ⟨rfl, values⟩ .nil
  | @cons p q _ _ head rest ih =>
      obtain ⟨name, old⟩ := p
      obtain ⟨name', old'⟩ := q
      obtain ⟨same, first⟩ := head
      dsimp only at same first
      subst same
      rw [update, update]
      split
      · exact .cons ⟨rfl, values⟩ (.cons ⟨rfl, first⟩ rest)
      · split
        · exact .cons ⟨rfl, values⟩ rest
        · exact .cons ⟨rfl, first⟩ ih

theorem Sorted.eq_of_get? {map map' : NameMap α} (sorted : map.Sorted) (sorted' : map'.Sorted)
    (same : ∀ key, NameMap.get? map key = NameMap.get? map' key) : map = map' := by
  have least : List.Pairwise (fun p q : String × α => p.1 < q.1) map := List.pairwise_map.mp sorted
  have least' : List.Pairwise (fun p q : String × α => p.1 < q.1) map' := List.pairwise_map.mp sorted'
  have once : ∀ {p q : String × α}, p.1 < q.1 → p ≠ q := by
    rintro p q before rfl
    exact String.lt_irrefl _ before
  refine List.Perm.eq_of_pairwise (fun p q _ _ before after => ?_) least least' ?_
  · exact absurd (String.lt_trans before after) (String.lt_irrefl _)
  · refine (List.perm_ext_iff_of_nodup (least.imp once) (least'.imp once)).mpr fun p => ?_
    rw [← sorted.get?_eq_some_iff, ← sorted'.get?_eq_some_iff, same]

theorem get?_map {f : String → String} (injective : Function.Injective f) (g : α → β)
    (map : NameMap α) (key : String) :
    NameMap.get? (map.map fun p => (f p.1, g p.2)) (f key) = (NameMap.get? map key).map g := by
  induction map with
  | nil => rfl
  | cons head rest ih =>
      rw [List.map_cons, NameMap.get?, NameMap.get?]
      simp only [injective.eq_iff, ih]
      split <;> rfl

end LinkedCommit.NameMap
