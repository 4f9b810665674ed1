import Mathlib.Data.List.Induction
import Mathlib.Data.Nat.Digits.Defs
import LinkedCommit.Proofs.Number.Decimal
/-!
# Numerals and what they denote

A numeral is an optional single sign before one or more digits, and each digit counts by its place.
`Decimal.signed?` reads the numerals and nothing else, each as the integer that it denotes
(`signed?_eq_some_iff`); the text that is written for an integer is a numeral that denotes it
(`denotes_toString`).
-/

set_option autoImplicit false

namespace LinkedCommit.Decimal

structure IsDigits (ds : List Char) : Prop where
  ne_nil : ds ≠ []
  isDigit : ∀ d ∈ ds, d.isDigit = true

/-- What digits denote: the last one counts for ones, the one before it for tens. -/
def placeValue (ds : List Char) : Nat :=
  Nat.ofDigits 10 (ds.reverse.map fun d => d.toNat - '0'.toNat)

inductive Denotes : List Char → Int → Prop
  | plain {ds : List Char} (digits : IsDigits ds) : Denotes ds (placeValue ds)
  | plus {ds : List Char} (digits : IsDigits ds) : Denotes ('+' :: ds) (placeValue ds)
  | minus {ds : List Char} (digits : IsDigits ds) : Denotes ('-' :: ds) (-placeValue ds)

/-! ## Reading -/

theorem value_eq_placeValue (ds : List Char) : value ds = placeValue ds := by
  induction ds using List.reverseRecOn with
  | nil => rfl
  | append_singleton ds d ih =>
      have step : value (ds ++ [d]) = 10 * value ds + (d.toNat - '0'.toNat) := by
        rw [value, List.foldl_append]
        rfl
      rw [step, ih, placeValue, placeValue, List.reverse_append, List.reverse_singleton,
        List.singleton_append, List.map_cons, Nat.ofDigits_cons, Nat.add_comm]

/-- Digits are read as what they denote, and nothing else is read. -/
theorem map_digits?_eq_some_iff {cs : List Char} {f : Nat → Int} {v : Int} :
    (digits? cs).map f = some v ↔ IsDigits cs ∧ f (placeValue cs) = v := by
  simp only [Option.map_eq_some_iff, digits?_eq_some_iff, value_eq_placeValue]
  constructor
  · rintro ⟨n, ⟨nonempty, digits, rfl⟩, same⟩
    exact ⟨⟨nonempty, digits⟩, same⟩
  · rintro ⟨⟨nonempty, digits⟩, same⟩
    exact ⟨placeValue cs, ⟨nonempty, digits, rfl⟩, same⟩

theorem signed?_minus (cs : List Char) :
    signed? ('-' :: cs) = (digits? cs).map fun n : Nat => -(n : Int) := by
  rw [signed?]
  cases digits? cs <;> rfl

theorem signed?_plus (cs : List Char) :
    signed? ('+' :: cs) = (digits? cs).map fun n : Nat => (n : Int) := by
  rw [signed?]
  cases digits? cs <;> rfl

theorem signed?_unsigned {cs : List Char} (noMinus : ∀ ds, cs ≠ '-' :: ds)
    (noPlus : ∀ ds, cs ≠ '+' :: ds) : signed? cs = (digits? cs).map fun n : Nat => (n : Int) := by
  unfold signed?
  split
  · exact absurd rfl (noMinus _)
  · exact absurd rfl (noPlus _)
  · cases digits? cs <;> rfl

theorem IsDigits.ne_cons {ds : List Char} (digits : IsDigits ds) {c : Char}
    (noDigit : c.isDigit = false) (cs : List Char) : ds ≠ c :: cs := by
  rintro rfl
  rw [digits.isDigit c List.mem_cons_self] at noDigit
  cases noDigit

theorem signed?_eq_some_iff {cs : List Char} {v : Int} : signed? cs = some v ↔ Denotes cs v := by
  constructor
  · intro read
    by_cases minus : ∃ ds, cs = '-' :: ds
    · obtain ⟨ds, rfl⟩ := minus
      rw [signed?_minus] at read
      obtain ⟨digits, rfl⟩ := map_digits?_eq_some_iff.mp read
      exact .minus digits
    · by_cases plus : ∃ ds, cs = '+' :: ds
      · obtain ⟨ds, rfl⟩ := plus
        rw [signed?_plus] at read
        obtain ⟨digits, rfl⟩ := map_digits?_eq_some_iff.mp read
        exact .plus digits
      · rw [signed?_unsigned (not_exists.mp minus) (not_exists.mp plus)] at read
        obtain ⟨digits, rfl⟩ := map_digits?_eq_some_iff.mp read
        exact .plain digits
  · intro denotes
    cases denotes with
    | plain digits =>
        rw [signed?_unsigned (digits.ne_cons rfl) (digits.ne_cons rfl)]
        exact map_digits?_eq_some_iff.mpr ⟨digits, rfl⟩
    | plus digits =>
        rw [signed?_plus]
        exact map_digits?_eq_some_iff.mpr ⟨digits, rfl⟩
    | minus digits =>
        rw [signed?_minus]
        exact map_digits?_eq_some_iff.mpr ⟨digits, rfl⟩

theorem Denotes.unique {cs : List Char} {v v' : Int} (denotes : Denotes cs v)
    (denotes' : Denotes cs v') : v = v' :=
  Option.some.inj
    ((signed?_eq_some_iff.mpr denotes).symm.trans (signed?_eq_some_iff.mpr denotes'))

/-! ## Writing -/

theorem isDigits_toDigits (n : Nat) : IsDigits (Nat.toDigits 10 n) where
  ne_nil := Nat.toDigits_ne_nil
  isDigit := fun _ => isDigit_of_mem_toDigits

theorem placeValue_toDigits (n : Nat) : placeValue (Nat.toDigits 10 n) = n := by
  rw [← value_eq_placeValue, value_toDigits]

theorem denotes_toString (v : Int) : Denotes (toString v).toList v := by
  rw [toList_toString]
  cases v with
  | ofNat n =>
      have written := Denotes.plain (isDigits_toDigits n)
      rwa [placeValue_toDigits] at written
  | negSucc n =>
      have written := Denotes.minus (isDigits_toDigits (n + 1))
      rwa [placeValue_toDigits] at written

end LinkedCommit.Decimal
