import LinkedCommit.Proofs.Hash.Bytes
import LinkedCommit.Proofs.Hash.Field
/-!
# The bytes that SHA-256 digests

A field element is digested as a word of 32 bytes, and of an element that takes more the word shows
the remainder modulo `2 ^ 256` only (`fieldWord_eq_iff`).  Words have one length, so a message shows
how many they are and what each of them is (`wordMessage_eq_iff`).  Different lists of field elements
are therefore always digested as different byte strings if the modulus is at most `2 ^ 256`, and not
for any larger one (`wordMessages_told_apart`).

Where the byte strings do differ, two lists have one digest only by a collision of SHA-256 or by the
reduction of its digests (`reducedDigest_eq_iff`).
-/

set_option autoImplicit false

namespace LinkedCommit

/-! ## Words -/

/-- What the word of a field element shows of it. -/
def wordValue (x : Nat) : Nat := x % 2 ^ 256

theorem length_fieldWord (x : Nat) : (fieldWord x).length = 32 := length_bytesOfNat 32 x

theorem fieldWord_eq_iff {x y : Nat} : fieldWord x = fieldWord y ↔ wordValue x = wordValue y := by
  have power : 2 ^ 256 = 256 ^ 32 := by decide
  rw [wordValue, wordValue, power]
  exact bytesOfNat_eq_iff

theorem wordMessage_cons (x : Nat) (xs : List Nat) :
    wordMessage (x :: xs) = fieldWord x ++ wordMessage xs := rfl

theorem wordMessage_cons_ne_nil (x : Nat) (xs : List Nat) : wordMessage (x :: xs) ≠ [] := by
  intro empty
  have length := congrArg List.length empty
  rw [wordMessage_cons, List.length_append, length_fieldWord, List.length_nil] at length
  omega

theorem wordMessage_cons_eq_cons_iff {x y : Nat} {xs ys : List Nat} :
    wordMessage (x :: xs) = wordMessage (y :: ys) ↔
      fieldWord x = fieldWord y ∧ wordMessage xs = wordMessage ys := by
  have length : (fieldWord x).length = (fieldWord y).length := by
    rw [length_fieldWord, length_fieldWord]
  rw [wordMessage_cons, wordMessage_cons]
  exact ⟨fun same => List.append_inj same length, fun ⟨first, rest⟩ => by rw [first, rest]⟩

theorem wordMessage_eq_iff {xs ys : List Nat} :
    wordMessage xs = wordMessage ys ↔ xs.map wordValue = ys.map wordValue := by
  induction xs generalizing ys with
  | nil =>
      cases ys with
      | nil => exact ⟨fun _ => rfl, fun _ => rfl⟩
      | cons y ys => exact ⟨fun same => absurd same.symm (wordMessage_cons_ne_nil y ys), nofun⟩
  | cons x xs ih =>
      cases ys with
      | nil => exact ⟨fun same => absurd same (wordMessage_cons_ne_nil x xs), nofun⟩
      | cons y ys =>
          rw [wordMessage_cons_eq_cons_iff, fieldWord_eq_iff, ih, List.map_cons, List.map_cons,
            List.cons_eq_cons]

/-! ## Lists of field elements -/

/-- A list that is hashed: from one to sixteen elements of the field. -/
structure FieldInputs (modulus : Nat) (xs : List Nat) : Prop where
  ne_nil : xs ≠ []
  length_le : xs.length ≤ maxHashInputs
  lt_modulus : ∀ x ∈ xs, x < modulus

instance (modulus : Nat) (xs : List Nat) : Decidable (FieldInputs modulus xs) :=
  decidable_of_iff (xs ≠ [] ∧ xs.length ≤ maxHashInputs ∧ ∀ x ∈ xs, x < modulus)
    ⟨fun ⟨a, b, c⟩ => ⟨a, b, c⟩, fun ⟨a, b, c⟩ => ⟨a, b, c⟩⟩

theorem fieldInputs_singleton {modulus x : Nat} (inField : x < modulus) :
    FieldInputs modulus [x] where
  ne_nil := List.cons_ne_nil x []
  length_le := Nat.le_add_left 1 15
  lt_modulus := fun _ member => List.mem_singleton.mp member ▸ inField

theorem FieldInputs.hash_eq {modulus : Nat} {xs : List Nat} (inputs : FieldInputs modulus xs) :
    (sha256Hasher modulus).hash xs = .ok (reducedDigest modulus (wordMessage xs)) := by
  rw [(sha256Hasher_checks modulus).hash_eq]
  change (do checkInputs modulus xs; return reducedDigest modulus (wordMessage xs)) = _
  rw [checkInputs_eq inputs.ne_nil inputs.length_le inputs.lt_modulus]
  rfl

theorem FieldInputs.map_wordValue {modulus : Nat} {xs : List Nat} (inputs : FieldInputs modulus xs)
    (narrow : modulus ≤ 2 ^ 256) : xs.map wordValue = xs := by
  have fits : ∀ x ∈ xs, wordValue x = id x := fun x member =>
    Nat.mod_eq_of_lt (Nat.lt_of_lt_of_le (inputs.lt_modulus x member) narrow)
  rw [List.map_congr_left fits, List.map_id]

/-! ## Digests -/

/-- Different byte strings with one digest of SHA-256. -/
def Sha256.Collide (m m' : List UInt8) : Prop := m ≠ m' ∧ digest m = digest m'

/-- Different digests of SHA-256 that are one element once they are reduced. -/
def ReducedAlike (modulus : Nat) (m m' : List UInt8) : Prop :=
  Sha256.digest m ≠ Sha256.digest m' ∧
    natOfBytes (Sha256.digest m) % modulus = natOfBytes (Sha256.digest m') % modulus

theorem reducedDigest_eq_iff {modulus : Nat} {m m' : List UInt8} :
    reducedDigest modulus m = reducedDigest modulus m' ↔
      m = m' ∨ Sha256.Collide m m' ∨ ReducedAlike modulus m m' := by
  constructor
  · intro same
    by_cases message : m = m'
    · exact Or.inl message
    · by_cases digest : Sha256.digest m = Sha256.digest m'
      · exact Or.inr (Or.inl ⟨message, digest⟩)
      · exact Or.inr (Or.inr ⟨digest, same⟩)
  · rintro (rfl | ⟨-, digest⟩ | ⟨-, reduced⟩)
    · rfl
    · rw [reducedDigest, digest]
      rfl
    · exact reduced

/-! ## When lists are told apart -/

/-- Two lists are digested as one byte string just if their elements agree modulo `2 ^ 256`, and
have one digest only then, by a collision or by the reduction.  That no two lists of field elements
are digested as one byte string holds for moduli of at most `2 ^ 256`, and for no others. -/
theorem wordMessages_told_apart (modulus : Nat) :
    (∀ xs ys, FieldInputs modulus xs → FieldInputs modulus ys →
      (wordMessage xs = wordMessage ys ↔ xs.map (· % 2 ^ 256) = ys.map (· % 2 ^ 256)) ∧
      ((sha256Hasher modulus).hash xs = (sha256Hasher modulus).hash ys ↔
        wordMessage xs = wordMessage ys ∨
          Sha256.Collide (wordMessage xs) (wordMessage ys) ∨
          ReducedAlike modulus (wordMessage xs) (wordMessage ys))) ∧
    ((∀ xs ys, FieldInputs modulus xs → FieldInputs modulus ys → xs ≠ ys →
      wordMessage xs ≠ wordMessage ys) ↔ modulus ≤ 2 ^ 256) := by
  refine ⟨fun xs ys inputs inputs' => ⟨wordMessage_eq_iff, ?_⟩, fun apart => ?_,
    fun narrow xs ys inputs inputs' differ same => differ ?_⟩
  · rw [inputs.hash_eq, inputs'.hash_eq, Except.ok.injEq, reducedDigest_eq_iff]
  · -- With a larger modulus both `0` and `2 ^ 256` are field elements.
    refine Nat.le_of_not_lt fun wide => ?_
    have zero : FieldInputs modulus [0] := fieldInputs_singleton (Nat.zero_lt_of_lt wide)
    have power : FieldInputs modulus [2 ^ 256] := fieldInputs_singleton wide
    exact apart [0] [2 ^ 256] zero power (by decide) (wordMessage_eq_iff.mpr (by decide))
  · have shown := wordMessage_eq_iff.mp same
    rwa [inputs.map_wordValue narrow, inputs'.map_wordValue narrow] at shown

/-- Lists that only zeros in front, an element more or the place of a byte tell apart. -/
theorem wordMessages_of_small_elements :
    let lists : List (List Nat) := [[0], [0, 0], [1, 0], [0, 256], [256, 0]]
    (∀ xs ∈ lists, FieldInputs 257 xs) ∧ lists.Nodup ∧
      ∀ xs ∈ lists, ∀ ys ∈ lists, xs ≠ ys → wordMessage xs ≠ wordMessage ys := by
  intro lists
  have inputs : ∀ xs ∈ lists, FieldInputs 257 xs := by decide
  have narrow : 257 ≤ 2 ^ 256 := by decide
  exact ⟨inputs, by decide, fun xs member ys member' differ =>
    (wordMessages_told_apart 257).2.mpr narrow xs ys (inputs xs member) (inputs ys member') differ⟩

/-- In the field of the first prime above `2 ^ 256`, the elements `0` and `2 ^ 256` are digested as
one byte string. -/
theorem wordMessage_of_wide_element :
    let modulus := 2 ^ 256 + 297
    FieldInputs modulus [0] ∧ FieldInputs modulus [2 ^ 256] ∧ [0] ≠ [2 ^ 256] ∧
      wordMessage [0] = wordMessage [2 ^ 256] ∧
      (sha256Hasher modulus).hash [0] = (sha256Hasher modulus).hash [2 ^ 256] := by
  intro modulus
  have zero : FieldInputs modulus [0] := by decide
  have power : FieldInputs modulus [2 ^ 256] := by decide
  have same : wordMessage [0] = wordMessage [2 ^ 256] := wordMessage_eq_iff.mpr (by decide)
  refine ⟨zero, power, by decide, same, ?_⟩
  rw [zero.hash_eq, power.hash_eq, same]

end LinkedCommit
