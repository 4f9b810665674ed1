import Mathlib.Data.List.Nodup
import Mathlib.Data.List.Perm.Basic
import LinkedCommit.Tree.Sparse
/-!
# Tries

The plain view of a sparse tree: a trie has its nodes in place instead of their hashes.  `Placed`
says that every leaf stands on the way of its key and that no fork has fewer than two leaves
below it.  A placed trie is determined by its pairs.

`add` is the trie with one more pair.  `add_cases` tells its three outcomes apart: the key is
there, a key that agrees with it on all levels but the last is there, or the pair is added and
the trie is placed again.
-/

set_option autoImplicit false

namespace LinkedCommit

open LinkedCommit.Tree (pathBit)

/-! ## Values found in lists of pairs -/

section Lookup

variable {α β : Type} [BEq α] [LawfulBEq α] {entries : List (α × β)} {key : α} {value : β}

theorem lookup_eq_some_of_mem (member : (key, value) ∈ entries)
    (unique : ∀ other, (key, other) ∈ entries → other = value) :
    entries.lookup key = some value := by
  induction entries with
  | nil => cases member
  | cons entry rest ih =>
      obtain ⟨k, other⟩ := entry
      by_cases same : key = k
      · subst same
        rw [List.lookup_cons_self, unique other List.mem_cons_self]
      · have memberRest : (key, value) ∈ rest :=
          (List.mem_cons.mp member).resolve_left fun eq => same (congrArg Prod.fst eq)
        rw [List.lookup_cons, beq_false_of_ne same]
        exact ih memberRest fun other inRest => unique other (List.mem_cons_of_mem _ inRest)

theorem mem_of_lookup_eq_some (found : entries.lookup key = some value) :
    (key, value) ∈ entries := by
  obtain ⟨before, after, rfl, -⟩ := List.lookup_eq_some_iff.mp found
  exact List.mem_append_right _ List.mem_cons_self

theorem lookup_eq_some_iff_mem (nodup : (entries.map Prod.fst).Nodup) (key : α) (value : β) :
    entries.lookup key = some value ↔ (key, value) ∈ entries := by
  refine ⟨mem_of_lookup_eq_some, fun member => lookup_eq_some_of_mem member fun other isOther => ?_⟩
  have same := List.inj_on_of_nodup_map nodup isOther member rfl
  exact congrArg Prod.snd same

end Lookup

/-! ## Tries -/

inductive Trie where
  | empty
  | leaf (key value : Nat)
  | fork (left right : Trie)
deriving DecidableEq

namespace Trie

def pairs : Trie → List (Nat × Nat)
  | .empty => []
  | .leaf key value => [(key, value)]
  | .fork left right => left.pairs ++ right.pairs

def keys (T : Trie) : List Nat := T.pairs.map Prod.fst

def height : Trie → Nat
  | .empty => 0
  | .leaf _ _ => 0
  | .fork left right => max left.height right.height + 1

def join (bit : Bool) (child other : Trie) : Trie :=
  if bit then .fork other child else .fork child other

/-- Leaves stand on their keys' ways, and forks have at least two leaves below. -/
def Placed : Nat → Trie → Prop
  | _, .empty => True
  | _, .leaf _ _ => True
  | level, .fork left right =>
      (∀ p ∈ left.pairs, pathBit p.1 level = false) ∧
        (∀ p ∈ right.pairs, pathBit p.1 level = true) ∧
        2 ≤ (left.pairs ++ right.pairs).length ∧
        Placed (level + 1) left ∧ Placed (level + 1) right

/-- Two leaves below the fork at which their keys part, which must be above the last level. -/
def push (levels key value oldKey oldValue : Nat) : Nat → Nat → Except TreeError Trie
  | 0, _ => .error (.reachedMaxLevel levels)
  | 1, _ => .error (.reachedMaxLevel levels)
  | remaining + 2, level =>
    let bit := pathBit key level
    if bit = pathBit oldKey level then
      (push levels key value oldKey oldValue (remaining + 1) (level + 1)).map (join bit · .empty)
    else .ok (join bit (.leaf key value) (.leaf oldKey oldValue))

/-- The trie with one more pair; at `level` there are `remaining` levels left. -/
def add (levels key value : Nat) : Nat → Nat → Trie → Except TreeError Trie
  | 0, _, _ => .error (.reachedMaxLevel levels)
  | _ + 1, _, .empty => .ok (.leaf key value)
  | remaining + 1, level, .leaf oldKey oldValue =>
    if oldKey = key then .error .entryIndexAlreadyExists
    else push levels key value oldKey oldValue (remaining + 1) level
  | remaining + 1, level, .fork left right =>
    let bit := pathBit key level
    (add levels key value remaining (level + 1) (if bit then right else left)).map
      (join bit · (if bit then left else right))

/-- A key agrees with `key` from a level on, on all levels but the last. -/
def Agrees (levels key level other : Nat) : Prop :=
  ∀ i, level ≤ i → i + 1 < levels → pathBit other i = pathBit key i

def endOf (key : Nat) : Nat → Trie → Option (Nat × Nat)
  | _, .empty => none
  | _, .leaf k v => some (k, v)
  | level, .fork left right =>
    if pathBit key level then endOf key (level + 1) right else endOf key (level + 1) left

/-! ## Forks seen from a side -/

theorem fork_eq_join (bit : Bool) (left right : Trie) :
    fork left right =
      join bit (if bit then right else left) (if bit then left else right) := by
  cases bit <;> rfl

theorem join_pairs (bit : Bool) (child other : Trie) :
    (join bit child other).pairs.Perm (child.pairs ++ other.pairs) := by
  cases bit
  · exact List.Perm.refl _
  · exact List.perm_append_comm

theorem join_height (bit : Bool) (child other : Trie) :
    (join bit child other).height = max child.height other.height + 1 := by
  cases bit
  · rfl
  · simp only [join, height, if_true, Nat.max_comm]

theorem placed_join_iff (level : Nat) (bit : Bool) (child other : Trie) :
    Placed level (join bit child other) ↔
      (∀ p ∈ child.pairs, pathBit p.1 level = bit) ∧
        (∀ p ∈ other.pairs, pathBit p.1 level = !bit) ∧
        2 ≤ (child.pairs ++ other.pairs).length ∧
        Placed (level + 1) child ∧ Placed (level + 1) other := by
  cases bit
  · exact Iff.rfl
  · simp only [join, if_true, Placed, List.length_append, Bool.not_true]
    constructor
    · rintro ⟨others, children, two, placedOther, placedChild⟩
      exact ⟨children, others, by omega, placedChild, placedOther⟩
    · rintro ⟨children, others, two, placedChild, placedOther⟩
      exact ⟨others, children, by omega, placedOther, placedChild⟩

theorem mem_join_keys (bit : Bool) (child other : Trie) (key : Nat) :
    key ∈ (join bit child other).keys ↔ key ∈ child.keys ∨ key ∈ other.keys := by
  rw [keys, ((join_pairs bit child other).map Prod.fst).mem_iff, List.map_append, List.mem_append,
    keys, keys]

theorem add_join (levels key value remaining level : Nat) (child other : Trie) :
    (join (pathBit key level) child other).add levels key value (remaining + 1) level =
      (child.add levels key value remaining (level + 1)).map
        (join (pathBit key level) · other) := by
  cases bit : pathBit key level <;> simp [join, add, bit]

theorem endOf_join (key level : Nat) (child other : Trie) :
    endOf key level (join (pathBit key level) child other) = endOf key (level + 1) child := by
  cases bit : pathBit key level <;> simp [join, endOf, bit]

/-! ## Keys of a placed trie -/

theorem Placed.keys_nodup {level : Nat} {T : Trie} (placed : T.Placed level) :
    T.keys.Nodup := by
  induction T generalizing level with
  | empty => exact List.nodup_nil
  | leaf key value => simp [keys, pairs]
  | fork left right leftNodup rightNodup =>
      obtain ⟨leftBit, rightBit, -, placedLeft, placedRight⟩ := placed
      simp only [keys, pairs, List.map_append, List.nodup_append]
      refine ⟨leftNodup placedLeft, rightNodup placedRight, ?_⟩
      intro a inLeft b inRight same
      obtain ⟨p, pLeft, rfl⟩ := List.mem_map.mp inLeft
      obtain ⟨q, qRight, rfl⟩ := List.mem_map.mp inRight
      have bits := (leftBit p pLeft).symm.trans ((congrArg (pathBit · level) same).trans
        (rightBit q qRight))
      exact Bool.false_ne_true bits

theorem mem_pairs_of_endOf {key level : Nat} {T : Trie} {p : Nat × Nat}
    (found : T.endOf key level = some p) : p ∈ T.pairs := by
  induction T generalizing level with
  | empty => cases found
  | leaf k v =>
      cases found
      exact List.mem_singleton_self _
  | fork left right leftEnd rightEnd =>
      simp only [endOf] at found
      split at found
      · exact List.mem_append_right _ (rightEnd found)
      · exact List.mem_append_left _ (leftEnd found)

theorem Placed.endOf_eq_some_iff {level : Nat} {T : Trie} (placed : T.Placed level)
    (key value : Nat) : T.endOf key level = some (key, value) ↔ (key, value) ∈ T.pairs := by
  refine ⟨mem_pairs_of_endOf, fun member => ?_⟩
  induction T generalizing level with
  | empty => cases member
  | leaf k v =>
      rw [pairs, List.mem_singleton] at member
      rw [member, endOf]
  | fork left right leftEnd rightEnd =>
      obtain ⟨leftBit, rightBit, -, placedLeft, placedRight⟩ := placed
      rcases List.mem_append.mp member with inLeft | inRight
      · simp only [endOf, leftBit _ inLeft]
        exact leftEnd placedLeft inLeft
      · simp only [endOf, rightBit _ inRight]
        exact rightEnd placedRight inRight

/-! ## Adding a pair -/

theorem agrees_succ_iff {levels key level other : Nat}
    (same : pathBit other level = pathBit key level) :
    Agrees levels key (level + 1) other ↔ Agrees levels key level other := by
  constructor
  · intro agrees i above below
    rcases Nat.eq_or_lt_of_le above with rfl | above
    · exact same
    · exact agrees i above below
  · intro agrees i above below
    exact agrees i (by omega) below

theorem agrees_of_last {levels key level other : Nat} (last : levels ≤ level + 1) :
    Agrees levels key level other := by
  intro i above below
  omega

theorem push_cases (levels key value oldKey oldValue : Nat) :
    ∀ remaining level, level + remaining = levels →
      (push levels key value oldKey oldValue remaining level = .error (.reachedMaxLevel levels) ∧
          Agrees levels key level oldKey) ∨
        ∃ T, push levels key value oldKey oldValue remaining level = .ok T ∧
          ¬ Agrees levels key level oldKey ∧ T.Placed level ∧ T.height < remaining ∧
          T.pairs.Perm [(key, value), (oldKey, oldValue)] := by
  intro remaining
  induction remaining with
  | zero =>
      intro level total
      exact Or.inl ⟨rfl, agrees_of_last (by omega)⟩
  | succ remaining ih =>
      intro level total
      cases remaining with
      | zero => exact Or.inl ⟨rfl, agrees_of_last (by omega)⟩
      | succ remaining =>
          by_cases same : pathBit key level = pathBit oldKey level
          · rcases ih (level + 1) (by omega) with
              ⟨failed, agrees⟩ | ⟨T, pushed, parted, placed, high, perm⟩
            · exact Or.inl ⟨by rw [push, if_pos same, failed]; rfl, (agrees_succ_iff same.symm).mp agrees⟩
            · refine Or.inr ⟨join (pathBit key level) T .empty,
                by rw [push, if_pos same, pushed]; rfl,
                fun agrees => parted ((agrees_succ_iff same.symm).mpr agrees), ?_, ?_, ?_⟩
              · rw [placed_join_iff]
                refine ⟨?_, by simp [pairs], by simp [pairs, perm.length_eq], placed, trivial⟩
                intro p member
                rcases List.mem_pair.mp (perm.mem_iff.mp member) with rfl | rfl
                · rfl
                · exact same.symm
              · rw [join_height, height]
                omega
              · exact (join_pairs _ _ _).trans (by simpa [pairs] using perm)
          · refine Or.inr ⟨join (pathBit key level) (.leaf key value) (.leaf oldKey oldValue),
              by rw [push, if_neg same], fun agrees => same (agrees level (by omega) (by omega)).symm,
              ?_, ?_, join_pairs _ _ _⟩
            · rw [placed_join_iff]
              refine ⟨by simp [pairs], ?_, by simp [pairs], trivial, trivial⟩
              intro p member
              rw [pairs, List.mem_singleton] at member
              subst member
              exact Bool.eq_not.mpr (Ne.symm same)
            · simp [join_height, height]

/-- The pair goes to the side of its key's bit, where the key and all keys that agree with it
stand. -/
theorem Placed.join_keys {levels key level : Nat} {child other : Trie}
    (placed : (join (pathBit key level) child other).Placed level) (above : level + 1 < levels) :
    (key ∈ (join (pathBit key level) child other).keys ↔ key ∈ child.keys) ∧
      ((∃ k ∈ (join (pathBit key level) child other).keys, Agrees levels key level k) ↔
        ∃ k ∈ child.keys, Agrees levels key (level + 1) k) := by
  obtain ⟨childBit, otherBit, -⟩ := (placed_join_iff level _ child other).mp placed
  have childKey : ∀ k ∈ child.keys, pathBit k level = pathBit key level := by
    intro k member
    obtain ⟨p, inChild, rfl⟩ := List.mem_map.mp member
    exact childBit p inChild
  have otherKey : ∀ k ∈ other.keys, pathBit k level ≠ pathBit key level := by
    intro k member
    obtain ⟨p, inOther, rfl⟩ := List.mem_map.mp member
    rw [otherBit p inOther]
    simp
  constructor
  · rw [mem_join_keys]
    exact or_iff_left fun member => otherKey key member rfl
  · constructor
    · rintro ⟨k, member, agrees⟩
      have inChild := ((mem_join_keys _ _ _ _).mp member).resolve_right
        fun inOther => otherKey k inOther (agrees level (Nat.le_refl _) above)
      exact ⟨k, inChild, (agrees_succ_iff (childKey k inChild)).mpr agrees⟩
    · rintro ⟨k, inChild, agrees⟩
      exact ⟨k, (mem_join_keys _ _ _ _).mpr (Or.inl inChild),
        (agrees_succ_iff (childKey k inChild)).mp agrees⟩

/-- A fork stays placed, and has one more pair, when a pair is added on the side of its bit. -/
theorem Placed.join_cons {key value level : Nat} {child other grown : Trie}
    (placed : (join (pathBit key level) child other).Placed level)
    (placedGrown : grown.Placed (level + 1))
    (perm : grown.pairs.Perm ((key, value) :: child.pairs)) :
    (join (pathBit key level) grown other).Placed level ∧
      (join (pathBit key level) grown other).pairs.Perm
        ((key, value) :: (join (pathBit key level) child other).pairs) := by
  obtain ⟨childBit, otherBit, two, -, placedOther⟩ := (placed_join_iff level _ child other).mp placed
  constructor
  · rw [placed_join_iff]
    refine ⟨?_, otherBit, ?_, placedGrown, placedOther⟩
    · intro p member
      rcases List.mem_cons.mp (perm.mem_iff.mp member) with rfl | member
      · rfl
      · exact childBit p member
    · rw [List.length_append, perm.length_eq, List.length_cons]
      rw [List.length_append] at two
      omega
  · exact (join_pairs _ _ _).trans ((perm.append_right _).trans ((join_pairs _ _ _).symm.cons _))

/-- Adding a key fails where the key is there, or else where one that agrees with it is; otherwise
it puts the pair in its place. -/
theorem add_cases (levels key value : Nat) :
    ∀ (remaining level : Nat) (T : Trie), level + remaining = levels → T.Placed level →
      T.height < remaining →
      (key ∈ T.keys ∧ T.add levels key value remaining level = .error .entryIndexAlreadyExists) ∨
      (key ∉ T.keys ∧ (∃ other ∈ T.keys, Agrees levels key level other) ∧
        T.add levels key value remaining level = .error (.reachedMaxLevel levels)) ∨
      (key ∉ T.keys ∧ (¬ ∃ other ∈ T.keys, Agrees levels key level other) ∧
        ∃ T', T.add levels key value remaining level = .ok T' ∧ T'.Placed level ∧
          T'.height < remaining ∧ T'.pairs.Perm ((key, value) :: T.pairs)) := by
  intro remaining
  induction remaining with
  | zero =>
      intro level T total placed high
      omega
  | succ remaining ih =>
      intro level T total placed high
      cases T with
      | empty =>
          refine Or.inr (Or.inr ⟨by simp [keys, pairs], by simp [keys, pairs],
            .leaf key value, rfl, trivial, by simp [height], List.Perm.refl _⟩)
      | leaf oldKey oldValue =>
          by_cases same : oldKey = key
          · exact Or.inl ⟨by simp [keys, pairs, same], by simp [add, same]⟩
          · have fresh : key ∉ (leaf oldKey oldValue).keys := by
              simp [keys, pairs, Ne.symm same]
            rcases push_cases levels key value oldKey oldValue (remaining + 1) level total with
              ⟨failed, agrees⟩ | ⟨T, pushed, parted, placed, high, perm⟩
            · exact Or.inr (Or.inl ⟨fresh, ⟨oldKey, by simp [keys, pairs], agrees⟩,
                by rw [add, if_neg same, failed]⟩)
            · exact Or.inr (Or.inr ⟨fresh, by simpa [keys, pairs] using parted,
                T, by rw [add, if_neg same, pushed], placed, high, perm⟩)
      | fork left right =>
          -- Only the side of the key's bit matters; the other one is handed through.
          rw [fork_eq_join (pathBit key level)] at placed high ⊢
          generalize (if pathBit key level then right else left) = child at placed high ⊢
          generalize (if pathBit key level then left else right) = other at placed high ⊢
          rw [join_height] at high
          have above : level + 1 < levels := by omega
          obtain ⟨inChild, agreesInChild⟩ := placed.join_keys above
          have placedChild := ((placed_join_iff level _ child other).mp placed).2.2.2.1
          rw [inChild, agreesInChild, add_join]
          rcases ih (level + 1) child (by omega) placedChild (by omega) with
            ⟨there, failed⟩ | ⟨fresh, agrees, failed⟩ | ⟨fresh, parted, grown, added, placedGrown, high', perm⟩
          · exact Or.inl ⟨there, by rw [failed]; rfl⟩
          · exact Or.inr (Or.inl ⟨fresh, agrees, by rw [failed]; rfl⟩)
          · obtain ⟨placed', perm'⟩ := placed.join_cons placedGrown perm
            refine Or.inr (Or.inr ⟨fresh, parted, join (pathBit key level) grown other,
              by rw [added]; rfl, placed', ?_, perm'⟩)
            rw [join_height]
            omega

end Trie

end LinkedCommit
