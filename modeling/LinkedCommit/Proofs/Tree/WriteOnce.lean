import Mathlib.Algebra.Order.Ring.Nat
import LinkedCommit.Proofs.Tree.Verification
/-!
# A tree is a write-once map

`WriteOnce` is the map a tree implements: pairs are added and never changed, and `refusal` is the
one reason for which a pair is not added.  `Follows` relates a tree to its map, `Follows.call` is
one call, and `answers_eq_writeOnce` says of every sequence of calls that the tree answers as the
map does.

The hasher may be any that accepts field elements; what is asked of its digests is asked of the
nodes written in the run.
-/

set_option autoImplicit false

namespace LinkedCommit

/-- A call on a tree, or on the map it implements. -/
inductive TreeCall where
  | insert (key value : Nat)
  | get (key : Nat)
  | size

inductive TreeAnswer where
  | inserted (outcome : Except TreeError Unit)
  | found (value : Except TreeError (Option Nat))
  | size (count : Nat)
deriving DecidableEq

namespace TreeCall

variable {σ : Type}

def answers (step : σ → TreeCall → TreeAnswer × σ) : σ → List TreeCall → List TreeAnswer
  | _, [] => []
  | state, call :: rest => (step state call).1 :: answers step (step state call).2 rest

def after (step : σ → TreeCall → TreeAnswer × σ) : σ → List TreeCall → σ
  | state, [] => state
  | state, call :: rest => after step (step state call).2 rest

theorem after_append (step : σ → TreeCall → TreeAnswer × σ) (state : σ)
    (first second : List TreeCall) :
    after step state (first ++ second) = after step (after step state first) second := by
  induction first generalizing state with
  | nil => rfl
  | cons call rest ih => exact ih _

end TreeCall

/-- A finite map in which nothing is ever changed. -/
structure WriteOnce where
  prime : Nat
  levels : Nat
  /-- The pairs, the latest first. -/
  pairs : List (Nat × Nat)

namespace WriteOnce

def empty (prime levels : Nat) : WriteOnce := ⟨prime, levels, []⟩

/-- Why a pair is not added: it is outside the field, its key is there, or a key that has the same
low bits is. -/
def refusal (m : WriteOnce) (key value : Nat) : Option TreeError :=
  if m.prime ≤ key then some (.hash (.notInField key))
  else if m.prime ≤ value then some (.hash (.notInField value))
  else if (m.pairs.lookup key).isSome then some .entryIndexAlreadyExists
  else if ∃ p ∈ m.pairs, p.1 % 2 ^ (m.levels - 1) = key % 2 ^ (m.levels - 1) then
    some (.reachedMaxLevel m.levels)
  else none

def call (m : WriteOnce) : TreeCall → TreeAnswer × WriteOnce
  | .insert key value =>
    match m.refusal key value with
    | some reason => (.inserted (.error reason), m)
    | none => (.inserted (.ok ()), { m with pairs := (key, value) :: m.pairs })
  | .get key => (.found (.ok (m.pairs.lookup key)), m)
  | .size => (.size m.pairs.length, m)

end WriteOnce

theorem Trie.agrees_iff_mod_eq (levels key other : Nat) :
    Agrees levels key 0 other ↔ other % 2 ^ (levels - 1) = key % 2 ^ (levels - 1) := by
  constructor
  · intro agrees
    refine Nat.eq_of_testBit_eq fun i => ?_
    rw [Nat.testBit_mod_two_pow, Nat.testBit_mod_two_pow]
    by_cases low : i < levels - 1
    · rw [show other.testBit i = key.testBit i from agrees i (Nat.zero_le i) (by omega)]
    · simp [low]
  · intro same i _ below
    have bits := congrArg (Nat.testBit · i) same
    show other.testBit i = key.testBit i
    simpa only [Nat.testBit_mod_two_pow, show i < levels - 1 by omega, decide_true,
      Bool.true_and] using bits

theorem Trie.mem_keys_iff_of_perm {T : Trie} {stored : List (Nat × Nat)}
    (perm : T.pairs.Perm stored) (key : Nat) : key ∈ T.keys ↔ (stored.lookup key).isSome = true := by
  rw [keys, (perm.map Prod.fst).mem_iff]
  simp

theorem Trie.exists_agrees_iff_of_perm {T : Trie} {stored : List (Nat × Nat)}
    (perm : T.pairs.Perm stored) (levels key : Nat) :
    (∃ other ∈ T.keys, Agrees levels key 0 other) ↔
      ∃ p ∈ stored, p.1 % 2 ^ (levels - 1) = key % 2 ^ (levels - 1) := by
  simp only [agrees_iff_mod_eq, keys, (perm.map Prod.fst).mem_iff, List.mem_map,
    exists_exists_and_eq_and]

theorem Trie.root_lt {hasher : Hasher} (accepts : hasher.Accepts) (prime : 2 ≤ hasher.prime)
    {T : Trie} (inField : ∀ p ∈ T.pairs, p.1 < hasher.prime ∧ p.2 < hasher.prime) :
    ∃ d, T.root hasher = .ok d ∧ d < hasher.prime := by
  induction T with
  | empty => exact ⟨0, rfl, by omega⟩
  | leaf key value =>
      obtain ⟨keyLt, valueLt⟩ := inField (key, value) (List.mem_singleton_self _)
      obtain ⟨d, digest, lt⟩ := accepts [key, value, 1] (by simp) (by simp [maxHashInputs])
        (by simp only [List.forall_mem_cons]; exact ⟨keyLt, valueLt, by omega, nofun⟩)
      exact ⟨d, (SparseTree.nodeHash_eq_ok_iff hasher (.leaf key value) d).mpr digest, lt⟩
  | fork left right leftRoot rightRoot =>
      obtain ⟨l, leftDigest, leftLt⟩ := leftRoot fun p member =>
        inField p (List.mem_append_left _ member)
      obtain ⟨r, rightDigest, rightLt⟩ := rightRoot fun p member =>
        inField p (List.mem_append_right _ member)
      obtain ⟨d, digest, lt⟩ := accepts [l, r] (by simp) (by simp [maxHashInputs])
        (by simp only [List.forall_mem_cons]; exact ⟨leftLt, rightLt, nofun⟩)
      refine ⟨d, ?_, lt⟩
      rw [root, leftDigest, rightDigest]
      exact (SparseTree.nodeHash_eq_ok_iff hasher (.middle l r) d).mpr digest

namespace SparseTree

open TreeCall (answers after)

def call (t : SparseTree) : TreeCall → TreeAnswer × SparseTree
  | .insert key value => (.inserted (t.insert key value).1, (t.insert key value).2)
  | .get key => (.found (t.get? key), t)
  | .size => (.size t.leaves, t)

theorem checkPair_eq (prime key value : Nat) :
    checkPair prime key value =
      if prime ≤ key then .error (.hash (.notInField key))
      else if prime ≤ value then .error (.hash (.notInField value))
      else .ok () := by
  unfold checkPair checkInField
  split
  · rfl
  · split <;> rfl

theorem nodes_suffix_call (t : SparseTree) (c : TreeCall) : t.nodes <:+ (t.call c).2.nodes := by
  cases c with
  | insert key value => exact nodes_suffix_insert t key value
  | get key => exact List.suffix_refl _
  | size => exact List.suffix_refl _

theorem nodes_suffix_after (t : SparseTree) (calls : List TreeCall) :
    t.nodes <:+ (after call t calls).nodes := by
  induction calls generalizing t with
  | nil => exact List.suffix_refl _
  | cons c rest ih => exact (nodes_suffix_call t c).trans (ih _)

theorem Represents.insert_eq_ok {t : SparseTree} {T grown : Trie} (represents : t.Represents T)
    (separates : t.hasher.Separates t.nodes.inputs) (accepts : t.hasher.Accepts)
    (prime : 2 ≤ t.hasher.prime) {key value : Nat}
    (checked : checkPair t.hasher.prime key value = .ok ())
    (added : T.add t.maxLevels key value t.maxLevels 0 = .ok grown)
    (inField : ∀ p ∈ grown.pairs, p.1 < t.hasher.prime ∧ p.2 < t.hasher.prime) :
    (t.insert key value).1 = .ok () := by
  have done := represents.insert_eq separates checked
  rw [added] at done
  obtain ⟨new, -, done⟩ := done
  obtain ⟨d, digest, -⟩ := Trie.root_lt accepts prime inField
  rw [digest] at done
  rw [done.2]

/-- A tree has the pairs of a map, all of them field elements. -/
structure Follows (t : SparseTree) (m : WriteOnce) : Prop where
  prime_eq : m.prime = t.hasher.prime
  levels_eq : m.levels = t.maxLevels
  inField : ∀ p ∈ m.pairs, p.1 < t.hasher.prime ∧ p.2 < t.hasher.prime
  represents : ∃ T, t.Represents T ∧ T.pairs.Perm m.pairs

theorem follows_empty (hasher : Hasher) (levels : Nat) :
    Follows (empty hasher levels) (.empty hasher.prime levels) where
  prime_eq := rfl
  levels_eq := rfl
  inField := fun _ member => (List.not_mem_nil member).elim
  represents := ⟨.empty, represents_empty hasher levels, List.Perm.refl _⟩

section Calls

variable {t : SparseTree} {m : WriteOnce}

/-- An insertion is refused for the reason of the map, and the tree stays as it was; or the pair is
added. -/
theorem Follows.insert_eq (follows : Follows t m) (accepts : t.hasher.Accepts)
    (prime : 2 ≤ t.hasher.prime) (positive : 1 ≤ t.maxLevels)
    (separates : t.hasher.Separates t.nodes.inputs) (key value : Nat) :
    match m.refusal key value with
    | some reason => t.insert key value = (.error reason, t)
    | none => (t.insert key value).1 = .ok () ∧
        Follows (t.insert key value).2 { m with pairs := (key, value) :: m.pairs } := by
  -- The checks of the field come before the store is looked at; the trie tells the other cases.
  obtain ⟨p, l, pairs⟩ := m
  obtain ⟨rfl, rfl, inField, T, represents, perm⟩ := follows
  simp only at perm inField
  have checked := checkPair_eq t.hasher.prime key value
  rw [WriteOnce.refusal]
  by_cases keyOut : t.hasher.prime ≤ key
  · rw [if_pos keyOut] at checked ⊢
    simp only [SparseTree.insert, checked]
  by_cases valueOut : t.hasher.prime ≤ value
  · rw [if_neg keyOut, if_pos valueOut] at checked ⊢
    simp only [SparseTree.insert, checked]
  rw [if_neg keyOut, if_neg valueOut] at checked ⊢
  have done := represents.insert_eq separates checked
  have high := represents.height_le
  have there := Trie.mem_keys_iff_of_perm perm key
  have agreeing := Trie.exists_agrees_iff_of_perm perm t.maxLevels key
  rcases Trie.add_cases t.maxLevels key value t.maxLevels 0 T (by omega) represents.placed
      (by omega) with ⟨known, failed⟩ | ⟨fresh, agrees, failed⟩ |
        ⟨fresh, parted, grown, added, -, -, more⟩
  · rw [if_pos (there.mp known)]
    rw [failed] at done
    exact done
  · rw [if_neg (mt there.mpr fresh), if_pos (agreeing.mp agrees)]
    rw [failed] at done
    exact done
  · rw [if_neg (mt there.mpr fresh), if_neg (mt agreeing.mpr (by simpa using parted))]
    have inFieldAll : ∀ p ∈ (key, value) :: pairs,
        p.1 < t.hasher.prime ∧ p.2 < t.hasher.prime := by
      rw [List.forall_mem_cons]
      exact ⟨⟨Nat.lt_of_not_le keyOut, Nat.lt_of_not_le valueOut⟩, inField⟩
    have inserted := represents.insert_eq_ok separates accepts prime checked added
      fun p member => inFieldAll p ((perm.cons _).mem_iff.mp (more.mem_iff.mp member))
    obtain ⟨T', represents', perm'⟩ := represents.insert separates key value
    rw [inserted] at perm'
    refine ⟨inserted, by rw [insert_hasher], by rw [insert_maxLevels], ?_, T', represents',
      perm'.trans (perm.cons _)⟩
    rw [insert_hasher]
    exact inFieldAll

theorem Follows.call (follows : Follows t m) (accepts : t.hasher.Accepts)
    (prime : 2 ≤ t.hasher.prime) (positive : 1 ≤ t.maxLevels)
    (separates : t.hasher.Separates t.nodes.inputs) (c : TreeCall) :
    (t.call c).1 = (m.call c).1 ∧ Follows (t.call c).2 (m.call c).2 := by
  cases c with
  | insert key value =>
      have done := follows.insert_eq accepts prime positive separates key value
      simp only [SparseTree.call, WriteOnce.call]
      cases refused : m.refusal key value with
      | some reason =>
          rw [refused] at done
          rw [done]
          exact ⟨rfl, follows⟩
      | none =>
          rw [refused] at done
          rw [done.1]
          exact ⟨rfl, done.2⟩
  | get key =>
      obtain ⟨T, represents, perm⟩ := follows.represents
      obtain ⟨generated, found, -⟩ := represents.verifyProof_iff positive perm key separates
      refine ⟨?_, follows⟩
      simp only [SparseTree.call, WriteOnce.call, get?, found]
      rfl
  | size =>
      obtain ⟨T, represents, perm⟩ := follows.represents
      refine ⟨?_, follows⟩
      rw [SparseTree.call, WriteOnce.call, represents.leaves_eq, perm.length_eq]

@[simp] theorem call_hasher (c : TreeCall) : (t.call c).2.hasher = t.hasher := by
  cases c <;> simp [SparseTree.call]

@[simp] theorem call_maxLevels (c : TreeCall) : (t.call c).2.maxLevels = t.maxLevels := by
  cases c <;> simp [SparseTree.call]

@[simp] theorem after_hasher (t : SparseTree) (calls : List TreeCall) :
    (after SparseTree.call t calls).hasher = t.hasher := by
  induction calls generalizing t with
  | nil => rfl
  | cons c rest ih => rw [after, ih, call_hasher]

@[simp] theorem after_maxLevels (t : SparseTree) (calls : List TreeCall) :
    (after SparseTree.call t calls).maxLevels = t.maxLevels := by
  induction calls generalizing t with
  | nil => rfl
  | cons c rest ih => rw [after, ih, call_maxLevels]

theorem Follows.run (follows : Follows t m) (accepts : t.hasher.Accepts)
    (prime : 2 ≤ t.hasher.prime) (positive : 1 ≤ t.maxLevels) (calls : List TreeCall)
    (separates : t.hasher.Separates (after SparseTree.call t calls).nodes.inputs) :
    answers SparseTree.call t calls = answers WriteOnce.call m calls ∧
      Follows (after SparseTree.call t calls) (after WriteOnce.call m calls) := by
  induction calls generalizing t m with
  | nil => exact ⟨rfl, follows⟩
  | cons c rest ih =>
      have before : t.hasher.Separates t.nodes.inputs :=
        NodeStore.separates_of_suffix separates (nodes_suffix_after t (c :: rest))
      obtain ⟨same, follows'⟩ := follows.call accepts prime positive before c
      obtain ⟨sameRest, last⟩ := ih follows' (by simpa using accepts) (by simpa using prime)
        (by simpa using positive) (by simpa [after] using separates)
      exact ⟨congrArg₂ List.cons same sameRest, last⟩

end Calls

/-- A tree answers every sequence of calls as the write-once map does; where an insertion is refused
the tree stays as it was. -/
theorem answers_eq_writeOnce {hasher : Hasher} (accepts : hasher.Accepts)
    (prime : 2 ≤ hasher.prime) {levels : Nat} (positive : 1 ≤ levels) (calls : List TreeCall)
    (separates : hasher.Separates (after call (empty hasher levels) calls).nodes.inputs) :
    answers call (empty hasher levels) calls =
        answers WriteOnce.call (.empty hasher.prime levels) calls ∧
      ∀ before key value rest, calls = before ++ .insert key value :: rest →
        let t := after call (empty hasher levels) before
        ∀ reason, (t.insert key value).1 = .error reason → (t.insert key value).2 = t := by
  have follows := follows_empty hasher levels
  refine ⟨(follows.run accepts prime positive calls separates).1, ?_⟩
  rintro before key value rest rfl t reason refused
  rw [TreeCall.after_append] at separates
  have separatesBefore : hasher.Separates t.nodes.inputs :=
    NodeStore.separates_of_suffix separates (nodes_suffix_after t (.insert key value :: rest))
  have followsBefore := (follows.run accepts prime positive before separatesBefore).2
  have done := followsBefore.insert_eq (by simpa using accepts) (by simpa using prime)
    (by simpa using positive) (by simpa using separatesBefore) key value
  split at done
  · rw [done]
  · rw [done.1] at refused
    cases refused

/-- A run on three levels with an insertion refused for each reason: 5 has the two low bits of 1. -/
theorem answers_with_refusals :
    let hasher := foldHasher 1000000007
    let calls : List TreeCall := [.insert 1 10, .insert 1 11, .insert 5 50, .insert 3 30,
      .insert 1000000007 0, .insert 2 1000000008, .get 1, .get 3, .get 5, .size]
    let t := after call (empty hasher 3) [.insert 1 10]
    hasher.Accepts ∧ 2 ≤ hasher.prime ∧ 1 ≤ 3 ∧
      hasher.Separates (after call (empty hasher 3) calls).nodes.inputs ∧
      answers call (empty hasher 3) calls =
        [.inserted (.ok ()), .inserted (.error .entryIndexAlreadyExists),
          .inserted (.error (.reachedMaxLevel 3)), .inserted (.ok ()),
          .inserted (.error (.hash (.notInField 1000000007))),
          .inserted (.error (.hash (.notInField 1000000008))),
          .found (.ok (some 10)), .found (.ok (some 30)), .found (.ok none), .size 2] ∧
      (t.insert 1 11).1 = .error .entryIndexAlreadyExists ∧ (t.insert 1 11).2 = t := by
  intro hasher calls t
  have accepts : hasher.Accepts := foldHasher_accepts (by decide)
  have apart : hasher.Separates (after call (empty hasher 3) calls).nodes.inputs := by
    decide +kernel
  have refused : (t.insert 1 11).1 = .error .entryIndexAlreadyExists := by rfl
  obtain ⟨same, unchanged⟩ := answers_eq_writeOnce accepts (by decide) (by decide) calls apart
  exact ⟨accepts, by decide, by decide, apart, same.trans (by decide +kernel), refused,
    unchanged [.insert 1 10] 1 11 _ rfl _ refused⟩

end SparseTree

end LinkedCommit
