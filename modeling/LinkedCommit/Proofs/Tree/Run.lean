import LinkedCommit.Proofs.Tree.Store
/-!
# Runs of insertions

`insertAll` inserts pairs one after another, whether or not one fails, and `accepted` are the
pairs whose insertion went well.  A tree so reached `Represents` a placed trie, as long as the
lists hashed for its nodes are separated: `Represents.insert` is one step, and
`represents_insertAll` the whole run, at the end of which the pairs of the trie are the accepted
ones.  The log only grows (`nodes_suffix_insertAll`), so that it is enough to ask for separation
at the end.
-/

set_option autoImplicit false

namespace LinkedCommit

namespace SparseTree

def insertAll (t : SparseTree) (pairs : List (Nat × Nat)) : SparseTree :=
  pairs.foldl (fun t p => (t.insert p.1 p.2).2) t

def accepted (t : SparseTree) : List (Nat × Nat) → List (Nat × Nat)
  | [] => []
  | (key, value) :: rest =>
    match t.insert key value with
    | (.ok (), t') => (key, value) :: accepted t' rest
    | (.error _, t') => accepted t' rest

/-- A tree is a placed trie whose nodes are in its log. -/
structure Represents (t : SparseTree) (T : Trie) : Prop where
  hashed : t.nodes.Hashed t.hasher
  held : Trie.Held t.nodes t.root T
  placed : T.Placed 0
  height_le : T.height ≤ t.maxLevels - 1
  leaves_eq : t.leaves = T.pairs.length

@[simp] theorem empty_hasher (hasher : Hasher) (levels : Nat) :
    (empty hasher levels).hasher = hasher := rfl

@[simp] theorem empty_maxLevels (hasher : Hasher) (levels : Nat) :
    (empty hasher levels).maxLevels = levels := rfl

theorem represents_empty (hasher : Hasher) (levels : Nat) :
    Represents (empty hasher levels) .empty where
  hashed := fun _ member => (List.not_mem_nil member).elim
  held := .empty
  placed := trivial
  height_le := Nat.zero_le _
  leaves_eq := rfl

theorem Represents.keys_nodup {t : SparseTree} {T : Trie} (represents : t.Represents T)
    {stored : List (Nat × Nat)} (perm : T.pairs.Perm stored) : (stored.map Prod.fst).Nodup :=
  (perm.map Prod.fst).nodup_iff.mp represents.placed.keys_nodup

/-! ## What an insertion leaves alone -/

def Grows {α : Type} (change : Change α) : Prop :=
  ∀ nodes : NodeStore, nodes <:+ (change.run.run nodes).2

theorem grows_throw {α : Type} (e : TreeError) : Grows (throw e : Change α) :=
  fun nodes => List.suffix_refl nodes

theorem grows_lift {α : Type} (result : Except TreeError α) : Grows (liftM result : Change α) :=
  fun nodes => List.suffix_refl nodes

theorem grows_bind {α β : Type} {change : Change α} {next : α → Change β} (grows : Grows change)
    (nextGrows : ∀ a, Grows (next a)) : Grows (change >>= next) := by
  intro nodes
  have first := grows nodes
  rw [run_bind]
  generalize change.run.run nodes = result at first ⊢
  rcases result with ⟨_ | a, written⟩
  · exact first
  · exact first.trans (nextGrows a written)

theorem grows_store (hasher : Hasher) (node : Node) : Grows (store hasher node) := by
  intro nodes
  rw [store_run]
  cases nodeHash hasher node with
  | error e => exact List.suffix_refl nodes
  | ok d => exact List.suffix_cons _ nodes

theorem grows_pushLeaf (t : SparseTree) (key value oldKey oldValue : Nat) :
    ∀ remaining level, Grows (pushLeaf t key value oldKey oldValue remaining level) := by
  intro remaining
  induction remaining with
  | zero => exact fun _ => grows_throw _
  | succ remaining ih =>
      intro level
      cases remaining with
      | zero => exact grows_throw _
      | succ remaining =>
          rw [pushLeaf]
          split
          · exact grows_bind (ih _) fun _ => grows_store _ _
          · exact grows_bind (grows_store _ _) fun _ =>
              grows_bind (grows_lift _) fun _ => grows_store _ _

theorem grows_addLeaf (t : SparseTree) (key value : Nat) :
    ∀ remaining level root, Grows (addLeaf t key value remaining level root) := by
  intro remaining
  induction remaining with
  | zero => exact fun _ _ => grows_throw _
  | succ remaining ih =>
      intro level root
      rw [addLeaf]
      refine grows_bind (fun nodes => List.suffix_refl nodes) fun nodes =>
        grows_bind (grows_lift _) fun found => ?_
      rcases found with _ | ⟨oldKey, oldValue⟩ | ⟨left, right⟩
      · exact grows_store _ _
      · simp only
        split
        · exact grows_throw _
        · exact grows_pushLeaf _ _ _ _ _ _ _
      · simp only
        split
        · exact grows_bind (ih _ _) fun _ => grows_store _ _
        · exact grows_bind (ih _ _) fun _ => grows_store _ _

@[simp] theorem insert_hasher (t : SparseTree) (key value : Nat) :
    (t.insert key value).2.hasher = t.hasher := by
  unfold insert
  split
  · rfl
  · split <;> rfl

@[simp] theorem insert_maxLevels (t : SparseTree) (key value : Nat) :
    (t.insert key value).2.maxLevels = t.maxLevels := by
  unfold insert
  split
  · rfl
  · split <;> rfl

theorem nodes_suffix_insert (t : SparseTree) (key value : Nat) :
    t.nodes <:+ (t.insert key value).2.nodes := by
  have grows := grows_addLeaf t key value t.maxLevels 0 t.root t.nodes
  unfold insert
  split
  · exact List.suffix_refl _
  · generalize (addLeaf t key value t.maxLevels 0 t.root).run.run t.nodes = result at grows ⊢
    rcases result with ⟨_ | root, nodes⟩ <;> exact grows

theorem insertAll_cons (t : SparseTree) (key value : Nat) (rest : List (Nat × Nat)) :
    t.insertAll ((key, value) :: rest) = (t.insert key value).2.insertAll rest := rfl

@[simp] theorem insertAll_hasher (t : SparseTree) (pairs : List (Nat × Nat)) :
    (t.insertAll pairs).hasher = t.hasher := by
  induction pairs generalizing t with
  | nil => rfl
  | cons p rest ih => rw [insertAll_cons, ih, insert_hasher]

@[simp] theorem insertAll_maxLevels (t : SparseTree) (pairs : List (Nat × Nat)) :
    (t.insertAll pairs).maxLevels = t.maxLevels := by
  induction pairs generalizing t with
  | nil => rfl
  | cons p rest ih => rw [insertAll_cons, ih, insert_maxLevels]

theorem nodes_suffix_insertAll (t : SparseTree) (pairs : List (Nat × Nat)) :
    t.nodes <:+ (t.insertAll pairs).nodes := by
  induction pairs generalizing t with
  | nil => exact List.suffix_refl _
  | cons p rest ih => exact (nodes_suffix_insert t p.1 p.2).trans (ih _)

/-! ## One step and the whole run -/

/-- An insertion that passes the check does what adding the pair to the trie says. -/
theorem Represents.insert_eq {t : SparseTree} {T : Trie} (represents : t.Represents T)
    (separates : t.hasher.Separates t.nodes.inputs) {key value : Nat}
    (inField : checkPair t.hasher.prime key value = .ok ()) :
    match T.add t.maxLevels key value t.maxLevels 0 with
    | .error e => t.insert key value = (.error e, t)
    | .ok T' => ∃ new : NodeStore, new.Hashed t.hasher ∧
      match T'.root t.hasher with
      | .error e => t.insert key value = (.error e, { t with nodes := new ++ t.nodes })
      | .ok d => Trie.Held (new ++ t.nodes) d T' ∧
        t.insert key value =
          (.ok (), { t with root := d, nodes := new ++ t.nodes, leaves := t.leaves + 1 }) := by
  have performs := addLeaf_performs t key value represents.hashed separates t.maxLevels 0 t.root T
    represents.held
  cases outcome : T.add t.maxLevels key value t.maxLevels 0 with
  | error e =>
      rw [outcome] at performs
      have ran : (addLeaf t key value t.maxLevels 0 t.root).run.run t.nodes = (.error e, t.nodes) :=
        performs
      simp only [insert, inField, ran]
  | ok T' =>
      rw [outcome] at performs
      obtain ⟨new, ran, hashed, held⟩ := performs
      refine ⟨new, hashed, ?_⟩
      cases digest : T'.root t.hasher with
      | error e =>
          rw [digest] at ran
          simp only [insert, inField, ran]
      | ok d =>
          rw [digest] at ran
          exact ⟨held d digest, by simp only [insert, inField, ran]⟩

/-- What an added pair leaves of the shape of a trie, whatever the number of levels. -/
theorem Represents.of_add {t : SparseTree} {T T' : Trie} (represents : t.Represents T)
    {key value : Nat} (added : T.add t.maxLevels key value t.maxLevels 0 = .ok T') :
    T'.Placed 0 ∧ T'.height ≤ t.maxLevels - 1 ∧ T'.pairs.Perm ((key, value) :: T.pairs) := by
  have positive : 0 < t.maxLevels := by
    rcases Nat.eq_zero_or_pos t.maxLevels with zero | positive
    · rw [zero] at added
      cases added
    · exact positive
  have high := represents.height_le
  rcases Trie.add_cases t.maxLevels key value t.maxLevels 0 T (by omega) represents.placed
      (by omega) with ⟨-, failed⟩ | ⟨-, -, failed⟩ | ⟨-, -, T'', added', placed, high', perm⟩
  · rw [failed] at added
    cases added
  · rw [failed] at added
    cases added
  · rw [added'] at added
    cases added
    exact ⟨placed, by omega, perm⟩

theorem Represents.insert {t : SparseTree} {T : Trie} (represents : t.Represents T)
    (separates : t.hasher.Separates t.nodes.inputs) (key value : Nat) :
    ∃ T', (t.insert key value).2.Represents T' ∧
      match (t.insert key value).1 with
      | .ok () => T'.pairs.Perm ((key, value) :: T.pairs)
      | .error _ => T' = T := by
  cases inField : checkPair t.hasher.prime key value with
  | error e =>
      have unchanged : t.insert key value = (.error e, t) := by simp only [SparseTree.insert, inField]
      rw [unchanged]
      exact ⟨T, represents, rfl⟩
  | ok _ =>
      have done := represents.insert_eq separates inField
      cases outcome : T.add t.maxLevels key value t.maxLevels 0 with
      | error e =>
          rw [outcome] at done
          rw [done]
          exact ⟨T, represents, rfl⟩
      | ok T' =>
          rw [outcome] at done
          obtain ⟨new, hashed, done⟩ := done
          cases digest : T'.root t.hasher with
          | error e =>
              -- A hash failed on the way up: the log has grown, but the tree is the one of before.
              rw [digest] at done
              rw [done]
              refine ⟨T, ⟨hashed.append represents.hashed, ?_, represents.placed,
                represents.height_le, represents.leaves_eq⟩, rfl⟩
              exact represents.held.mono (List.subset_append_right _ _)
          | ok d =>
              rw [digest] at done
              obtain ⟨held, done⟩ := done
              obtain ⟨placed, high, perm⟩ := represents.of_add outcome
              rw [done]
              refine ⟨T', ⟨hashed.append represents.hashed, held, placed, high, ?_⟩, perm⟩
              rw [perm.length_eq, List.length_cons, represents.leaves_eq]

theorem Represents.insertAll {t : SparseTree} {T : Trie} (represents : t.Represents T)
    (pairs : List (Nat × Nat))
    (separates : t.hasher.Separates (t.insertAll pairs).nodes.inputs) :
    ∃ T', (t.insertAll pairs).Represents T' ∧ T'.pairs.Perm (t.accepted pairs ++ T.pairs) := by
  induction pairs generalizing t T with
  | nil => exact ⟨T, represents, List.Perm.refl _⟩
  | cons p rest ih =>
      obtain ⟨key, value⟩ := p
      rw [insertAll_cons] at separates ⊢
      have before : t.hasher.Separates t.nodes.inputs := NodeStore.separates_of_suffix separates
        ((nodes_suffix_insert t key value).trans (nodes_suffix_insertAll _ rest))
      obtain ⟨T₁, represents₁, step⟩ := represents.insert before key value
      obtain ⟨T', represents', perm⟩ := ih represents₁ (by simpa using separates)
      refine ⟨T', represents', ?_⟩
      rcases inserted : t.insert key value with ⟨e | ⟨⟩, t'⟩
      · rw [inserted] at step perm
        subst step
        rw [accepted, inserted]
        exact perm
      · rw [inserted] at step perm
        rw [accepted, inserted]
        exact perm.trans ((step.append_left _).trans List.perm_middle)

/-- A tree reached by insertions represents a trie of the accepted pairs. -/
theorem represents_insertAll (hasher : Hasher) (levels : Nat) (pairs : List (Nat × Nat))
    (separates : hasher.Separates ((empty hasher levels).insertAll pairs).nodes.inputs) :
    ∃ T, ((empty hasher levels).insertAll pairs).Represents T ∧
      T.pairs.Perm ((empty hasher levels).accepted pairs) := by
  obtain ⟨T, represents, perm⟩ := (represents_empty hasher levels).insertAll pairs separates
  exact ⟨T, represents, by simpa [Trie.pairs] using perm⟩

end SparseTree

end LinkedCommit
