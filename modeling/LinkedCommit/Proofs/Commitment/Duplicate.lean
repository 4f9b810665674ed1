import LinkedCommit.Proofs.Commitment.Agreement
/-!
# Keys that are there already

A tree refuses a key that is there.  Where the entries of a document stop for this reason, the key
of an entry was in the tree from the start, or an entry before it has the same key
(`exists_of_duplicate`); there is no third way, as long as the digests of the nodes hashed so far
tell the nodes apart.
-/

set_option autoImplicit false

namespace LinkedCommit

theorem Trie.exists_hash_of_root_eq_error {hasher : Hasher} {T : Trie} {e : TreeError}
    (failed : T.root hasher = .error e) : ∃ reason, e = .hash reason := by
  have node : ∀ n : Node, SparseTree.nodeHash hasher n = .error e → ∃ reason, e = .hash reason := by
    intro n refused
    rw [SparseTree.nodeHash_eq, Except.mapError_eq_error_iff] at refused
    obtain ⟨reason, -, rfl⟩ := refused
    exact ⟨reason, rfl⟩
  induction T with
  | empty => cases failed
  | leaf key value => exact node _ failed
  | fork left right leftFailed rightFailed =>
      simp only [root, Except.bind_eq_error_iff] at failed
      rcases failed with failed | ⟨l, -, failed | ⟨r, -, failed⟩⟩
      · exact leftFailed failed
      · exact rightFailed failed
      · exact node _ failed

namespace SparseTree

theorem exists_hash_of_checkPair_eq_error {prime key value : Nat} {e : TreeError}
    (refused : checkPair prime key value = .error e) : ∃ reason, e = .hash reason := by
  rw [checkPair, Except.mapError_eq_error_iff] at refused
  obtain ⟨reason, -, rfl⟩ := refused
  exact ⟨reason, rfl⟩

theorem Represents.mem_keys_of_duplicate {t : SparseTree} {T : Trie} (represents : t.Represents T)
    (separates : t.hasher.Separates t.nodes.inputs) {key value : Nat}
    (refused : (t.insert key value).1 = .error .entryIndexAlreadyExists) : key ∈ T.keys := by
  by_contra fresh
  cases checked : checkPair t.hasher.prime key value with
  | error e =>
      have failed : t.insert key value = (.error e, t) := by simp only [SparseTree.insert, checked]
      obtain ⟨reason, rfl⟩ := exists_hash_of_checkPair_eq_error checked
      rw [failed] at refused
      cases refused
  | ok _ =>
      have done := represents.insert_eq separates checked
      have high := represents.height_le
      cases outcome : T.add t.maxLevels key value t.maxLevels 0 with
      | error e =>
          rw [outcome] at done
          rw [done] at refused
          cases refused
          by_cases positive : 0 < t.maxLevels
          · rcases Trie.add_cases t.maxLevels key value t.maxLevels 0 T (by omega)
              represents.placed (by omega) with ⟨there, -⟩ | ⟨-, -, full⟩ | ⟨-, -, grown, added, -⟩
            · exact fresh there
            · rw [full] at outcome
              cases outcome
            · rw [added] at outcome
              cases outcome
          · rw [Nat.eq_zero_of_not_pos positive] at outcome
            cases outcome
      | ok grown =>
          rw [outcome] at done
          obtain ⟨new, -, done⟩ := done
          cases digest : grown.root t.hasher with
          | error e =>
              obtain ⟨reason, rfl⟩ := Trie.exists_hash_of_root_eq_error digest
              rw [digest] at done
              rw [done] at refused
              cases refused
          | ok d =>
              rw [digest] at done
              rw [done.2] at refused
              cases refused

end SparseTree

namespace Commitment

theorem addEntry_eq_duplicate {hasher : Hasher} {t : SparseTree} {stored : List (String × Entry)}
    {entry : Entry} (failed :
      addEntry hasher (t, stored) entry = .error (.tree .entryIndexAlreadyExists)) :
    ∃ e : EncodedEntry hasher, e.entry = entry ∧
      (t.insert e.key e.value).1 = .error .entryIndexAlreadyExists := by
  simp only [addEntry, Except.bind_eq_error_iff, Except.mapError_eq_error_iff,
    Except.mapError_eq_ok_iff] at failed
  rcases failed with ⟨reason, -, absurd⟩ | ⟨⟨key, value⟩, encoded, failed⟩
  · cases absurd
  · refine ⟨⟨entry, key, value, encoded⟩, rfl, ?_⟩
    rcases inserted : t.insert key value with ⟨e | ⟨⟩, t'⟩
    · rw [inserted] at failed
      cases failed
      rfl
    · rw [inserted] at failed
      cases failed

/-- Filling stops at a key that is there only if the tree had it from the start, or an earlier entry
has it, or the nodes of the earlier entries are confused with one another. -/
theorem exists_of_duplicate {hasher : Hasher} {t : SparseTree} {T : Trie}
    (represents : t.Represents T) {extracted : List Entry}
    (failed : extracted.foldlM (addEntry hasher) (t, []) =
      .error (.tree .entryIndexAlreadyExists)) :
    ∃ (items : List (EncodedEntry hasher)) (e : EncodedEntry hasher) (after : List Entry),
      extracted = items.map EncodedEntry.entry ++ e.entry :: after ∧
        (e.key ∈ T.keys ∨ (∃ earlier ∈ items, earlier.key = e.key) ∨
          ¬ t.hasher.Separates (t.insertAll (items.map EncodedEntry.pair)).nodes.inputs) := by
  obtain ⟨before, entry, after, ⟨t', stored⟩, rfl, filled, stopped⟩ :=
    Except.foldlM_eq_error failed
  obtain ⟨items, rfl, treeEq, acceptedEq, -⟩ := foldlM_addEntry filled
  obtain ⟨e, rfl, refused⟩ := addEntry_eq_duplicate stopped
  refine ⟨items, e, after, rfl, ?_⟩
  by_cases separates : t.hasher.Separates (t.insertAll (items.map EncodedEntry.pair)).nodes.inputs
  · obtain ⟨T', represents', perm⟩ := represents.insertAll _ separates
    rw [← treeEq] at represents'
    have separates' : t'.hasher.Separates t'.nodes.inputs := by
      rw [treeEq, SparseTree.insertAll_hasher]
      exact separates
    have there := represents'.mem_keys_of_duplicate separates' refused
    rw [Trie.keys, (perm.map Prod.fst).mem_iff, acceptedEq, List.map_append, List.mem_append,
      List.map_map] at there
    rcases there with earlier | stored
    · obtain ⟨other, member, same⟩ := List.mem_map.mp earlier
      exact Or.inr (Or.inl ⟨other, member, same⟩)
    · exact Or.inl stored
  · exact Or.inr (Or.inr separates)

/-- The paths of two entries have one digest without being the same, or nodes that are put into a
tree for the earlier entries have. -/
def DigestsCollide {hasher : Hasher} (t : SparseTree) (items : List (EncodedEntry hasher))
    (e : EncodedEntry hasher) : Prop :=
  (∃ earlier ∈ items, Path.Clash hasher earlier.entry.path e.entry.path) ∨
    ¬ t.hasher.Separates (t.insertAll (items.map EncodedEntry.pair)).nodes.inputs

theorem digestsCollide_of_duplicate {hasher : Hasher} {t : SparseTree} {T : Trie}
    (represents : t.Represents T) {extracted : List Entry}
    (nodup : (extracted.map Entry.path).Nodup)
    (failed : extracted.foldlM (addEntry hasher) (t, []) =
      .error (.tree .entryIndexAlreadyExists)) :
    ∃ (items : List (EncodedEntry hasher)) (e : EncodedEntry hasher) (after : List Entry),
      extracted = items.map EncodedEntry.entry ++ e.entry :: after ∧
        (e.key ∈ T.keys ∨ DigestsCollide t items e) := by
  obtain ⟨items, e, after, rfl, reason⟩ := exists_of_duplicate represents failed
  refine ⟨items, e, after, rfl, ?_⟩
  rcases reason with there | ⟨earlier, member, sameKey⟩ | confused
  · exact Or.inl there
  · have pathsDiffer : e.entry.path ≠ earlier.entry.path := by
      rw [List.map_append, List.nodup_append] at nodup
      have inEntries := List.mem_map_of_mem (f := Entry.path)
        (List.mem_map_of_mem (f := EncodedEntry.entry) member)
      exact (nodup.2.2 _ inEntries _ List.mem_cons_self).symm
    have encoded : earlier.entry.path.encode hasher = .ok e.key := by
      rw [← sameKey]
      exact earlier.encode_path_value.1
    have clash := Path.clash_of_encode_eq encoded e.encode_path_value.1 pathsDiffer
    exact Or.inr (Or.inl ⟨earlier, member, clash⟩)
  · exact Or.inr (Or.inr confused)

theorem ofDocument_eq_fill {source : List UInt8} {options : CommitOptions} {document : Json}
    {d : Dataset} {entries : List Entry} {e : TreeError}
    (read : readDocument source = .ok document)
    (processed : options.processor options.loader document = .ok d)
    (extracted : extractEntries d options.hasher.prime = .ok entries)
    (failed : ofDocument source options = .error (.tree e)) :
    entries.foldlM (addEntry options.hasher) (options.tree, []) = .error (.tree e) := by
  simp only [ofDocument, Except.bind_eq_error_iff, Except.mapError_eq_error_iff,
    Except.mapError_eq_ok_iff] at failed
  rcases failed with absurd | ⟨document', read', failed⟩
  · rw [read] at absurd
    cases absurd
  cases read.symm.trans read'
  rcases failed with ⟨reason, -, absurd⟩ | ⟨compacted, -, failed⟩
  · cases absurd
  rcases failed with ⟨reason, -, absurd⟩ | ⟨d', processed', failed⟩
  · cases absurd
  cases processed.symm.trans processed'
  rcases failed with absurd | ⟨entries', extracted', failed⟩
  · rw [extracted] at absurd
    cases absurd
  cases extracted.symm.trans extracted'
  rcases failed with failed | ⟨state, -, absurd⟩
  · exact failed
  · cases absurd

end Commitment

end LinkedCommit
