import Std.Data.String.ToNat
import LinkedCommit.Commitment.Basic
import LinkedCommit.Document.Canonical
import LinkedCommit.Proofs.Commitment.PathKey
import LinkedCommit.Proofs.Tree.Verification
/-!
# The entries and the tree of a commitment agree

A commitment keeps its entries twice, by the digits of their keys and in the tree.  `Keeps` says
that both hold the same encoded entries; the loop that fills them establishes it
(`foldlM_addEntry`), because a key that the tree accepts is new.  `Commitment.agreement` draws the
consequences for entries and proofs at every path.
-/

set_option autoImplicit false

namespace LinkedCommit

structure EncodedEntry (hasher : Hasher) where
  entry : Entry
  key : Nat
  value : Nat
  encode_eq : entry.encode hasher = .ok (key, value)

namespace EncodedEntry

variable {hasher : Hasher}

def pair (e : EncodedEntry hasher) : Nat × Nat := (e.key, e.value)

def kept (e : EncodedEntry hasher) : String × Entry := (toString e.key, e.entry)

theorem encode_path_value (e : EncodedEntry hasher) :
    e.entry.path.encode hasher = .ok e.key ∧ e.entry.value.encode hasher = .ok e.value := by
  have encoded := e.encode_eq
  simp only [Entry.encode, Except.bind_eq_ok_iff] at encoded
  obtain ⟨key, keyEq, value, valueEq, same⟩ := encoded
  cases same
  exact ⟨keyEq, valueEq⟩

end EncodedEntry

namespace Commitment

open SparseTree (accepted insertAll)

/-! ## Filling both stores -/

theorem putEntry_of_fresh {digits : String} {entries : List (String × Entry)}
    (fresh : digits ∉ entries.map Prod.fst) (entry : Entry) :
    putEntry digits entry entries = entries ++ [(digits, entry)] := by
  induction entries with
  | nil => rfl
  | cons head rest ih =>
      obtain ⟨other, old⟩ := head
      rw [List.map_cons, List.mem_cons, not_or] at fresh
      rw [putEntry, if_neg (Ne.symm fresh.1), ih fresh.2, List.cons_append]

theorem foldl_putEntry {hasher : Hasher} (items : List (EncodedEntry hasher))
    (entries : List (String × Entry))
    (nodup : ((entries ++ items.map EncodedEntry.kept).map Prod.fst).Nodup) :
    items.foldl (fun entries e => putEntry (toString e.key) e.entry entries) entries =
      entries ++ items.map EncodedEntry.kept := by
  induction items generalizing entries with
  | nil => simp
  | cons e rest ih =>
      have fresh : toString e.key ∉ entries.map Prod.fst := by
        intro member
        rw [List.map_append, List.nodup_append] at nodup
        exact nodup.2.2 _ member _ List.mem_cons_self rfl
      have split : entries ++ (e :: rest).map EncodedEntry.kept =
          entries ++ [e.kept] ++ rest.map EncodedEntry.kept := by simp
      rw [List.foldl_cons, putEntry_of_fresh fresh, split]
      exact ih _ (split ▸ nodup)

theorem addEntry_eq_ok {hasher : Hasher} {t : SparseTree} {entries : List (String × Entry)}
    {entry : Entry} {next : SparseTree × List (String × Entry)}
    (added : addEntry hasher (t, entries) entry = .ok next) :
    ∃ e : EncodedEntry hasher, e.entry = entry ∧
      t.insert e.key e.value = (.ok (), next.1) ∧
      next.2 = putEntry (toString e.key) e.entry entries := by
  simp only [addEntry, Except.bind_eq_ok_iff, Except.mapError_eq_ok_iff] at added
  obtain ⟨⟨key, value⟩, encoded, added⟩ := added
  refine ⟨⟨entry, key, value, encoded⟩, rfl, ?_⟩
  rcases inserted : t.insert key value with ⟨e | ⟨⟩, t'⟩
  · rw [inserted] at added
    cases added
  · rw [inserted] at added
    cases added
    exact ⟨rfl, rfl⟩

/-- Where the loop comes to its end, every entry has been encoded, and its pair has been accepted by
the tree. -/
theorem foldlM_addEntry {hasher : Hasher} {t tree : SparseTree} {extracted : List Entry}
    {before entries : List (String × Entry)}
    (filled : extracted.foldlM (addEntry hasher) (t, before) = .ok (tree, entries)) :
    ∃ items : List (EncodedEntry hasher), items.map EncodedEntry.entry = extracted ∧
      tree = t.insertAll (items.map EncodedEntry.pair) ∧
      t.accepted (items.map EncodedEntry.pair) = items.map EncodedEntry.pair ∧
      entries = items.foldl (fun es e => putEntry (toString e.key) e.entry es) before := by
  induction extracted generalizing t before with
  | nil =>
      cases filled
      exact ⟨[], rfl, rfl, rfl, rfl⟩
  | cons entry rest ih =>
      rw [List.foldlM_cons, Except.bind_eq_ok_iff] at filled
      obtain ⟨⟨t', entries'⟩, added, filled⟩ := filled
      obtain ⟨e, rfl, inserted, put⟩ := addEntry_eq_ok added
      obtain ⟨items, rfl, treeEq, acceptedEq, entriesEq⟩ := ih filled
      simp only at inserted put
      refine ⟨e :: items, rfl, ?_, ?_, ?_⟩
      · rw [treeEq, List.map_cons, EncodedEntry.pair, SparseTree.insertAll_cons, inserted]
      · rw [List.map_cons, EncodedEntry.pair, accepted, inserted]
        exact congrArg _ acceptedEq
      · rw [entriesEq, put]
        rfl

/-! ## What a commitment keeps -/

structure Keeps (c : Commitment) (items : List (EncodedEntry c.hasher)) : Prop where
  hasher_eq : c.tree.hasher = c.hasher
  represents : ∃ T, c.tree.Represents T ∧ T.pairs.Perm (items.map EncodedEntry.pair)
  keys_nodup : (items.map EncodedEntry.key).Nodup
  entries_eq : c.entries = items.map EncodedEntry.kept

theorem ofDocument_eq_ok {source : List UInt8} {options : CommitOptions} {c : Commitment}
    (committed : ofDocument source options = .ok c) :
    c.hasher = options.hasher ∧ ∃ document dataset extracted,
      readDocument source = .ok document ∧
      compactDocument options.loader options.safeMode document = .ok c.compacted ∧
      options.processor options.loader document = .ok dataset ∧
      extractEntries dataset options.hasher.prime = .ok extracted ∧
      extracted.foldlM (addEntry options.hasher) (options.tree, []) = .ok (c.tree, c.entries) := by
  simp only [ofDocument, Except.bind_eq_ok_iff, Except.mapError_eq_ok_iff] at committed
  obtain ⟨document, read, compacted, view, dataset, processed, extracted, extraction,
    ⟨tree, entries⟩, filled, same⟩ := committed
  cases same
  exact ⟨rfl, document, dataset, extracted, read, view, processed, extraction, filled⟩

theorem digits_nodup {hasher : Hasher} {items : List (EncodedEntry hasher)}
    (nodup : (items.map EncodedEntry.key).Nodup) :
    ((items.map EncodedEntry.kept).map Prod.fst).Nodup := by
  have digits : (items.map EncodedEntry.kept).map Prod.fst =
      (items.map EncodedEntry.key).map toString := by simp [EncodedEntry.kept]
  rw [digits]
  exact nodup.map fun _ _ same => Nat.repr_injective same

theorem keeps_of_committed {source : List UInt8} {options : CommitOptions} {c : Commitment}
    {levels : Nat} (fresh : options.tree = .empty options.hasher levels)
    (committed : ofDocument source options = .ok c)
    (separates : options.hasher.Separates c.tree.nodes.inputs) :
    c.hasher = options.hasher ∧ c.tree.maxLevels = levels ∧
      ∃ document dataset, ∃ items : List (EncodedEntry c.hasher),
        readDocument source = .ok document ∧
        options.processor options.loader document = .ok dataset ∧
        extractEntries dataset options.hasher.prime = .ok (items.map EncodedEntry.entry) ∧
        c.Keeps items := by
  obtain ⟨hasherEq, document, dataset, extracted, read, -, processed, extraction, filled⟩ :=
    ofDocument_eq_ok committed
  rw [fresh, ← hasherEq] at filled
  rw [← hasherEq] at separates
  obtain ⟨items, rfl, treeEq, acceptedEq, entriesEq⟩ := foldlM_addEntry filled
  have treeHasher : c.tree.hasher = c.hasher := by
    rw [treeEq, SparseTree.insertAll_hasher, SparseTree.empty_hasher]
  have represented : ∃ T, c.tree.Represents T ∧ T.pairs.Perm (items.map EncodedEntry.pair) := by
    obtain ⟨T, represents, perm⟩ := SparseTree.represents_insertAll c.hasher levels
      (items.map EncodedEntry.pair) (treeEq ▸ separates)
    rw [← treeEq] at represents
    rw [acceptedEq] at perm
    exact ⟨T, represents, perm⟩
  have nodup : (items.map EncodedEntry.key).Nodup := by
    obtain ⟨T, represents, perm⟩ := represented
    have keys := represents.keys_nodup perm
    rwa [List.map_map] at keys
  refine ⟨hasherEq, ?_, document, dataset, items, read, processed, extraction, treeHasher,
    represented, nodup, ?_⟩
  · rw [treeEq, SparseTree.insertAll_maxLevels, SparseTree.empty_maxLevels]
  · rw [entriesEq]
    exact foldl_putEntry items [] (digits_nodup nodup)

section Lookup

variable {c : Commitment} {items : List (EncodedEntry c.hasher)} {key : Nat}

theorem Keeps.lookup_of_mem (keeps : c.Keeps items) {e : EncodedEntry c.hasher}
    (member : e ∈ items) :
    c.entryOfKey? e.key = some e.entry ∧
      (items.map EncodedEntry.pair).lookup e.key = some e.value := by
  constructor
  · rw [entryOfKey?, keeps.entries_eq, lookup_eq_some_iff_mem (digits_nodup keeps.keys_nodup)]
    exact List.mem_map_of_mem member
  · have nodup : ((items.map EncodedEntry.pair).map Prod.fst).Nodup := by
      rw [List.map_map]
      exact keeps.keys_nodup
    rw [lookup_eq_some_iff_mem nodup]
    exact List.mem_map_of_mem member

theorem Keeps.lookup_of_absent (keeps : c.Keeps items) (absent : ∀ e ∈ items, e.key ≠ key) :
    c.entryOfKey? key = none ∧ (items.map EncodedEntry.pair).lookup key = none := by
  constructor
  · rw [entryOfKey?, keeps.entries_eq, Option.eq_none_iff_forall_ne_some]
    intro entry found
    obtain ⟨e, member, same⟩ := List.mem_map.mp (mem_of_lookup_eq_some found)
    exact absent e member (Nat.repr_injective (congrArg Prod.fst same))
  · rw [Option.eq_none_iff_forall_ne_some]
    intro value found
    obtain ⟨e, member, same⟩ := List.mem_map.mp (mem_of_lookup_eq_some found)
    exact absent e member (congrArg Prod.fst same)

theorem entry_eq {path : Path} (encoded : path.encode c.hasher = .ok key) :
    c.entry path =
      match c.entryOfKey? key with
      | some entry => .ok entry
      | none => .error (.entryNotFound path.display) := by
  rw [entry, Commitment.key, encoded]
  rfl

theorem proof_eq {path : Path} (encoded : path.encode c.hasher = .ok key) {generated : Proof}
    {value : Option Nat} (found : c.tree.generateProof key = .ok (generated, value)) :
    c.proof path =
      if !generated.existence then .ok (generated, none)
      else
        match c.entryOfKey? key with
        | some entry => .ok (generated, some entry.value)
        | none => .error (.broken (.entryAbsent path.display)) := by
  rw [proof, Commitment.key, encoded]
  show ((c.tree.generateProof key).mapError CommitError.tree >>= _) = _
  rw [found]
  rfl

end Lookup

/-- Entries and proofs of a committed document agree at every path that has a key.  An entry found
under the key of another path is a failure of the hasher to tell the two paths apart. -/
theorem agreement {source : List UInt8} {options : CommitOptions} {c : Commitment} {levels : Nat}
    (positive : 1 ≤ levels) (fresh : options.tree = .empty options.hasher levels)
    (committed : ofDocument source options = .ok c)
    (separates : options.hasher.Separates c.tree.nodes.inputs) :
    (∃ document dataset extracted, readDocument source = .ok document ∧
      options.processor options.loader document = .ok dataset ∧
      extractEntries dataset options.hasher.prime = .ok extracted ∧
      c.entries.length = extracted.length ∧ ∀ e ∈ extracted, c.entry e.path = .ok e) ∧
    ∀ (path : Path) (key : Nat), path.encode options.hasher = .ok key →
      ∃ proof value, c.proof path = .ok (proof, value) ∧
        match c.entry path with
        | .ok e => proof.existence = true ∧ value = some e.value ∧
            (∃ v, e.value.encode options.hasher = .ok v ∧
              verifyProof options.hasher c.root proof key v = .ok true) ∧
            (e.path ≠ path → path.Clash options.hasher e.path)
        | .error failure => proof.existence = false ∧ value = none ∧
            failure = .entryNotFound path.display ∧
            verifyProof options.hasher c.root proof key 0 = .ok true := by
  obtain ⟨hasherEq, levelsEq, document, dataset, items, read, processed, extraction, keeps⟩ :=
    keeps_of_committed fresh committed separates
  rw [← hasherEq] at separates extraction ⊢
  constructor
  · refine ⟨document, dataset, _, read, processed, extraction, ?_, ?_⟩
    · rw [keeps.entries_eq, List.length_map, List.length_map]
    · intro entry extracted
      obtain ⟨e, member, rfl⟩ := List.mem_map.mp extracted
      rw [entry_eq e.encode_path_value.1, (keeps.lookup_of_mem member).1]
  · intro path key encoded
    obtain ⟨T, represents, perm⟩ := keeps.represents
    obtain ⟨generated, found, existence, accepts, -⟩ := represents.verifyProof_iff
      (levelsEq ▸ positive) perm key (keeps.hasher_eq ▸ separates)
    rw [keeps.hasher_eq] at accepts
    -- The entry found under the key may be that of another path with the same key.
    by_cases there : ∃ e ∈ items, e.key = key
    · obtain ⟨e, member, rfl⟩ := there
      obtain ⟨keptEntry, storedValue⟩ := keeps.lookup_of_mem member
      rw [storedValue] at existence accepts
      refine ⟨generated, some e.entry.value, ?_, ?_⟩
      · rw [proof_eq encoded found, existence, keptEntry]
        rfl
      · rw [entry_eq encoded, keptEntry]
        obtain ⟨pathKey, valueEq⟩ := e.encode_path_value
        exact ⟨existence, rfl, ⟨e.value, valueEq, accepts e.value fun _ => rfl⟩,
          Path.clash_of_encode_eq encoded pathKey⟩
    · have absent : ∀ e ∈ items, e.key ≠ key := fun e member same => there ⟨e, member, same⟩
      obtain ⟨keptNothing, storedNothing⟩ := keeps.lookup_of_absent absent
      rw [storedNothing] at existence accepts
      refine ⟨generated, none, ?_, ?_⟩
      · rw [proof_eq encoded found, existence]
        rfl
      · rw [entry_eq encoded, keptNothing]
        refine ⟨existence, rfl, rfl, accepts 0 fun claimed => ?_⟩
        rw [existence] at claimed
        cases claimed

/-- The one property of a document has a proof, and another is proved to be absent. -/
theorem agreement_of_one_property :
    let source := utf8Bytes "\x7b\"@id\":\"urn:a\",\"urn:p\":5\x7d"
    let hasher := foldHasher 1000000007
    let options : CommitOptions := ⟨hasher, .none, canonicalDataset, true, .empty hasher 40⟩
    let present : Path := ⟨[.term "urn:p"]⟩
    let absent : Path := ⟨[.term "urn:q"]⟩
    1 ≤ 40 ∧ options.tree = .empty options.hasher 40 ∧
      present.encode options.hasher = .ok 986465919 ∧
      absent.encode options.hasher = .ok 986465920 ∧
      ∃ c, ofDocument source options = .ok c ∧ options.hasher.Separates c.tree.nodes.inputs ∧
        (∃ proof, c.proof present = .ok (proof, some (.bigInt 5)) ∧ proof.existence = true) ∧
        ∃ proof, c.proof absent = .ok (proof, none) ∧
          verifyProof options.hasher c.root proof 986465920 0 = .ok true := by
  intro source hasher options present absent
  let entry : Entry := ⟨present, .bigInt 5, "http://www.w3.org/2001/XMLSchema#integer"⟩
  have evaluated : ∃ c, ofDocument source options = .ok c ∧
      hasher.Separates c.tree.nodes.inputs ∧ c.entry present = .ok entry ∧
        c.entry absent = .error (.entryNotFound "urn:q") := by
    have computed : (match ofDocument source options with
        | .ok c => decide (hasher.Separates c.tree.nodes.inputs ∧ c.entry present = .ok entry ∧
            c.entry absent = .error (.entryNotFound "urn:q"))
        | .error _ => false) = true := by decide +kernel
    cases result : ofDocument source options with
    | error e =>
        rw [result] at computed
        cases computed
    | ok c =>
        rw [result] at computed
        exact ⟨c, rfl, of_decide_eq_true computed⟩
  obtain ⟨c, committed, apart, there, notThere⟩ := evaluated
  have presentKey : present.encode hasher = .ok 986465919 := by decide +kernel
  have absentKey : absent.encode hasher = .ok 986465920 := by decide +kernel
  obtain ⟨-, agree⟩ := agreement (by decide) rfl committed apart
  obtain ⟨proof, value, found, agreed⟩ := agree present _ presentKey
  obtain ⟨denial, nothing, denied, refused⟩ := agree absent _ absentKey
  rw [there] at agreed
  rw [notThere] at refused
  obtain ⟨existence, rfl, -⟩ := agreed
  obtain ⟨-, rfl, -, verified⟩ := refused
  exact ⟨by decide, rfl, presentKey, absentKey, c, committed, apart, ⟨proof, found, existence⟩,
    denial, denied, verified⟩

end Commitment

end LinkedCommit
