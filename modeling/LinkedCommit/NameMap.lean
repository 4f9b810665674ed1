/-!
# Maps sorted by name

A map from names is a list of pairs in the order of the names, by code point, each name once.
`insert`, `erase` and `update` keep it so; `NameMap.Sorted` says that a list of pairs is such a map.
-/

set_option autoImplicit false

namespace LinkedCommit

abbrev NameMap (α : Type) := List (String × α)

namespace NameMap

variable {α : Type}

def get? : NameMap α → String → Option α
  | [], _ => none
  | (name, value) :: rest, key => if name = key then some value else get? rest key

def contains (map : NameMap α) (key : String) : Bool := (get? map key).isSome

/-- Gives a name the value that `f` makes of its old one; a new name is put in its place. -/
def update (key : String) (f : Option α → α) : NameMap α → NameMap α
  | [] => [(key, f none)]
  | (name, old) :: rest =>
    if key < name then (key, f none) :: (name, old) :: rest
    else if key = name then (name, f (some old)) :: rest
    else (name, old) :: update key f rest

def insert (map : NameMap α) (key : String) (value : α) : NameMap α :=
  update key (fun _ => value) map

def erase : NameMap α → String → NameMap α
  | [], _ => []
  | (name, value) :: rest, key => if name = key then rest else (name, value) :: erase rest key

/-- The map of pairs in any order; of equal names the last one counts. -/
def ofPairs (pairs : List (String × α)) : NameMap α :=
  pairs.foldl (fun map (key, value) => insert map key value) []

def keys (map : NameMap α) : List String := map.map Prod.fst

/-- The names stand in their order, each once. -/
def Sorted (map : NameMap α) : Prop := map.keys.Pairwise (· < ·)

instance (map : NameMap α) : Decidable map.Sorted :=
  inferInstanceAs (Decidable (List.Pairwise _ _))

theorem sorted_nil : Sorted ([] : NameMap α) := List.Pairwise.nil

theorem mem_keys_update {key other : String} {f : Option α → α} {map : NameMap α}
    (member : other ∈ keys (update key f map)) : other = key ∨ other ∈ map.keys := by
  induction map with
  | nil => exact Or.inl (List.mem_singleton.mp member)
  | cons head rest ih =>
    obtain ⟨name, old⟩ := head
    rw [update] at member
    split at member
    · exact List.mem_cons.mp member
    · split at member
      · exact Or.inr member
      · rcases List.mem_cons.mp member with same | later
        · exact Or.inr (same ▸ List.mem_cons_self)
        · exact (ih later).imp_right (List.mem_cons_of_mem name)

theorem Sorted.update {map : NameMap α} (sorted : map.Sorted) (key : String) (f : Option α → α) :
    Sorted (NameMap.update key f map) := by
  induction map with
  | nil => exact List.pairwise_singleton _ _
  | cons head rest ih =>
    obtain ⟨name, old⟩ := head
    obtain ⟨least, sortedRest⟩ := List.pairwise_cons.mp sorted
    rw [NameMap.update]
    split
    · rename_i before
      refine List.pairwise_cons.mpr ⟨fun other member => ?_, sorted⟩
      rcases List.mem_cons.mp member with same | later
      · exact same ▸ before
      · exact String.lt_trans before (least other later)
    · split
      · exact sorted
      · rename_i notBefore differ
        refine List.pairwise_cons.mpr ⟨fun other member => ?_, ih sortedRest⟩
        rcases mem_keys_update member with same | later
        · subst same
          apply String.not_le.mp
          intro le
          exact differ (String.le_antisymm le (String.not_lt.mp notBefore))
        · exact least other later

theorem Sorted.get?_eq_some_iff {map : NameMap α} (sorted : map.Sorted) {key : String} {value : α} :
    get? map key = some value ↔ (key, value) ∈ map := by
  induction map with
  | nil => exact ⟨nofun, nofun⟩
  | cons head rest ih =>
    obtain ⟨name, first⟩ := head
    obtain ⟨least, sortedRest⟩ := List.pairwise_cons.mp sorted
    rw [get?]
    split
    · rename_i same
      subst same
      have notLater : (name, value) ∉ rest := fun member =>
        String.lt_irrefl name (least name (List.mem_map_of_mem member))
      simp [notLater, eq_comm]
    · rename_i differ
      simp [ih sortedRest, Ne.symm differ]

theorem get?_update_of_ne (map : NameMap α) {key other : String} (f : Option α → α)
    (differ : other ≠ key) : get? (update key f map) other = get? map other := by
  induction map with
  | nil => simp [update, get?, Ne.symm differ]
  | cons head rest ih =>
    obtain ⟨name, old⟩ := head
    simp only [update]
    split
    · simp [get?, Ne.symm differ]
    · split
      · rename_i same
        subst same
        simp [get?, Ne.symm differ]
      · simp [get?, ih]

theorem get?_insert_self (map : NameMap α) (key : String) (value : α) :
    get? (insert map key value) key = some value := by
  unfold insert
  induction map with
  | nil => simp [update, get?]
  | cons head rest ih =>
    obtain ⟨name, old⟩ := head
    simp only [update]
    split
    · simp [get?]
    · split
      · rename_i h; simp [get?, h]
      · rename_i hne
        simp [get?, ih, Ne.symm hne]

theorem get?_insert_of_ne (map : NameMap α) {key other : String} (value : α) (h : other ≠ key) :
    get? (insert map key value) other = get? map other :=
  get?_update_of_ne map _ h

theorem get?_eq_none_iff {map : NameMap α} {key : String} :
    get? map key = none ↔ key ∉ map.keys := by
  induction map with
  | nil => exact ⟨fun _ => nofun, fun _ => rfl⟩
  | cons head rest ih =>
    obtain ⟨name, value⟩ := head
    rw [get?]
    split
    · rename_i same
      simp [keys, same]
    · rename_i differ
      rw [ih]
      simp [keys, Ne.symm differ]

theorem mem_of_get?_eq_some {map : NameMap α} {key : String} {value : α}
    (found : get? map key = some value) : (key, value) ∈ map := by
  induction map with
  | nil => cases found
  | cons head rest ih =>
    obtain ⟨name, first⟩ := head
    rw [get?] at found
    split at found
    · rename_i same
      cases found
      exact same ▸ List.mem_cons_self
    · exact List.mem_cons_of_mem _ (ih found)

theorem get?_update_of_sorted {map : NameMap α} (sorted : map.Sorted) (key : String)
    (f : Option α → α) : get? (update key f map) key = some (f (get? map key)) := by
  induction map with
  | nil => simp [update, get?]
  | cons head rest ih =>
    obtain ⟨name, old⟩ := head
    obtain ⟨least, sortedRest⟩ := List.pairwise_cons.mp sorted
    simp only [update]
    split
    · rename_i before
      have absent : get? ((name, old) :: rest) key = none := by
        rw [get?_eq_none_iff, keys, List.map_cons, List.mem_cons]
        rintro (rfl | later)
        · exact String.lt_irrefl _ before
        · exact String.lt_irrefl _ (String.lt_trans before (least key later))
      rw [absent]
      simp [get?]
    · split
      · rename_i same
        simp [get?, same]
      · rename_i differ
        simp [get?, Ne.symm differ, ih sortedRest]

theorem get?_update_of_none {map : NameMap α} {key : String} (f : Option α → α)
    (absent : get? map key = none) : get? (update key f map) key = some (f none) := by
  induction map with
  | nil => simp [update, get?]
  | cons head rest ih =>
    obtain ⟨name, old⟩ := head
    rw [get?] at absent
    split at absent
    · cases absent
    · rename_i differ
      simp only [update]
      split
      · simp [get?]
      · simp [get?, differ, Ne.symm differ, ih absent]

theorem contains_update (map : NameMap α) (key : String) (f : Option α → α) :
    contains (update key f map) key = true := by
  induction map with
  | nil => simp [update, contains, get?]
  | cons head rest ih =>
    obtain ⟨name, old⟩ := head
    simp only [update]
    split
    · simp [contains, get?]
    · split
      · rename_i same
        simp [contains, get?, same]
      · rename_i differ
        simpa [contains, get?, Ne.symm differ] using ih

theorem insert_insert_self (map : NameMap α) (key : String) (value : α) :
    insert (insert map key value) key value = insert map key value := by
  unfold insert
  induction map with
  | nil => simp [update]
  | cons head rest ih =>
    obtain ⟨name, old⟩ := head
    by_cases before : key < name
    · simp [update, before]
    · by_cases same : key = name
      · simp [update, same]
      · simp [update, before, same, ih]

theorem insert_of_last {map : NameMap α} {key : String} (value : α)
    (last : ∀ name ∈ map.keys, name < key) : insert map key value = map ++ [(key, value)] := by
  unfold insert
  induction map with
  | nil => rfl
  | cons head rest ih =>
    obtain ⟨name, old⟩ := head
    have before : name < key := last name (by simp [keys])
    have notBefore : ¬ key < name := fun after => String.lt_irrefl _ (String.lt_trans before after)
    have differ : key ≠ name := fun same => notBefore (same ▸ before)
    rw [update, if_neg notBefore, if_neg differ,
      ih fun other member => last other (List.mem_cons_of_mem _ member), List.cons_append]

/-- The pairs of a map, put in one after another, make the map again. -/
theorem Sorted.foldl_insert {map : NameMap α} (sorted : map.Sorted) :
    map.foldl (fun all p => insert all p.1 p.2) [] = map := by
  have grown : ∀ before after : NameMap α, (before ++ after : NameMap α).Sorted →
      after.foldl (fun all p => insert all p.1 p.2) before = before ++ after := by
    intro before after sorted
    induction after generalizing before with
    | nil => simp
    | cons head rest ih =>
      have last : ∀ name ∈ before.keys, name < head.1 := by
        intro name member
        rw [Sorted, keys, List.map_append, List.pairwise_append] at sorted
        exact sorted.2.2 name member head.1 (by simp)
      rw [List.foldl_cons, insert_of_last _ last, ih _ (by simpa using sorted), List.append_assoc]
      rfl
  exact grown [] map sorted

theorem mem_of_mem_update {map : NameMap α} {key : String} {value : α} {p : String × α}
    (member : p ∈ update key (fun _ => value) map) : p.2 = value ∨ p ∈ map := by
  induction map with
  | nil => exact Or.inl (List.mem_singleton.mp member ▸ rfl)
  | cons head rest ih =>
    obtain ⟨name, old⟩ := head
    rw [update] at member
    split at member
    · exact (List.mem_cons.mp member).imp_left (congrArg Prod.snd)
    · split at member
      · exact (List.mem_cons.mp member).imp (congrArg Prod.snd) (List.mem_cons_of_mem _)
      · rcases List.mem_cons.mp member with same | later
        · exact Or.inr (same ▸ List.mem_cons_self)
        · exact (ih later).imp_right (List.mem_cons_of_mem _)

end NameMap

end LinkedCommit
