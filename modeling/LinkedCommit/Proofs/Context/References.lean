import Mathlib.Logic.Relation
import LinkedCommit.Document.Inline
import LinkedCommit.Proofs.Json.Ordered
import LinkedCommit.Proofs.NameMap
import LinkedCommit.Proofs.Result
/-!
# What a context refers to

A context leads on to the items of a list and to the contexts of the documents that it names
(`Context.Refers`); where contexts are put in the place of references, also to the contexts of its
terms (`Inline.Refers`).  An object may besides import the members of another context.

The members together with the imported ones are `Inline.combine`, and their definitions made
self-contained keep their names and their order (`definitions_eq_ok_iff`).
-/

set_option autoImplicit false

namespace LinkedCommit

/-- The documents that a loader answers are ordered, as all values that are read are. -/
def Loader.Ordered (loader : Loader) : Prop :=
  ∀ url document, loader url = .ok document → document.json.Ordered

theorem Loader.mem_of_ofDocuments {documents : NameMap Json} {url : String}
    {document : RemoteDocument} (loaded : Loader.ofDocuments documents url = .ok document) :
    (url, document.json) ∈ documents := by
  unfold ofDocuments at loaded
  split at loaded
  · rename_i found
    cases loaded
    exact NameMap.mem_of_get?_eq_some found
  · cases loaded

theorem Loader.ordered_ofDocuments {documents : NameMap Json}
    (each : ∀ p ∈ documents, p.2.Ordered) : (Loader.ofDocuments documents).Ordered :=
  fun _ _ loaded => each _ (mem_of_ofDocuments loaded)

theorem Json.Ordered.member? {document value : Json} {key : String} (ordered : document.Ordered)
    (found : document.member? key = some value) : value.Ordered := by
  cases document with
  | object members =>
      exact (Json.ordered_object_iff.mp ordered).2 _ (NameMap.mem_of_get?_eq_some found)
  | null | bool | number | string | array => cases found

def Imports (loader : Loader) (members imported : Json.Members) : Prop :=
  ∃ url document, NameMap.get? members "@import" = some (.string url) ∧
    loader url = .ok document ∧ document.json.member? "@context" = some (.object imported)

theorem Imports.sorted {loader : Loader} {members imported : Json.Members}
    (imports : Imports loader members imported) (ordered : loader.Ordered) : imported.Sorted := by
  obtain ⟨url, document, -, loaded, found⟩ := imports
  exact (Json.ordered_object_iff.mp ((ordered url document loaded).member? found)).1

theorem Imports.unique {loader : Loader} {members imported imported' : Json.Members}
    (imports : Imports loader members imported) (imports' : Imports loader members imported') :
    imported = imported' := by
  obtain ⟨url, document, named, loaded, found⟩ := imports
  obtain ⟨url', document', named', loaded', found'⟩ := imports'
  cases named.symm.trans named'
  cases loaded.symm.trans loaded'
  cases found.symm.trans found'
  rfl

theorem not_imports_none {members imported : Json.Members} :
    ¬ Imports .none members imported := by
  rintro ⟨url, document, -, loaded, -⟩
  cases loaded

namespace Context

/-- A context leads on to another one while it is processed. -/
inductive Refers (loader : Loader) : Json → Json → Prop
  | loaded {url : String} {inner : Json} (found : loadContext loader url = .ok inner) :
      Refers loader (.string url) inner
  | item {items : List Json} {item : Json} (member : item ∈ items) :
      Refers loader (.array items) item

end Context

namespace Inline

/-- A context leads on to another one while it is made self-contained. -/
inductive Refers (loader : Loader) : Json → Json → Prop
  | context {outer inner : Json} (refers : Context.Refers loader outer inner) :
      Refers loader outer inner
  | definition {members merged d : Json.Members} {term : String} {inner : Json}
      (found : withImport loader members = .ok merged) (member : (term, .object d) ∈ merged)
      (context : NameMap.get? d "@context" = some inner) : Refers loader (.object members) inner

/-- Members with imported ones, which stand back. -/
def combine (imported members : Json.Members) : Json.Members :=
  members.foldl
    (fun all (key, value) => if key = "@import" then all else NameMap.insert all key value)
    imported

theorem combine_sorted {imported : Json.Members} (sorted : imported.Sorted)
    (members : Json.Members) : (combine imported members).Sorted := by
  unfold combine
  induction members generalizing imported with
  | nil => exact sorted
  | cons head rest ih =>
      rw [List.foldl_cons]
      dsimp only
      split
      · exact ih sorted
      · exact ih (sorted.update _ _)

@[simp] theorem get?_combine_import (imported members : Json.Members) :
    NameMap.get? (combine imported members) "@import" = NameMap.get? imported "@import" := by
  unfold combine
  induction members generalizing imported with
  | nil => rfl
  | cons head rest ih =>
      rw [List.foldl_cons, ih]
      dsimp only
      split
      · rfl
      · rename_i differ
        exact NameMap.get?_insert_of_ne _ _ (Ne.symm differ)

theorem combine_nil {members : Json.Members} (sorted : members.Sorted)
    (noImport : NameMap.get? members "@import" = none) : combine [] members = members := by
  have kept : ∀ p ∈ members, p.1 ≠ "@import" := by
    intro p member same
    exact NameMap.get?_eq_none_iff.mp noImport (same ▸ List.mem_map_of_mem member)
  rw [combine, List.foldl_ext _ (fun all p => NameMap.insert all p.1 p.2) [] fun all p member =>
    if_neg (kept p member)]
  exact sorted.foldl_insert

theorem withImport_eq_ok {loader : Loader} {members merged : Json.Members}
    (done : withImport loader members = .ok merged) :
    (NameMap.get? members "@import" = none ∧ merged = combine [] members) ∨
      ∃ imported, Imports loader members imported ∧ merged = combine imported members := by
  unfold withImport at done
  split at done
  · rename_i noImport
    exact Or.inl ⟨noImport, (Except.ok.inj done).symm⟩
  · rename_i url named
    obtain ⟨document, loaded, found⟩ := Except.bind_eq_ok_iff.mp done
    rw [Except.mapError_eq_ok_iff] at loaded
    split at found
    · rename_i imported inner
      exact Or.inr ⟨imported, ⟨url, document, named, loaded, inner⟩, (Except.ok.inj found).symm⟩
    · cases found
  · cases done

theorem withImport_sorted {loader : Loader} (ordered : loader.Ordered)
    {members merged : Json.Members} (done : withImport loader members = .ok merged) :
    merged.Sorted := by
  rcases withImport_eq_ok done with ⟨-, rfl⟩ | ⟨imported, imports, rfl⟩
  · exact combine_sorted NameMap.sorted_nil members
  · exact combine_sorted (imports.sorted ordered) members

theorem withImport_of_sorted (loader : Loader) {members : Json.Members} (sorted : members.Sorted)
    (noImport : NameMap.get? members "@import" = none) :
    withImport loader members = .ok members := by
  rw [withImport, noImport]
  exact congrArg Except.ok (combine_nil sorted noImport)

variable {nested : Nested}

theorem definition_eq_ok {value made : Json} (done : definition nested value = .ok made) :
    (∃ d inner out, value = .object d ∧ NameMap.get? d "@context" = some inner ∧
        nested inner = .ok out ∧ made = .object (NameMap.insert d "@context" out)) ∨
      made = value ∧ ∀ d, value = .object d → NameMap.get? d "@context" = none := by
  unfold definition at done
  split at done
  · rename_i d
    split at done
    · rename_i inner found
      obtain ⟨out, inlined, same⟩ := Except.bind_eq_ok_iff.mp done
      cases same
      exact Or.inl ⟨d, inner, out, rfl, found, inlined, rfl⟩
    · rename_i absent
      cases done
      refine Or.inr ⟨rfl, fun d' same => ?_⟩
      cases same
      exact absent
  · rename_i notObject
    cases done
    exact Or.inr ⟨rfl, fun d same => absurd same (notObject d)⟩

theorem definitions_eq_ok_iff {members made : Json.Members} :
    definitions nested members = .ok made ↔
      NameMap.Related (fun value value' => definition nested value = .ok value') members made := by
  induction members generalizing made with
  | nil =>
      rw [definitions, NameMap.Related, List.forall₂_nil_left_iff]
      exact ⟨fun same => (Except.ok.inj same).symm, fun empty => empty ▸ rfl⟩
  | cons head rest ih =>
      obtain ⟨key, value⟩ := head
      rw [definitions, NameMap.Related, List.forall₂_cons_left_iff]
      simp only [Except.bind_eq_ok_iff, ih]
      constructor
      · rintro ⟨value', first, rest', others, same⟩
        exact ⟨(key, value'), rest', ⟨rfl, first⟩, others, (Except.ok.inj same).symm⟩
      · rintro ⟨⟨key', value'⟩, rest', ⟨rfl, first⟩, others, rfl⟩
        exact ⟨value', first, rest', others, rfl⟩

theorem sorted_of_definitions {members made : Json.Members} (sorted : members.Sorted)
    (done : definitions nested members = .ok made) : made.Sorted := by
  rw [NameMap.Sorted, (definitions_eq_ok_iff.mp done).keys]
  exact sorted

variable {loader : Loader}

/-- An item made self-contained among others: a list is put in its place item by item. -/
def splice (first : Json) (others : List Json) : List Json :=
  match first with
  | .array inner => inner ++ others
  | one => one :: others

theorem contextWith_string_eq_ok_iff {url : String} {out : Json} :
    contextWith loader nested (.string url) = .ok out ↔
      ∃ inner, Context.loadContext loader url = .ok inner ∧ nested inner = .ok out := by
  rw [contextWith, Except.bind_eq_ok_iff]

theorem contextWith_array_eq_ok_iff {items : List Json} {out : Json} :
    contextWith loader nested (.array items) = .ok out ↔
      ∃ made, itemsWith loader nested items = .ok made ∧ out = .array made := by
  simp only [contextWith, Except.bind_eq_ok_iff]
  constructor
  · rintro ⟨made, each, same⟩
    exact ⟨made, each, (Except.ok.inj same).symm⟩
  · rintro ⟨made, each, rfl⟩
    exact ⟨made, each, rfl⟩

theorem contextWith_object_eq_ok_iff {members : Json.Members} {out : Json} :
    contextWith loader nested (.object members) = .ok out ↔
      ∃ merged made, withImport loader members = .ok merged ∧
        definitions nested merged = .ok made ∧ out = .object made := by
  simp only [contextWith, Except.bind_eq_ok_iff]
  constructor
  · rintro ⟨merged, found, made, defined, same⟩
    exact ⟨merged, made, found, defined, (Except.ok.inj same).symm⟩
  · rintro ⟨merged, made, found, defined, rfl⟩
    exact ⟨merged, found, made, defined, rfl⟩

theorem itemsWith_cons_eq_ok_iff {item : Json} {rest out : List Json} :
    itemsWith loader nested (item :: rest) = .ok out ↔
      ∃ first others, contextWith loader nested item = .ok first ∧
        itemsWith loader nested rest = .ok others ∧ out = splice first others := by
  simp only [itemsWith, Except.bind_eq_ok_iff]
  constructor
  · rintro ⟨first, one, others, more, same⟩
    refine ⟨first, others, one, more, ?_⟩
    cases first <;> exact (Except.ok.inj same).symm
  · rintro ⟨first, others, one, more, rfl⟩
    refine ⟨first, one, others, more, ?_⟩
    cases first <;> rfl

end Inline

end LinkedCommit
