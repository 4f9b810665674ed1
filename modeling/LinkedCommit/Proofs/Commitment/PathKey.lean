import LinkedCommit.Path
import LinkedCommit.Proofs.Result
/-!
# Paths with one key

A key does not determine its path: this takes a hasher that tells apart the lists, the terms and the
indices of the two paths.  `Path.Clash` lists the ways in which it may fail to, and
`Path.clash_of_encode_eq` says that there are no others.
-/

set_option autoImplicit false

namespace LinkedCommit

namespace Path

def inputs (hasher : Hasher) (p : Path) : Except HashError (List Nat) :=
  p.segments.mapM (Segment.encode hasher)

theorem encode_eq_ok_iff (hasher : Hasher) (p : Path) (key : Nat) :
    p.encode hasher = .ok key ↔
      p.isEmpty = false ∧ ∃ list, p.inputs hasher = .ok list ∧ hasher.hash list = .ok key := by
  rw [encode]
  cases p.isEmpty with
  | true => simp
  | false => simp [inputs]

/-- Two lists or two terms of the paths hash alike, or a term of one hashes to an index of the
other. -/
inductive Clash (hasher : Hasher) (p q : Path) : Prop
  | lists {a b : List Nat} {d : Nat} : p.inputs hasher = .ok a → q.inputs hasher = .ok b → a ≠ b →
      hasher.hash a = .ok d → hasher.hash b = .ok d → Clash hasher p q
  | terms {a b : String} {d : Nat} : .term a ∈ p.segments → .term b ∈ q.segments → a ≠ b →
      hasher.hashBytes (utf8Bytes a) = .ok d → hasher.hashBytes (utf8Bytes b) = .ok d →
      Clash hasher p q
  | index {a : String} {n : Nat} :
      (.term a ∈ p.segments ∧ .index n ∈ q.segments) ∨
        (.index n ∈ p.segments ∧ .term a ∈ q.segments) →
      hasher.hashBytes (utf8Bytes a) = .ok n → Clash hasher p q

theorem exists_encode_eq_of_ne {hasher : Hasher} {first second : List Segment} {list : List Nat}
    (encoded : List.Forall₂ (fun s x => s.encode hasher = .ok x) first list)
    (encoded' : List.Forall₂ (fun s x => s.encode hasher = .ok x) second list)
    (differ : first ≠ second) :
    ∃ s ∈ first, ∃ s' ∈ second, s ≠ s' ∧ ∃ x, s.encode hasher = .ok x ∧ s'.encode hasher = .ok x := by
  induction encoded generalizing second with
  | nil =>
      cases encoded'
      exact absurd rfl differ
  | @cons s x rest others head tail ih =>
      cases encoded' with
      | @cons s' _ rest' _ head' tail' =>
          by_cases same : s = s'
          · have differRest : rest ≠ rest' := fun eq => differ (congrArg₂ List.cons same eq)
            obtain ⟨u, inRest, u', inRest', apart, alike⟩ := ih tail' differRest
            exact ⟨u, List.mem_cons_of_mem _ inRest, u', List.mem_cons_of_mem _ inRest', apart, alike⟩
          · exact ⟨s, List.mem_cons_self, s', List.mem_cons_self, same, x, head, head'⟩

/-- Two paths with one key are the same, or they clash. -/
theorem clash_of_encode_eq {hasher : Hasher} {p q : Path} {key : Nat}
    (encoded : p.encode hasher = .ok key) (encoded' : q.encode hasher = .ok key) (differ : q ≠ p) :
    Clash hasher p q := by
  obtain ⟨-, list, inputs, digest⟩ := (encode_eq_ok_iff hasher p key).mp encoded
  obtain ⟨-, list', inputs', digest'⟩ := (encode_eq_ok_iff hasher q key).mp encoded'
  by_cases sameList : list = list'
  · subst sameList
    have segmentsDiffer : p.segments ≠ q.segments := by
      intro same
      cases p
      cases q
      exact differ (congrArg Path.mk same.symm)
    obtain ⟨s, inP, s', inQ, apart, x, alike, alike'⟩ := exists_encode_eq_of_ne
      (Except.mapM_eq_ok_iff.mp inputs) (Except.mapM_eq_ok_iff.mp inputs') segmentsDiffer
    cases s with
    | term a =>
        cases s' with
        | term b => exact .terms inP inQ (fun same => apart (congrArg _ same)) alike alike'
        | index n =>
            cases alike'
            exact .index (Or.inl ⟨inP, inQ⟩) alike
    | index n =>
        cases alike
        cases s' with
        | term b => exact .index (Or.inr ⟨inP, inQ⟩) alike'
        | index m =>
            cases alike'
            exact absurd rfl apart
  · exact .lists inputs inputs' sameList digest digest'

end Path

end LinkedCommit
