import Mathlib.Data.List.GetD
import LinkedCommit.Proofs.Hash.Frames
/-!
# Byte strings of equal digest

Of a byte string the frames show the bytes up to zeros after the last one (`frames_eq_iff`).  So two
byte strings in the same number of frames have the same frames if they are equal once the shorter
one is filled with zeros, and then one digest.  Otherwise their frames differ somewhere; going back
from equal digests, the last frames that differ have one digest (`chain_collision`).

That a frame is hashed on the way to a digest is said without looking at how it is computed: if it
had no digest, there would be none (`Hashes`).
-/

set_option autoImplicit false

namespace LinkedCommit.Sponge

/-! ## Lists up to zeros at their end -/

section Filled

variable {α β : Type} {z : α}

theorem getD_append_replicate (xs : List α) (n i : Nat) :
    (xs ++ List.replicate n z).getD i z = xs.getD i z := by
  by_cases before : i < xs.length
  · rw [List.getD_append _ _ _ _ before]
  · have after : xs.length ≤ i := Nat.le_of_not_lt before
    rw [List.getD_append_right _ _ _ _ after, List.getD_eq_default _ _ after,
      List.getD_eq_getElem?_getD, List.getElem?_getD_replicate_default_eq]

theorem eq_iff_getD {xs ys : List α} (length : xs.length = ys.length) :
    xs = ys ↔ ∀ i, xs.getD i z = ys.getD i z := by
  refine ⟨fun same i => same ▸ rfl, fun same => List.ext_getElem length fun i inX inY => ?_⟩
  rw [← List.getD_eq_getElem _ z inX, ← List.getD_eq_getElem _ z inY, same]

/-- Lists filled to one length are equal if no place tells them apart. -/
theorem append_replicate_eq_iff {xs ys : List α} {n k : Nat}
    (length : xs.length + n = ys.length + k) :
    xs ++ List.replicate n z = ys ++ List.replicate k z ↔ ∀ i, xs.getD i z = ys.getD i z := by
  rw [eq_iff_getD (z := z) (by simpa using length)]
  simp only [getD_append_replicate]

theorem getD_take (xs : List α) (n i : Nat) :
    (xs.take n).getD i z = if i < n then xs.getD i z else z := by
  simp only [List.getD_eq_getElem?_getD, List.getElem?_take]
  split <;> rfl

theorem getD_drop (xs : List α) (n i : Nat) : (xs.drop n).getD i z = xs.getD (n + i) z := by
  simp only [List.getD_eq_getElem?_getD, List.getElem?_drop]

theorem getD_pieces {size : Nat} (positive : 0 < size) (xs : List α) (i : Nat) :
    (pieces size xs).getD i [] = (xs.drop (size * i)).take size := by
  fun_induction pieces size xs generalizing i with
  | case1 xs uncut =>
      rw [eq_nil_of_uncut positive uncut, List.drop_nil, List.take_nil]
      rfl
  | case2 xs more ih =>
      cases i with
      | zero => rfl
      | succ i => rw [List.getD_cons_succ, ih, List.drop_drop, Nat.mul_succ, Nat.add_comm]

theorem getD_map_pieces_iff {size : Nat} (positive : 0 < size) {value : List α → β}
    (telling : ∀ p q : List α, p.length ≤ size → q.length ≤ size →
      (value p = value q ↔ ∀ i, p.getD i z = q.getD i z)) (xs ys : List α) :
    (∀ i, ((pieces size xs).map value).getD i (value []) =
        ((pieces size ys).map value).getD i (value [])) ↔ ∀ i, xs.getD i z = ys.getD i z := by
  simp only [List.getD_map, getD_pieces positive, telling _ _ (List.length_take_le _ _)
    (List.length_take_le _ _), getD_take, getD_drop]
  constructor
  · intro same i
    have within : i % size < size := Nat.mod_lt i positive
    have place := same (i / size) (i % size)
    rwa [if_pos within, if_pos within, Nat.div_add_mod] at place
  · intro same i j
    rw [same]

end Filled

/-! ## What frames show -/

theorem chunkValue_eq_iff (a b : List UInt8) (short : a.length ≤ chunkSize)
    (short' : b.length ≤ chunkSize) :
    chunkValue a = chunkValue b ↔ ∀ i, a.getD i 0 = b.getD i 0 := by
  have length : a.length + (chunkSize - a.length) = b.length + (chunkSize - b.length) := by omega
  rw [← append_replicate_eq_iff length, chunkValue, chunkValue]
  exact ⟨natOfBytes_injective (by simpa using length), fun same => by rw [same]⟩

theorem padFrame_eq_iff {width : Nat} (a b : List Nat) (fits : a.length ≤ width)
    (fits' : b.length ≤ width) :
    padFrame width a = padFrame width b ↔ ∀ i, a.getD i 0 = b.getD i 0 :=
  append_replicate_eq_iff (by omega)

def firstFrame (width : Nat) (numbers : List Nat) : List Nat := padFrame width (numbers.take width)

/-- What stands beside a digest in the frames after the first. -/
def laterFrames (width : Nat) (numbers : List Nat) : List (List Nat) :=
  (pieces (width - 1) (numbers.drop width)).map (padFrame (width - 1))

/-- Numbers in as many frames have the same frames if no place tells them apart. -/
theorem frames_eq_iff {width : Nat} (wide : 2 ≤ width) {xs ys : List Nat}
    (length : (laterFrames width xs).length = (laterFrames width ys).length) :
    firstFrame width xs = firstFrame width ys ∧ laterFrames width xs = laterFrames width ys ↔
      ∀ i, xs.getD i 0 = ys.getD i 0 := by
  have later : laterFrames width xs = laterFrames width ys ↔
      ∀ i, (xs.drop width).getD i 0 = (ys.drop width).getD i 0 := by
    rw [eq_iff_getD (z := padFrame (width - 1) []) length]
    exact getD_map_pieces_iff (by omega) padFrame_eq_iff _ _
  rw [later, firstFrame, firstFrame,
    padFrame_eq_iff _ _ (List.length_take_le _ _) (List.length_take_le _ _)]
  simp only [getD_take, getD_drop]
  constructor
  · rintro ⟨first, rest⟩ i
    by_cases early : i < width
    · have place := first i
      rwa [if_pos early, if_pos early] at place
    · have place := rest (i - width)
      rwa [Nat.add_sub_cancel' (Nat.le_of_not_lt early)] at place
  · intro same
    exact ⟨fun i => by rw [same], fun i => same _⟩

theorem getD_chunks_iff (m m' : List UInt8) :
    (∀ i, (chunks m).getD i 0 = (chunks m').getD i 0) ↔ ∀ i, m.getD i 0 = m'.getD i 0 := by
  rw [chunks_eq, chunks_eq]
  exact getD_map_pieces_iff (by decide) chunkValue_eq_iff m m'

/-! ## Chains of frames -/

/-- A frame, and then each further one after the digest of the one before. -/
def chain (hash : List Nat → Except HashError Nat) (frame : List Nat) (later : List (List Nat)) :
    Except HashError Nat :=
  hash frame >>= fun digest => later.foldlM (fun digest slots => hash (digest :: slots)) digest

theorem hashFrames_eq_chain (hash : List Nat → Except HashError Nat) (width : Nat)
    (numbers : List Nat) :
    hashFrames hash width numbers =
      chain hash (firstFrame width numbers) (laterFrames width numbers) := by
  rw [chain, laterFrames, hashFrames, firstFrame]
  simp only [List.foldlM_map, padFrame_cons]

def refusing (hash : List Nat → Except HashError Nat) (frame : List Nat) (e : HashError) :
    List Nat → Except HashError Nat :=
  fun inputs => if inputs = frame then .error e else hash inputs

section Chain

variable {hash : List Nat → Except HashError Nat}

theorem chain_cons {frame slots : List Nat} {later : List (List Nat)} {d : Nat}
    (hashed : hash frame = .ok d) :
    chain hash frame (slots :: later) = chain hash (d :: slots) later := by
  rw [chain, hashed]
  rfl

/-- The frame is one of a chain: if it is refused, the chain has no digest. -/
def Links (hash : List Nat → Except HashError Nat) (first : List Nat) (later : List (List Nat))
    (frame : List Nat) : Prop :=
  ∀ e, chain (refusing hash frame e) first later = .error e

theorem Links.first (frame : List Nat) (later : List (List Nat)) :
    Links hash frame later frame := by
  intro e
  rw [chain, refusing, if_pos rfl]
  rfl

theorem Links.later {first slots frame : List Nat} {later : List (List Nat)} {d : Nat}
    (hashed : hash first = .ok d) (links : Links hash (d :: slots) later frame) :
    Links hash first (slots :: later) frame := by
  intro e
  by_cases same : first = frame
  · rw [same]
    exact Links.first frame (slots :: later) e
  · have hashed' : refusing hash frame e first = .ok d := by rw [refusing, if_neg same, hashed]
    rw [chain_cons hashed']
    exact links e

/-- Two chains have different frames of one digest. -/
def LinksCollide (hash : List Nat → Except HashError Nat) (first first' : List Nat)
    (later later' : List (List Nat)) : Prop :=
  ∃ f f', f ≠ f' ∧ Links hash first later f ∧ Links hash first' later' f' ∧
    ∃ x, hash f = .ok x ∧ hash f' = .ok x

theorem LinksCollide.later {first first' slots slots' : List Nat} {later later' : List (List Nat)}
    {d d' : Nat} (hashed : hash first = .ok d) (hashed' : hash first' = .ok d')
    (collide : LinksCollide hash (d :: slots) (d' :: slots') later later') :
    LinksCollide hash first first' (slots :: later) (slots' :: later') := by
  obtain ⟨f, f', differ, links, links', digest⟩ := collide
  exact ⟨f, f', differ, links.later hashed, links'.later hashed', digest⟩

theorem first_collision {first first' : List Nat} (later later' : List (List Nat)) {d : Nat}
    (hashed : hash first = .ok d) (hashed' : hash first' = .ok d) :
    first = first' ∨ LinksCollide hash first first' later later' := by
  by_cases same : first = first'
  · exact .inl same
  · exact .inr ⟨first, first', same, .first _ _, .first _ _, d, hashed, hashed'⟩

/-- Chains of one length and digest are equal, or have different frames of one digest. -/
theorem chain_collision {first first' : List Nat} {later later' : List (List Nat)} {d : Nat}
    (length : later.length = later'.length) (hashed : chain hash first later = .ok d)
    (hashed' : chain hash first' later' = .ok d) :
    (first = first' ∧ later = later') ∨ LinksCollide hash first first' later later' := by
  -- from the end of the chains, as long as the digests that stand in the frames are equal
  induction later generalizing first first' later' with
  | nil =>
      cases later' with
      | cons => cases length
      | nil =>
          have only : ∀ frame : List Nat, chain hash frame [] = hash frame := fun frame =>
            bind_pure (hash frame)
          rw [only] at hashed hashed'
          exact (first_collision [] [] hashed hashed').imp_left fun same => ⟨same, rfl⟩
  | cons slots rest ih =>
      cases later' with
      | nil => cases length
      | cons slots' rest' =>
          obtain ⟨a, started, -⟩ := Except.bind_eq_ok_iff.mp hashed
          obtain ⟨a', started', -⟩ := Except.bind_eq_ok_iff.mp hashed'
          rw [chain_cons started] at hashed
          rw [chain_cons started'] at hashed'
          rcases ih (Nat.succ.inj length) hashed hashed' with ⟨next, others⟩ | collide
          · obtain ⟨rfl, rfl⟩ := List.cons.inj next
            exact (first_collision _ _ started started').imp_left fun same => ⟨same, by rw [others]⟩
          · exact .inr (collide.later started started')

end Chain

/-! ## Byte strings -/

section Bytes

variable {hash : List Nat → Except HashError Nat} {width : Nat}

theorem spongeHashBytes_eq_chain (hash : List Nat → Except HashError Nat) (wide : 2 ≤ width)
    (narrow : width ≤ maxHashInputs) (bytes : List UInt8) :
    spongeHashBytes hash bytes width =
      chain hash (firstFrame width (chunks bytes)) (laterFrames width (chunks bytes)) := by
  rw [spongeHashBytes_eq wide narrow, hashFrames_eq_chain]

/-- Byte strings that are equal once the shorter one is filled with zeros. -/
def EqualFilled (m m' : List UInt8) : Prop :=
  m ++ List.replicate (m'.length - m.length) 0 = m' ++ List.replicate (m.length - m'.length) 0

theorem equalFilled_iff (m m' : List UInt8) : EqualFilled m m' ↔ ∀ i, m.getD i 0 = m'.getD i 0 :=
  append_replicate_eq_iff (by omega)

/-- A frame is hashed on the way to the digest of a byte string: if it is refused, there is none. -/
def Hashes (hash : List Nat → Except HashError Nat) (width : Nat) (bytes : List UInt8)
    (frame : List Nat) : Prop :=
  ∀ e, spongeHashBytes (refusing hash frame e) bytes width = .error e

/-- Different frames of one digest, hashed on the way to the digests of two byte strings. -/
def FramesCollide (hash : List Nat → Except HashError Nat) (width : Nat) (m m' : List UInt8) :
    Prop :=
  ∃ f f', f ≠ f' ∧ Hashes hash width m f ∧ Hashes hash width m' f' ∧
    ∃ x, hash f = .ok x ∧ hash f' = .ok x

theorem Links.hashes {bytes : List UInt8} {frame : List Nat} (wide : 2 ≤ width)
    (narrow : width ≤ maxHashInputs) (links : Links hash (firstFrame width (chunks bytes))
      (laterFrames width (chunks bytes)) frame) : Hashes hash width bytes frame := by
  intro e
  rw [spongeHashBytes_eq_chain _ wide narrow]
  exact links e

/-- Two byte strings in the same number of frames: equal up to zeros at the end, they have one
digest, and otherwise only if different frames have one.  So there is no other way to one digest for
different byte strings of one length. -/
theorem equal_digest_of_frames {m m' : List UInt8} {d d' : Nat} (wide : 2 ≤ width)
    (narrow : width ≤ maxHashInputs)
    (sameCount : frameCount width m.length = frameCount width m'.length)
    (digest : spongeHashBytes hash m width = .ok d)
    (digest' : spongeHashBytes hash m' width = .ok d') :
    (EqualFilled m m' → d = d') ∧
      (¬ EqualFilled m m' → d = d' → FramesCollide hash width m m') ∧
      (m.length = m'.length → m ≠ m' → d = d' → FramesCollide hash width m m') := by
  rw [spongeHashBytes_eq_chain hash wide narrow] at digest digest'
  have length : (laterFrames width (chunks m)).length = (laterFrames width (chunks m')).length := by
    rw [← length_pieces_chunks wide, ← length_pieces_chunks wide] at sameCount
    rw [laterFrames, laterFrames, List.length_map, List.length_map]
    exact Nat.add_left_cancel sameCount
  have shown : firstFrame width (chunks m) = firstFrame width (chunks m') ∧
      laterFrames width (chunks m) = laterFrames width (chunks m') ↔ EqualFilled m m' := by
    rw [frames_eq_iff wide length, getD_chunks_iff, equalFilled_iff]
  have collide : ¬ EqualFilled m m' → d = d' → FramesCollide hash width m m' := by
    rintro differ rfl
    rcases chain_collision length digest digest' with same | ⟨f, f', apart, links, links', hashed⟩
    · exact absurd (shown.mp same) differ
    · exact ⟨f, f', apart, links.hashes wide narrow, links'.hashes wide narrow, hashed⟩
  refine ⟨fun filled => ?_, collide, fun sameLength differ => collide fun filled => differ ?_⟩
  · obtain ⟨first, later⟩ := shown.mpr filled
    rw [first, later, digest'] at digest
    exact (Except.ok.inj digest).symm
  · exact (eq_iff_getD sameLength).mpr ((equalFilled_iff m m').mp filled)

/-- The number that the folding hasher multiplies by, and one in the chunk before it. -/
def foldedBytes : List UInt8 := List.replicate 30 0 ++ [1] ++ List.replicate 31 0

def unfoldedBytes : List UInt8 := List.replicate 31 0 ++ List.replicate 28 0 ++ [15, 66, 67]

theorem folded_bytes_collide :
    foldedBytes ≠ unfoldedBytes ∧
      spongeHashBytes (foldHasher bn254Prime).hash foldedBytes 2 =
        spongeHashBytes (foldHasher bn254Prime).hash unfoldedBytes 2 ∧
      FramesCollide (foldHasher bn254Prime).hash 2 foldedBytes unfoldedBytes := by
  have digest : spongeHashBytes (foldHasher bn254Prime).hash foldedBytes 2 = .ok 2000020000050 := by
    rw [← Except.toOption_eq_some_iff]
    decide +kernel
  have digest' : spongeHashBytes (foldHasher bn254Prime).hash unfoldedBytes 2 =
      .ok 2000020000050 := by
    rw [← Except.toOption_eq_some_iff]
    decide +kernel
  have differ : foldedBytes ≠ unfoldedBytes := by decide +kernel
  have sameCount : frameCount 2 foldedBytes.length = frameCount 2 unfoldedBytes.length := rfl
  have wide : 2 ≤ 2 := Nat.le_refl 2
  have narrow : 2 ≤ maxHashInputs := by decide
  exact ⟨differ, digest.trans digest'.symm,
    (equal_digest_of_frames wide narrow sameCount digest digest').2.2 rfl differ rfl⟩

end Bytes

end LinkedCommit.Sponge
