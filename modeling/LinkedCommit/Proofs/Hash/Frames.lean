import LinkedCommit.Proofs.Hash.Bytes
import LinkedCommit.Proofs.Hash.Field
/-!
# The frames of a byte string

The sponge takes the chunks of a byte string one at a time, and decides at each whether a frame is
full.  `hashFrames` says beforehand which chunks belong together: as many as the frame is wide
first, and then one less each time, after the digest of the frame before.  Both give one digest
(`digest_eq_hashFrames`): with the slots before the next one holding chunks and those from there on
zeros, a frame is what `padFrame` makes of them (`State.holding`).  The next chunk has always a slot
in the frame (`State.Inside.absorbAll`).

A hasher that accepts field elements has a digest for every byte string (`exists_digest`).
-/

set_option autoImplicit false

namespace LinkedCommit.Sponge

/-! ## Pieces of a list -/

section Pieces

variable {α : Type}

/-- A list cut into pieces of a size, the last of which may be shorter. -/
def pieces (size : Nat) (xs : List α) : List (List α) :=
  if size = 0 ∨ xs.isEmpty then [] else xs.take size :: pieces size (xs.drop size)
termination_by xs.length
decreasing_by
  rename_i more
  rw [not_or, List.isEmpty_iff, ← List.length_eq_zero_iff] at more
  rw [List.length_drop]
  omega

theorem eq_nil_of_uncut {size : Nat} (positive : 0 < size) {xs : List α}
    (uncut : size = 0 ∨ xs.isEmpty = true) : xs = [] :=
  List.isEmpty_iff.mp (uncut.resolve_left (Nat.pos_iff_ne_zero.mp positive))

@[simp] theorem pieces_nil (size : Nat) : pieces size ([] : List α) = [] := by
  rw [pieces]
  simp

theorem pieces_of_ne_nil {size : Nat} (positive : 0 < size) {xs : List α} (nonempty : xs ≠ []) :
    pieces size xs = xs.take size :: pieces size (xs.drop size) := by
  rw [pieces, if_neg]
  rw [not_or, List.isEmpty_iff]
  exact ⟨Nat.pos_iff_ne_zero.mp positive, nonempty⟩

theorem length_of_mem_pieces {size : Nat} {xs : List α} {piece : List α}
    (member : piece ∈ pieces size xs) : piece.length ≤ size := by
  fun_induction pieces size xs with
  | case1 => cases member
  | case2 xs more ih =>
      rcases List.mem_cons.mp member with rfl | later
      · exact List.length_take_le size xs
      · exact ih later

theorem mem_of_mem_pieces {size : Nat} {xs : List α} {piece : List α} {x : α}
    (member : piece ∈ pieces size xs) (inPiece : x ∈ piece) : x ∈ xs := by
  fun_induction pieces size xs with
  | case1 => cases member
  | case2 xs more ih =>
      rcases List.mem_cons.mp member with rfl | later
      · exact List.mem_of_mem_take inPiece
      · exact List.mem_of_mem_drop (ih later)

theorem length_pieces {size : Nat} (positive : 0 < size) (xs : List α) :
    (pieces size xs).length = (xs.length + (size - 1)) / size := by
  fun_induction pieces size xs with
  | case1 xs uncut =>
      rw [eq_nil_of_uncut positive uncut, List.length_nil, List.length_nil, Nat.div_eq_of_lt]
      omega
  | case2 xs more ih =>
      have nonempty : 0 < xs.length := by
        rw [not_or, List.isEmpty_iff] at more
        exact List.length_pos_iff.mpr more.2
      rw [List.length_cons, ih, List.length_drop, ← Nat.add_div_right _ positive]
      by_cases short : xs.length ≤ size
      · rw [Nat.sub_eq_zero_of_le short, Nat.zero_add]
        have once : (size - 1 + size) / size = 1 := Nat.div_eq_of_lt_le (by omega) (by omega)
        rw [once]
        exact (Nat.div_eq_of_lt_le (by omega) (by omega)).symm
      · congr 1
        omega

end Pieces

theorem chunks_eq (bytes : List UInt8) :
    chunks bytes = (pieces chunkSize bytes).map chunkValue := by
  fun_induction chunks bytes with
  | case1 bytes empty => rw [List.isEmpty_iff.mp empty, pieces_nil, List.map_nil]
  | case2 bytes more ih =>
      have nonempty : bytes ≠ [] := by rwa [ne_eq, ← List.isEmpty_iff]
      rw [pieces_of_ne_nil (by decide) nonempty, List.map_cons, ih]

theorem chunkValue_lt {chunk : List UInt8} (short : chunk.length ≤ chunkSize) :
    chunkValue chunk < 256 ^ chunkSize := by
  have bound := natOfBytes_lt (chunk ++ List.replicate (chunkSize - chunk.length) 0)
  rwa [List.length_append, List.length_replicate, Nat.add_sub_cancel' short] at bound

/-! ## Absorbing -/

def padFrame (width : Nat) (slots : List Nat) : List Nat :=
  slots ++ List.replicate (width - slots.length) 0

theorem padFrame_nil (width : Nat) : padFrame width [] = List.replicate width 0 := rfl

theorem padFrame_cons (width slot : Nat) (slots : List Nat) :
    padFrame width (slot :: slots) = slot :: padFrame (width - 1) slots := by
  rw [padFrame, padFrame, List.length_cons, List.cons_append]
  congr 3
  omega

theorem padFrame_of_length {width : Nat} {slots : List Nat} (full : slots.length = width) :
    padFrame width slots = slots := by
  rw [padFrame, full, Nat.sub_self, List.replicate_zero, List.append_nil]

theorem length_padFrame {width : Nat} {slots : List Nat} (fits : slots.length ≤ width) :
    (padFrame width slots).length = width := by
  rw [padFrame, List.length_append, List.length_replicate, Nat.add_sub_cancel' fits]

theorem padFrame_set {width : Nat} {slots : List Nat} (free : slots.length < width) (c : Nat) :
    (padFrame width slots).set slots.length c = padFrame width (slots ++ [c]) := by
  obtain ⟨rest, room⟩ : ∃ rest, width - slots.length = rest + 1 :=
    ⟨width - slots.length - 1, by omega⟩
  have left : width - (slots ++ [c]).length = rest := by
    rw [List.length_append, List.length_singleton]
    omega
  rw [padFrame, padFrame, room, left, List.set_append_right _ _ (Nat.le_refl _), Nat.sub_self,
    List.replicate_succ, List.set_cons_zero, List.append_assoc, List.singleton_append]

/-- The digest of numbers in frames: the first ones fill a frame, and as many as fit beside the
digest of the frame before fill each later one. -/
def hashFrames (hash : List Nat → Except HashError Nat) (width : Nat) (numbers : List Nat) :
    Except HashError Nat := do
  let first ← hash (padFrame width (numbers.take width))
  (pieces (width - 1) (numbers.drop width)).foldlM
    (fun digest piece => hash (padFrame width (digest :: piece))) first

namespace State

/-- The slots up to that of the next chunk hold `slots`, and those from there on zeros. -/
def holding (width : Nat) (slots : List Nat) (dirty : Bool) (digest : Option Nat) : State :=
  ⟨padFrame width slots, slots.length, dirty, digest⟩

theorem initial_eq (width : Nat) : initial width = holding width [] false none := by
  rw [initial, holding, padFrame_nil, List.length_nil]

def following (width h : Nat) : State := holding width [h] false (some h)

/-- The frame is as wide as it should be, and the next chunk has a slot in it. -/
structure Inside (width : Nat) (s : State) : Prop where
  length_frame : s.frame.length = width
  index_lt : s.index < width

end State

section Absorbing

open State

variable {hash : List Nat → Except HashError Nat} {width : Nat}

theorem State.Inside.initial (wide : 2 ≤ width) : (State.initial width).Inside width where
  length_frame := List.length_replicate
  index_lt := by
    show 0 < width
    omega

theorem State.Inside.absorb (wide : 2 ≤ width) {s s' : State} {chunk : Nat}
    (inside : s.Inside width) (absorbed : s.absorb hash width chunk = .ok s') :
    s'.Inside width := by
  rw [State.absorb] at absorbed
  split at absorbed
  · obtain ⟨h, -, rfl⟩ := Except.map_eq_ok_iff.mp absorbed
    exact ⟨by rw [List.length_set, List.length_replicate], wide⟩
  · rename_i more
    cases absorbed
    refine ⟨by rw [List.length_set, inside.length_frame], ?_⟩
    have free := inside.index_lt
    show s.index + 1 < width
    omega

theorem State.Inside.absorbAll (wide : 2 ≤ width) (cs : List Nat) {s s' : State}
    (inside : s.Inside width) (absorbed : cs.foldlM (State.absorb hash width) s = .ok s') :
    s'.Inside width := by
  induction cs generalizing s with
  | nil =>
      cases absorbed
      exact inside
  | cons c rest ih =>
      rw [List.foldlM_cons, Except.bind_eq_ok_iff] at absorbed
      obtain ⟨s₁, first, absorbed⟩ := absorbed
      exact ih (inside.absorb wide first) absorbed

theorem absorb_holding {slots : List Nat} (free : slots.length + 1 < width) (dirty : Bool)
    (digest : Option Nat) (c : Nat) :
    (holding width slots dirty digest).absorb hash width c =
      .ok (holding width (slots ++ [c]) true digest) := by
  have more : slots.length ≠ width - 1 := by omega
  rw [State.absorb, holding, if_neg more, padFrame_set (by omega), holding, List.length_append,
    List.length_singleton]

theorem absorb_last {slots : List Nat} (full : slots.length + 1 = width) (dirty : Bool)
    (digest : Option Nat) (c : Nat) :
    (holding width slots dirty digest).absorb hash width c =
      (hash (slots ++ [c])).map (following width) := by
  have last : slots.length = width - 1 := by omega
  have next : (fun h => (⟨(List.replicate width 0).set 0 h, 1, false, some h⟩ : State)) =
      following width := by
    funext h
    have empty : ([] : List Nat).length < width := by
      rw [List.length_nil]
      omega
    have started := padFrame_set empty h
    rw [padFrame_nil, List.length_nil] at started
    rw [started]
    rfl
  rw [State.absorb, holding, if_pos last, padFrame_set (by omega), padFrame_of_length, next]
  rw [List.length_append, List.length_singleton, full]

/-- Chunks are kept as long as they leave a slot free. -/
theorem absorb_short {slots cs : List Nat} (short : slots.length + cs.length < width)
    (dirty : Bool) (digest : Option Nat) :
    cs.foldlM (State.absorb hash width) (holding width slots dirty digest) =
      .ok (holding width (slots ++ cs) (dirty || !cs.isEmpty) digest) := by
  induction cs generalizing slots dirty with
  | nil =>
      rw [List.append_nil, List.isEmpty_nil, Bool.not_true, Bool.or_false]
      rfl
  | cons c rest ih =>
      rw [List.length_cons] at short
      rw [List.foldlM_cons, absorb_holding (by omega)]
      show rest.foldlM _ _ = _
      rw [ih, List.append_assoc, List.singleton_append, List.isEmpty_cons, Bool.not_false,
        Bool.true_or, Bool.or_true]
      rw [List.length_append, List.length_singleton]
      omega

/-- The chunk that takes the last slot has the frame hashed. -/
theorem absorb_full {slots cs : List Nat} (nonempty : cs ≠ [])
    (full : slots.length + cs.length = width) (dirty : Bool) (digest : Option Nat) :
    cs.foldlM (State.absorb hash width) (holding width slots dirty digest) =
      (hash (slots ++ cs)).map (following width) := by
  obtain ⟨before, last, rfl⟩ := List.eq_nil_or_concat' cs |>.resolve_left nonempty
  rw [List.length_append, List.length_singleton] at full
  rw [List.foldlM_append, absorb_short (by omega)]
  show [last].foldlM (State.absorb hash width) _ = _
  rw [List.foldlM_cons, absorb_last (by rw [List.length_append]; omega), List.append_assoc]
  cases hash (slots ++ (before ++ [last])) <;> rfl

theorem finish_holding (slots : List Nat) {dirty : Bool} {digest : Option Nat}
    (unfinished : dirty = true ∨ digest = none) :
    (holding width slots dirty digest).finish hash = hash (padFrame width slots) := by
  rcases unfinished with rfl | rfl
  · cases digest <;> rfl
  · rfl

def run (hash : List Nat → Except HashError Nat) (width : Nat) (s : State) (cs : List Nat) :
    Except HashError Nat :=
  cs.foldlM (State.absorb hash width) s >>= State.finish hash

/-- One frame: the chunks that fit into it, and then those after it. -/
theorem run_frame {slots : List Nat} {room : Nat} (positive : 0 < room)
    (fits : slots.length + room = width) {digest : Option Nat} {cs : List Nat}
    (unfinished : cs ≠ [] ∨ digest = none) :
    run hash width (holding width slots false digest) cs =
      hash (padFrame width (slots ++ cs.take room)) >>= fun h =>
        run hash width (following width h) (cs.drop room) := by
  -- chunks that leave a slot free are the last ones, and then the end hashes the frame
  by_cases short : cs.length < room
  · have dirty : (!cs.isEmpty) = true ∨ digest = none := by
      rwa [Bool.not_eq_true', List.isEmpty_eq_false_iff]
    rw [run, absorb_short (by omega), List.take_of_length_le (by omega),
      List.drop_eq_nil_of_le (by omega), Bool.false_or]
    show State.finish hash _ = hash _ >>= pure
    rw [bind_pure, finish_holding _ dirty]
  · have full : (cs.take room).length = room := by
      rw [List.length_take]
      omega
    have taken : cs.take room ≠ [] := by
      rw [← List.length_pos_iff]
      omega
    rw [padFrame_of_length (by rw [List.length_append, full, fits])]
    nth_rewrite 1 [← List.take_append_drop room cs]
    rw [run, List.foldlM_append, absorb_full taken (by rw [full, fits])]
    cases hash (slots ++ cs.take room) <;> rfl

/-- After a frame, its digest stands in the next one if there are chunks for it. -/
theorem run_following (wide : 2 ≤ width) (h : Nat) (cs : List Nat) :
    run hash width (following width h) cs = (pieces (width - 1) cs).foldlM
      (fun digest piece => hash (padFrame width (digest :: piece))) h := by
  fun_induction pieces (width - 1) cs generalizing h with
  | case1 cs uncut =>
      rw [eq_nil_of_uncut (by omega) uncut]
      rfl
  | case2 cs more ih =>
      have nonempty : cs ≠ [] := by
        rw [not_or, List.isEmpty_iff] at more
        exact more.2
      have fits : [h].length + (width - 1) = width := by
        rw [List.length_singleton]
        omega
      rw [List.foldlM_cons, following, run_frame (by omega) fits (.inl nonempty)]
      show hash (padFrame width (h :: cs.take (width - 1))) >>= _ = _
      cases hash (padFrame width (h :: cs.take (width - 1))) with
      | error e => rfl
      | ok d => exact ih d

theorem run_initial (wide : 2 ≤ width) (cs : List Nat) :
    run hash width (.initial width) cs = hashFrames hash width cs := by
  have fits : ([] : List Nat).length + width = width := Nat.zero_add width
  rw [initial_eq, run_frame (by omega) fits (.inr rfl), List.nil_append, hashFrames]
  cases hash (padFrame width (cs.take width)) with
  | error e => rfl
  | ok d => exact run_following wide d _

theorem spongeHashBytes_eq (wide : 2 ≤ width) (narrow : width ≤ maxHashInputs)
    (bytes : List UInt8) :
    spongeHashBytes hash bytes width = hashFrames hash width (chunks bytes) := by
  rw [spongeHashBytes, if_pos ⟨wide, narrow⟩]
  exact run_initial wide (chunks bytes)

end Absorbing

/-- The frames of a byte string: one for the first chunks, and one more for each further `width - 1`
chunks begun. -/
def frameCount (width length : Nat) : Nat :=
  1 + ((length + (chunkSize - 1)) / chunkSize - width + (width - 2)) / (width - 1)

theorem length_pieces_chunks {width : Nat} (wide : 2 ≤ width) (bytes : List UInt8) :
    1 + (pieces (width - 1) ((chunks bytes).drop width)).length =
      frameCount width bytes.length := by
  rw [length_pieces (by omega), List.length_drop, chunks_eq, List.length_map,
    length_pieces (by decide), Nat.sub_sub]
  rfl

/-! ## Digests in the field -/

section InField

variable {hash : List Nat → Except HashError Nat} {prime width : Nat}

theorem padFrame_inField (positive : 0 < prime) {slots : List Nat}
    (inField : ∀ x ∈ slots, x < prime) : ∀ x ∈ padFrame width slots, x < prime := by
  intro x member
  rcases List.mem_append.mp member with given | added
  · exact inField x given
  · rw [List.eq_of_mem_replicate added]
    exact positive

theorem chunks_lt (bytes : List UInt8) : ∀ x ∈ chunks bytes, x < 256 ^ chunkSize := by
  intro x member
  rw [chunks_eq] at member
  obtain ⟨chunk, inPieces, rfl⟩ := List.mem_map.mp member
  exact chunkValue_lt (length_of_mem_pieces inPieces)

theorem exists_hashFrames (positive : 0 < prime)
    (accepts : ∀ frame : List Nat, frame.length = width → (∀ x ∈ frame, x < prime) →
      ∃ d, hash frame = .ok d ∧ d < prime) (wide : 2 ≤ width) {numbers : List Nat}
    (inField : ∀ x ∈ numbers, x < prime) :
    ∃ d, hashFrames hash width numbers = .ok d ∧ d < prime := by
  have padded : ∀ slots : List Nat, slots.length ≤ width → (∀ x ∈ slots, x < prime) →
      ∃ d, hash (padFrame width slots) = .ok d ∧ d < prime := fun slots fits inField =>
    accepts _ (length_padFrame fits) (padFrame_inField positive inField)
  have later : ∀ (ps : List (List Nat)) (digest : Nat), digest < prime →
      (∀ p ∈ ps, p.length ≤ width - 1 ∧ ∀ x ∈ p, x < prime) →
      ∃ d, ps.foldlM (fun digest piece => hash (padFrame width (digest :: piece))) digest = .ok d ∧
        d < prime := by
    intro ps
    induction ps with
    | nil => exact fun digest small _ => ⟨digest, rfl, small⟩
    | cons p rest ih =>
        intro digest small all
        obtain ⟨fits, inPiece⟩ := all p List.mem_cons_self
        obtain ⟨d, hashed, small⟩ := padded (digest :: p) (by rw [List.length_cons]; omega)
          (List.forall_mem_cons.mpr ⟨small, inPiece⟩)
        rw [List.foldlM_cons, hashed]
        exact ih d small fun p member => all p (List.mem_cons_of_mem _ member)
  obtain ⟨first, hashed, small⟩ := padded (numbers.take width) (List.length_take_le _ _)
    fun x member => inField x (List.mem_of_mem_take member)
  rw [hashFrames, hashed]
  refine later _ first small fun p member => ⟨length_of_mem_pieces member, fun x inPiece => ?_⟩
  exact inField x (List.mem_of_mem_drop (mem_of_mem_pieces member inPiece))

/-- A hasher whose prime is above all chunks has a digest for every byte string. -/
theorem exists_digest {hasher : Hasher} (accepts : hasher.Accepts)
    (large : 256 ^ chunkSize ≤ hasher.prime) (wide : 2 ≤ width) (narrow : width ≤ maxHashInputs)
    (bytes : List UInt8) :
    ∃ d, spongeHashBytes hasher.hash bytes width = .ok d ∧ d < hasher.prime := by
  rw [spongeHashBytes_eq wide narrow]
  have positive : 0 < hasher.prime := Nat.lt_of_lt_of_le (by decide) large
  refine exists_hashFrames positive (fun frame full inField => ?_) wide
    fun x member => Nat.lt_of_lt_of_le (chunks_lt bytes x member) large
  have nonempty : frame ≠ [] := by
    rw [← List.length_pos_iff]
    omega
  exact accepts frame nonempty (full ▸ narrow) inField

end InField

/-- The digest of a byte string in frames of a width from 2 to 16 is that of its chunks in frames.
No frame is hashed but those that chunks are in, and the frame of zeros for no bytes; the next chunk
has always a slot in the frame.  And every byte string has a Poseidon digest, in the field. -/
theorem digest_eq_hashFrames (hash : List Nat → Except HashError Nat) (bytes : List UInt8)
    {width : Nat} (wide : 2 ≤ width) (narrow : width ≤ maxHashInputs) :
    spongeHashBytes hash bytes width =
        hashFrames hash width ((pieces chunkSize bytes).map chunkValue) ∧
      1 + (pieces (width - 1) (((pieces chunkSize bytes).map chunkValue).drop width)).length =
        frameCount width bytes.length ∧
      spongeHashBytes hash [] width = hash (List.replicate width 0) ∧
      (∀ (cs : List Nat) (s : State),
        cs.foldlM (State.absorb hash width) (.initial width) = .ok s →
          s.frame.length = width ∧ s.index < width) ∧
      ∀ message, ∃ d, poseidonHasher.hashBytes message = .ok d ∧ d < poseidonHasher.prime := by
  refine ⟨?_, ?_, ?_, fun cs s absorbed => ?_, fun message => ?_⟩
  · rw [spongeHashBytes_eq wide narrow, chunks_eq]
  · rw [← chunks_eq]
    exact length_pieces_chunks wide bytes
  · rw [spongeHashBytes_eq wide narrow, chunks_eq, pieces_nil, hashFrames, List.map_nil,
      List.take_nil, List.drop_nil, pieces_nil]
    show hash (padFrame width []) >>= pure = _
    rw [bind_pure, padFrame_nil]
  · have inside := (State.Inside.initial wide).absorbAll wide cs absorbed
    exact ⟨inside.length_frame, inside.index_lt⟩
  · show ∃ d, spongeHashBytes poseidonHasher.hash message frameWidth = .ok d ∧ _
    exact exists_digest poseidonHasher_checks.accepts (by decide) (by decide) (by decide) message

/-- Four chunks in frames of three slots: the last one stands beside the digest of the others. -/
theorem digest_of_four_chunks :
    spongeHashBytes (foldHasher bn254Prime).hash (List.replicate 100 1) 3 = (do
      let whole := chunkValue (List.replicate 31 1)
      let first ← (foldHasher bn254Prime).hash [whole, whole, whole]
      (foldHasher bn254Prime).hash [first, chunkValue (List.replicate 7 1), 0]) := by
  have wide : 2 ≤ 3 := by decide
  have narrow : 3 ≤ maxHashInputs := by decide
  rw [(digest_eq_hashFrames (foldHasher bn254Prime).hash (List.replicate 100 1) wide narrow).1]
  have cut : (pieces chunkSize (List.replicate 100 1) : List (List UInt8)) =
      [List.replicate 31 1, List.replicate 31 1, List.replicate 31 1, List.replicate 7 1] := by
    decide +kernel
  rw [cut]
  decide +kernel

end LinkedCommit.Sponge
