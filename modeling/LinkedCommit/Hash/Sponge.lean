import LinkedCommit.Hash.Hasher
/-!
# The byte sponge

A byte string of any length is hashed by a hash of short lists.  The bytes are cut into chunks
of 31, the last one filled with zero bytes, and each chunk is a number.  Chunks fill a frame of
fixed width; a full frame is hashed and its digest is the first slot of the next one.  At the
end a frame that holds chunks is filled with zeros and hashed; the empty string is the frame
of zeros.
-/

set_option autoImplicit false

namespace LinkedCommit

namespace Sponge

/-- The bytes of a chunk: one less than the bytes of a field element, so that every chunk is
below the prime. -/
def chunkSize : Nat := 31

def frameWidth : Nat := 16

/-- The number of a chunk, zero bytes standing after a short one. -/
def chunkValue (chunk : List UInt8) : Nat :=
  natOfBytes (chunk ++ List.replicate (chunkSize - chunk.length) 0)

def chunks (bytes : List UInt8) : List Nat :=
  if bytes.isEmpty then []
  else chunkValue (bytes.take chunkSize) :: chunks (bytes.drop chunkSize)
termination_by bytes.length
decreasing_by
  rename_i h
  cases bytes with
  | nil => simp at h
  | cons b bs => simp only [chunkSize, List.length_drop, List.length_cons]; omega

/-- A frame being filled: the slot of the next chunk, whether there are chunks that are not hashed,
and the digest of the last full frame. -/
structure State where
  frame : List Nat
  index : Nat
  dirty : Bool
  digest : Option Nat
deriving DecidableEq

def State.initial (width : Nat) : State := ⟨List.replicate width 0, 0, false, none⟩

/-- Puts one more chunk into its slot, and hashes the frame if that is the last one. -/
def State.absorb (hash : List Nat → Except HashError Nat) (width : Nat) (s : State)
    (chunk : Nat) : Except HashError State :=
  let frame := s.frame.set s.index chunk
  if s.index = width - 1 then
    (hash frame).map fun h => ⟨(List.replicate width 0).set 0 h, 1, false, some h⟩
  else .ok ⟨frame, s.index + 1, true, s.digest⟩

def State.finish (hash : List Nat → Except HashError Nat) (s : State) : Except HashError Nat :=
  match s.digest, s.dirty with
  | some h, false => .ok h
  | _, _ => hash s.frame

end Sponge

/-- The digest of a byte string in frames of a width from 2 to 16. -/
def spongeHashBytes (hash : List Nat → Except HashError Nat) (bytes : List UInt8)
    (width : Nat) : Except HashError Nat :=
  if 2 ≤ width ∧ width ≤ maxHashInputs then do
    let s ← (Sponge.chunks bytes).foldlM (Sponge.State.absorb hash width) (.initial width)
    s.finish hash
  else .error (.inputCount width maxHashInputs)

end LinkedCommit
