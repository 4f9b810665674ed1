import LinkedCommit.Text.Quoted
import LinkedCommit.Hash.Hasher
/-!
# Why a value cannot be read or committed
-/

set_option autoImplicit false

namespace LinkedCommit

inductive ValueError where
  | aboveMaximum (value : Int)
  | belowMinimum (value : Int)
  | tooBig (value : Int)
  | tooSmall (value : Int)
  | invalidBoolean (text : String)
  | invalidInteger (text : String)
  | invalidDateTime (text : String)
  | invalidDouble (text : String)
  | notRepresentable (value target : String)
  | unsupportedType (name : String)
deriving DecidableEq, Repr

def ValueError.message : ValueError → String
  | .aboveMaximum v => s!"integer exceeds maximum value: {v}"
  | .belowMinimum v => s!"integer is below minimum value: {v}"
  | .tooBig v => s!"value is too big: {v}"
  | .tooSmall v => s!"value is too small: {v}"
  | .invalidBoolean t => "incorrect boolean value: " ++ Text.quoted t
  | .invalidInteger t => "invalid integer value: " ++ Text.quoted t
  | .invalidDateTime t => "invalid dateTime value " ++ Text.quoted t
  | .invalidDouble t => "invalid double value: " ++ Text.quoted t
  | .notRepresentable value target => s!"{value} is not exactly representable as {target}"
  | .unsupportedType name => s!"unsupported value type: {name}"

inductive PathError where
  | empty
  | invalidSegment (found : String)
  | unknownTerm (term : String)
deriving DecidableEq, Repr

def PathError.message : PathError → String
  | .empty => "path is empty"
  | .invalidSegment found => s!"invalid path segment: {found}"
  | .unknownTerm term => s!"no @id attribute for term: {term}"

inductive EncodingError where
  | value (cause : ValueError)
  | hash (cause : HashError)
  | path (cause : PathError)
deriving DecidableEq, Repr

def EncodingError.message : EncodingError → String
  | .value cause => "value error: " ++ cause.message
  | .hash cause => "hash error: " ++ cause.message
  | .path cause => "path error: " ++ cause.message

end LinkedCommit
