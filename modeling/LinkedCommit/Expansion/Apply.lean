import LinkedCommit.Expansion.Define
/-!
# Applying local contexts

A local context changes the active one: it sets the base, the vocabulary and the default
language, and defines terms.  Null takes everything back.  Where the change does not propagate,
the context before it is kept, to be returned to in the nodes below.
-/

set_option autoImplicit false

namespace LinkedCommit.Expansion

namespace Active

def setBase (a : Active) : Slot String → Except LocalContextFault Active
  | .absent => .ok a
  | .null => .ok { a with base := none }
  | .value b =>
    if Iri.isAbsolute b then .ok { a with base := some b }
    else
      match a.base with
      | some base => .ok { a with base := some (Iri.resolve base b) }
      | none => .error .base

def setVocab (a : Active) : Slot String → Except LocalContextFault Active
  | .absent => .ok a
  | .null => .ok { a with vocab := none }
  | .value v =>
    match a.sense v true true with
    | .nothing | .keyword _ => .error .vocab
    | found => .ok { a with vocab := some found }

def setLanguage (a : Active) : Slot String → Active
  | .absent => a
  | slot => { a with language := slot.value? }

def setDirection (a : Active) : Slot String → Active
  | .absent => a
  | slot => { a with direction := slot.value? }

def applyObject (nested : Active → Json → Except LocalContextFault Active) (mode : Mode)
    (a : Active) (o : ContextObject) : Except LocalContextFault Active := do
  let a ← a.setBase o.base
  let a ← a.setVocab o.vocab
  Define.defineAll ⟨o, mode, nested⟩ ((a.setLanguage o.language).setDirection o.direction)

def applyOne (nested : Active → Json → Except LocalContextFault Active) (mode : Mode)
    (a : Active) : LocalContext → Except LocalContextFault Active
  | .clear =>
    if !mode.overrides && a.hasProtected then .error .nullification
    else .ok { initial a.origin with previous := if mode.propagates then none else some a }
  | .reference target => .error (.reference target)
  | .object o => applyObject nested mode a o

/-- Whether a context propagates: a context object that is not in a list may say so. -/
def propagates (json : Json) (default : Bool) : Bool :=
  match json.member? "@propagate" with
  | some (.bool b) => b
  | _ => default

/-- Applies the contexts of a value; the number bounds how deep contexts are nested in it. -/
def applyWithin : Nat → Mode → Active → Json → Except LocalContextFault Active
  | 0, _, _, _ => .error .nesting
  | depth + 1, mode, a, json => do
    let contexts ← LocalContext.readShallow json
    let mode := { mode with propagates := propagates json mode.propagates }
    let start := if mode.propagates || a.previous.isSome then a else { a with previous := some a }
    let nested := fun a json => applyWithin depth { mode with overrides := true } a json
    contexts.foldlM (applyOne nested mode) start

def apply (a : Active) (mode : Mode) (json : Json) : Except ExpansionError Active :=
  let result : Except LocalContextFault Active := do
    LocalContext.check (json.height + 1) json
    applyWithin (json.height + 1) mode a json
  result.mapError .context

end Active

end LinkedCommit.Expansion
