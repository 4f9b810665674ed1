import LinkedCommit.Context.Process
/-!
# Self-contained documents

A document is made self-contained by putting the contexts that it refers to in the place of the
references: everywhere under `@context`, in imported contexts, and in the contexts of terms.
References and the contexts of terms are followed at most 32 deep.
-/

set_option autoImplicit false

namespace LinkedCommit

namespace Inline

abbrev Nested := Json → Except DocumentError Json

def withImport (loader : Loader) (members : Json.Members) : Except DocumentError Json.Members := do
  let imported ← match NameMap.get? members "@import" with
    | none => pure []
    | some (.string url) => do
      let document ← (loader url).mapError .loader
      match document.json.member? "@context" with
      | some (.object imported) => pure imported
      | _ => throw (.context (.importNotObject url))
    | some _ => throw (.context .importNotString)
  return members.foldl
    (fun all (key, value) => if key = "@import" then all else NameMap.insert all key value)
    imported

def definition (nested : Nested) : Json → Except DocumentError Json
  | .object d =>
    match NameMap.get? d "@context" with
    | some json => do return .object (NameMap.insert d "@context" (← nested json))
    | none => .ok (.object d)
  | other => .ok other

def definitions (nested : Nested) :
    List (String × Json) → Except DocumentError (List (String × Json))
  | [] => .ok []
  | (key, value) :: rest => do
    let value ← definition nested value
    let rest ← definitions nested rest
    return (key, value) :: rest

mutual

/-- A context made self-contained; `nested` does so for references and the contexts of terms. -/
def contextWith (loader : Loader) (nested : Nested) : Json → Except DocumentError Json
  | .string url => do
    let inner ← Context.loadContext loader url
    nested inner
  | .array items => do return .array (← itemsWith loader nested items)
  | .object members => do
    return .object (← definitions nested (← withImport loader members))
  | other => .ok other

def itemsWith (loader : Loader) (nested : Nested) : List Json → Except DocumentError (List Json)
  | [] => .ok []
  | item :: rest => do
    let first ← contextWith loader nested item
    let others ← itemsWith loader nested rest
    match first with
    | .array inner => return inner ++ others
    | one => return one :: others

end

/-- A context made self-contained while a number of references and contexts of terms may be
followed inside each other, one less than the number. -/
def context (loader : Loader) : Nat → Json → Except DocumentError Json
  | 0, _ => .error (.context .tooDeep)
  | depth + 1, json => contextWith loader (context loader depth) json

mutual

def document (loader : Loader) : Json → Except DocumentError Json
  | .object m => do return .object (← members loader m)
  | .array list => do return .array (← items loader list)
  | other => .ok other

def members (loader : Loader) :
    List (String × Json) → Except DocumentError (List (String × Json))
  | [] => .ok []
  | (key, value) :: rest => do
    let value ←
      if key = "@context" then context loader (maxContextDepth + 1) value
      else document loader value
    let rest ← members loader rest
    return (key, value) :: rest

def items (loader : Loader) : List Json → Except DocumentError (List Json)
  | [] => .ok []
  | item :: rest => do
    let first ← document loader item
    let others ← items loader rest
    return first :: others

end

end Inline

/-- A document with the contexts that it refers to put in the place of the references. -/
def inlineContexts (loader : Loader) (document : Json) : Except DocumentError Json :=
  Inline.document loader document

end LinkedCommit
