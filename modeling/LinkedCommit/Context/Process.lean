import LinkedCommit.Context.Terms
/-!
# Processing contexts

A local context is an object, a reference to a document that has one, a list of contexts, or
null, which takes everything back but the base.  `Context.parse` applies one to an active
context.  References are followed at most 32 deep, so that documents that refer to each other
in a circle are refused.
-/

set_option autoImplicit false

namespace LinkedCommit

namespace Context

abbrev Follow := Context → String → Except DocumentError Context

/-- The members of a context object together with those of the context that it imports, its own
ones going before. -/
def withImport (loader : Loader) (ctx : Context) (members : Json.Members) :
    Except DocumentError Json.Members :=
  match NameMap.get? members "@import" with
  | none => .ok members
  | some (.string reference) => do
    let url := ctx.resolveReference reference
    let document ← (loader url).mapError .loader
    match document.json.member? "@context" with
    | some (.object imported) =>
      return members.foldl
        (fun all (key, value) => if key = "@import" then all else NameMap.insert all key value)
        imported
    | _ => throw (.context (.importNotObject url))
  | some _ => .error (.context .importNotString)

def applyBase (ctx : Context) (members : Json.Members) : Except ContextError Context :=
  match NameMap.get? members "@base" with
  | none => .ok ctx
  | some .null => .ok { ctx with base := none }
  | some (.string b) => .ok { ctx with base := some (ctx.resolveReference b) }
  | some _ => .error .baseNotString

def applyVocab (ctx : Context) (members : Json.Members) : Except ContextError Context :=
  match NameMap.get? members "@vocab" with
  | none => .ok ctx
  | some .null => .ok { ctx with vocab := none }
  | some (.string v) => .ok { ctx with vocab := some ((ctx.expand? v true).getD v) }
  | some _ => .error .vocabNotString

def applyLanguage (ctx : Context) (members : Json.Members) : Context :=
  match NameMap.get? members "@language" with
  | none => ctx
  | some value => { ctx with language := value.string?.map Text.lower }

def applyObject (loader : Loader) (ctx : Context) (members : Json.Members) :
    Except DocumentError Context := do
  let members ← withImport loader ctx members
  let result : Except ContextError Context := do
    let ctx ← applyBase ctx members
    let ctx := applyLanguage (← applyVocab ctx members) members
    return { ctx with terms := ← Terms.defineAll members ctx.vocab ctx.terms }
  result.mapError .context

mutual

/-- Applies a local context; `follow` answers references. -/
def applyLocal (loader : Loader) (follow : Follow) (ctx : Context) :
    Json → Except DocumentError Context
  | .array items => applyItems loader follow ctx items
  | .null => .ok { empty with base := ctx.base }
  | .string reference => follow ctx reference
  | .object members => applyObject loader ctx members
  | other => .error (.context (.notAContext other.text))

def applyItems (loader : Loader) (follow : Follow) (ctx : Context) :
    List Json → Except DocumentError Context
  | [] => .ok ctx
  | item :: rest => do
    let ctx ← applyLocal loader follow ctx item
    applyItems loader follow ctx rest

end

def loadContext (loader : Loader) (url : String) : Except DocumentError Json := do
  let document ← (loader url).mapError .loader
  match document.json.member? "@context" with
  | some inner => return inner
  | none => throw (.context (.remoteWithoutContext url))

/-- Applies a local context while a number of references may be followed inside each other, one
more than the number less one. -/
def process (loader : Loader) : Nat → Context → Json → Except DocumentError Context
  | 0, _, _ => .error (.context .tooDeep)
  | depth + 1, ctx, json =>
    applyLocal loader
      (fun ctx reference => do
        let inner ← loadContext loader (ctx.resolveReference reference)
        process loader depth ctx inner)
      ctx json

def parse (loader : Loader) (ctx : Context) (json : Json) : Except DocumentError Context :=
  process loader (maxContextDepth + 1) ctx json

def applyEmbedded (loader : Loader) (ctx : Context) (node : Json.Members) :
    Except DocumentError Context :=
  match NameMap.get? node "@context" with
  | some json => ctx.parse loader json
  | none => .ok ctx

def typeScoped (loader : Loader) (ctx : Context) (node : Json.Members) :
    Except DocumentError Context :=
  (ctx.nodeTypes node).foldlM
    (fun current type =>
      match (ctx.term? type).bind TermDefinition.scopedContext with
      | some json => current.parse loader json
      | none => .ok current)
    ctx

end Context

end LinkedCommit
