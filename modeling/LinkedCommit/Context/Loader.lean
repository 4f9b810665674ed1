import LinkedCommit.Context.Error
import LinkedCommit.Json.Basic
import LinkedCommit.Url.Parser
/-!
# Loading documents

A loader answers the document at a URL.  `Loader.ofDocuments` holds its documents.  `resolveRemote`
says which address a document is fetched from: web addresses as they are, content addresses through
a gateway.

An inquiry asks a loader for documents, one after the other.  `Cache.load` is one: a cache answers
what it keeps, for good or for a time, and asks for the rest.
-/

set_option autoImplicit false

namespace LinkedCommit

structure RemoteDocument where
  /-- The address that the document was served from. -/
  url : String
  json : Json

abbrev Loader := String → Except LoaderError RemoteDocument

namespace Loader

def none : Loader := fun url => .error (.notFound url)

def ofDocuments (documents : NameMap Json) : Loader := fun url =>
  match NameMap.get? documents url with
  | some json => .ok ⟨url, json⟩
  | .none => .error (.notFound url)

end Loader

def dropRepeated (start : List Char) : Nat → List Char → List Char
  | 0, cs => cs
  | fuel + 1, cs =>
    if !start.isEmpty && start.isPrefixOf cs then dropRepeated start fuel (cs.drop start.length)
    else cs

def resolveRemote (gateway : Option Url) (url : String) : Except LoaderError String :=
  match Url.parse? url with
  | none => .error (.invalidUrl url)
  | some parsed =>
    match String.ofList parsed.scheme with
    | "http" | "https" => .ok url
    | "ipfs" =>
      match gateway with
      | none => .error (.noGateway url)
      | some g =>
        let host := (g.text.toList.reverse.dropWhile (· = '/')).reverse
        let content := dropRepeated "ipfs://".toList url.length url.toList
        .ok (String.ofList (host ++ "/ipfs/".toList ++ content))
    | _ => .error (.unsupportedScheme url)

def Loader.remote (gateway : Option Url) : Loader := fun url =>
  (resolveRemote gateway url).bind fun target => .error (.unreachable target)

/-- A computation that asks for documents, each question depending on the answers before. -/
inductive Inquiry (α : Type) where
  | done (a : α)
  | ask (url : String) (next : Except LoaderError RemoteDocument → Inquiry α)

namespace Inquiry

variable {α β : Type}

def answer (loader : Loader) : Inquiry α → α
  | .done a => a
  | .ask url next => (next (loader url)).answer loader

def asked (loader : Loader) : Inquiry α → List String
  | .done _ => []
  | .ask url next => url :: (next (loader url)).asked loader

def bind : Inquiry α → (α → Inquiry β) → Inquiry β
  | .done a, f => f a
  | .ask url next, f => .ask url fun result => (next result).bind f

theorem answer_bind (loader : Loader) (t : Inquiry α) (f : α → Inquiry β) :
    (t.bind f).answer loader = (f (t.answer loader)).answer loader := by
  induction t with
  | done a => rfl
  | ask url next ih => exact ih (loader url)

theorem asked_bind (loader : Loader) (t : Inquiry α) (f : α → Inquiry β) :
    (t.bind f).asked loader = t.asked loader ++ (f (t.answer loader)).asked loader := by
  induction t with
  | done a => rfl
  | ask url next ih =>
      rw [bind, asked, asked, answer, ih, List.cons_append]

end Inquiry

structure Cache where
  /-- How long a document is answered from the cache; forever if there is no limit. -/
  lifetime : Option Nat
  stored : NameMap (Nat × RemoteDocument)

namespace Cache

def empty (lifetime : Option Nat) : Cache := ⟨lifetime, []⟩

def clear (c : Cache) : Cache := { c with stored := [] }

def size (c : Cache) : Nat := c.stored.length

def fresh? (c : Cache) (now : Nat) (url : String) : Option RemoteDocument :=
  match NameMap.get? c.stored url with
  | some (since, document) =>
    if (c.lifetime.map fun limit => decide (now - since < limit)).getD true then some document
    else none
  | none => none

structure Outcome where
  result : Except LoaderError RemoteDocument
  cache : Cache

/-- Loads a document through the cache; failures are not kept. -/
def load (c : Cache) (now : Nat) (url : String) : Inquiry Outcome :=
  match c.fresh? now url with
  | some document => .done ⟨.ok document, c⟩
  | none =>
    .ask url fun result =>
      match result with
      | .ok document =>
        .done ⟨.ok document, { c with stored := NameMap.insert c.stored url (now, document) }⟩
      | .error e => .done ⟨.error e, c⟩

end Cache

end LinkedCommit
