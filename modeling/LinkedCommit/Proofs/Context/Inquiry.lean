import LinkedCommit.Context.Process
import LinkedCommit.Proofs.Context.Caching
/-!
# Computations that ask for documents

Put to a cache in place of the loader behind it, an inquiry ends alike (`Inquiry.through_eq`).  A
function of a loader consults the loader if some inquiry computes it (`Consults`): it learns of the
loader by questions alone.  Processing a context does so (`Context.consults_parse`).
-/

set_option autoImplicit false

namespace LinkedCommit

namespace Inquiry

variable {α : Type}

/-- The inquiry of a cache that is asked in the place of the loader, the `n`-th question at a given
time. -/
def through : Inquiry α → Cache → (Nat → Nat) → Inquiry (α × Cache)
  | .done a, c, _ => .done (a, c)
  | .ask url next, c, now =>
    (c.load (now 0) url).bind fun outcome =>
      (next outcome.result).through outcome.cache fun n => now (n + 1)

theorem through_eq {inner : Loader} (t : Inquiry α) {c : Cache} (holds : c.Holds inner)
    (now : Nat → Nat) :
    ((t.through c now).answer inner).1 = t.answer inner ∧
      ((t.through c now).answer inner).2.Holds inner := by
  induction t generalizing c now with
  | done a => exact ⟨rfl, holds⟩
  | ask url next ih =>
      have result := Cache.load_result holds (now 0) url
      rw [through, answer, answer_bind, result]
      exact ih (inner url) (holds.load (now 0) url) _

end Inquiry

/-- An inquiry computes a function of a loader. -/
def Inquiry.Computes {α : Type} (t : Inquiry α) (f : Loader → α) : Prop :=
  ∀ loader, t.answer loader = f loader

def Consults {α : Type} (f : Loader → α) : Prop := ∃ t : Inquiry α, t.Computes f

namespace Consults

variable {α β ε ε' : Type}

theorem const (a : α) : Consults fun _ => a := ⟨.done a, fun _ => rfl⟩

theorem load (url : String) : Consults fun loader => loader url := ⟨.ask url .done, fun _ => rfl⟩

theorem andThen {f : Loader → α} (first : Consults f) {g : Loader → α → β}
    (next : ∀ a, Consults fun loader => g loader a) :
    Consults fun loader => g loader (f loader) := by
  obtain ⟨t, computes⟩ := first
  choose u computes' using next
  refine ⟨t.bind u, fun loader => ?_⟩
  rw [Inquiry.answer_bind, computes, computes']

theorem map {f : Loader → α} (consults : Consults f) (g : α → β) :
    Consults fun loader => g (f loader) :=
  consults.andThen fun a => const (g a)

theorem bind {f : Loader → Except ε α} (first : Consults f) {g : Loader → α → Except ε β}
    (next : ∀ a, Consults fun loader => g loader a) :
    Consults fun loader => f loader >>= g loader := by
  refine first.andThen (g := fun loader result => result >>= g loader) fun result => ?_
  cases result with
  | error e => exact const (Except.error e)
  | ok a => exact next a

theorem mapError {f : Loader → Except ε α} (consults : Consults f) (g : ε → ε') :
    Consults fun loader => (f loader).mapError g :=
  consults.map (Except.mapError g)

theorem foldlM {f : Loader → β → α → Except ε β} (each : ∀ b a, Consults fun loader => f loader b a)
    (xs : List α) (b : β) : Consults fun loader => xs.foldlM (f loader) b := by
  induction xs generalizing b with
  | nil => exact const (Except.ok b)
  | cons a rest ih =>
      simp only [List.foldlM_cons]
      exact (each b a).bind ih

end Consults

/-- A function of a loader is computed by an inquiry, and however an inquiry computes it, it ends
alike where a cache is asked. -/
def Cache.Serves {α : Type} (inner : Loader) (c : Cache) (f : Loader → α) : Prop :=
  Consults f ∧ ∀ (t : Inquiry α) (now : Nat → Nat), t.Computes f →
    ((t.through c now).answer inner).1 = f inner

theorem Consults.served {α : Type} {inner : Loader} {c : Cache} {f : Loader → α}
    (consults : Consults f) (holds : c.Holds inner) : c.Serves inner f := by
  refine ⟨consults, fun t now computes => ?_⟩
  rw [(t.through_eq holds now).1, computes inner]

namespace Context

theorem consults_withImport (ctx : Context) (members : Json.Members) :
    Consults fun loader => withImport loader ctx members := by
  unfold withImport
  cases NameMap.get? members "@import" with
  | none => exact .const _
  | some value =>
      cases value with
      | string reference =>
          exact ((Consults.load _).mapError _).bind fun document => .const _
      | null | bool _ | number _ | array _ | object _ => exact .const _

theorem consults_applyObject (ctx : Context) (members : Json.Members) :
    Consults fun loader => applyObject loader ctx members :=
  (consults_withImport ctx members).bind fun _ => .const _

theorem consults_loadContext (url : String) : Consults fun loader => loadContext loader url :=
  ((Consults.load url).mapError _).bind fun _ => .const _

theorem consults_applyLocal {follow : Loader → Follow}
    (consults : ∀ ctx reference, Consults fun loader => follow loader ctx reference) (json : Json) :
    ∀ ctx, Consults fun loader => applyLocal loader (follow loader) ctx json := by
  induction json using Json.inductionOn with
  | null | bool _ | number _ =>
      intro ctx
      simp only [applyLocal]
      exact .const _
  | string reference =>
      intro ctx
      simp only [applyLocal]
      exact consults ctx reference
  | object members =>
      intro ctx
      simp only [applyLocal]
      exact consults_applyObject ctx members
  | array items each =>
      have all : ∀ ctx, Consults fun loader => applyItems loader (follow loader) ctx items := by
        induction items with
        | nil =>
            intro ctx
            simp only [applyItems]
            exact .const _
        | cons item rest ih =>
            intro ctx
            simp only [applyItems]
            exact (each item List.mem_cons_self ctx).bind
              (ih fun other member => each other (List.mem_cons_of_mem _ member))
      intro ctx
      simp only [applyLocal]
      exact all ctx

theorem consults_process (depth : Nat) (ctx : Context) (json : Json) :
    Consults fun loader => process loader depth ctx json := by
  induction depth generalizing ctx json with
  | zero => exact .const _
  | succ depth ih =>
      simp only [process]
      refine consults_applyLocal (fun ctx reference => ?_) json ctx
      exact (consults_loadContext _).bind fun inner => ih ctx inner

theorem consults_parse (ctx : Context) (json : Json) :
    Consults fun loader => ctx.parse loader json :=
  consults_process _ ctx json

theorem consults_applyEmbedded (ctx : Context) (node : Json.Members) :
    Consults fun loader => ctx.applyEmbedded loader node := by
  unfold applyEmbedded
  cases NameMap.get? node "@context" with
  | none => exact .const _
  | some json => exact consults_parse ctx json

theorem consults_typeScoped (ctx : Context) (node : Json.Members) :
    Consults fun loader => ctx.typeScoped loader node := by
  refine Consults.foldlM (fun current type => ?_) _ ctx
  cases (ctx.term? type).bind TermDefinition.scopedContext with
  | none => exact .const _
  | some json => exact consults_parse current json

end Context

end LinkedCommit
