import LinkedCommit.Context.Loader
import LinkedCommit.Proofs.FirstMet
/-!
# Loading through a cache

A cache holds answers of the loader that it stands before (`Cache.Holds`), and so answers as that
loader does (`Cache.load_result`).  A session is a sequence of loads and clearings.  Without a limit
of time a cache asks for each document once in each period between clearings, and for what is not
there every time (`asked_perm`); with a limit of zero it asks every time (`asked_of_limit`).  In
both cases it holds what was loaded since it was cleared last (`Follows.size_eq`).
-/

set_option autoImplicit false

namespace LinkedCommit

namespace Cache

variable {inner : Loader} {c : Cache}

def Holds (inner : Loader) (c : Cache) : Prop :=
  ∀ url since document, NameMap.get? c.stored url = some (since, document) →
    inner url = .ok document

theorem holds_empty (inner : Loader) (lifetime : Option Nat) : (empty lifetime).Holds inner :=
  fun _ _ _ found => nomatch found

theorem holds_clear (inner : Loader) (c : Cache) : c.clear.Holds inner :=
  fun _ _ _ found => nomatch found

/-- A load is answered from the cache, or by the loader: then a document is kept and a failure is
not. -/
theorem load_cases (inner : Loader) (c : Cache) (now : Nat) (url : String) :
    (∃ since document, NameMap.get? c.stored url = some (since, document) ∧
        c.fresh? now url = some document ∧ c.load now url = .done ⟨.ok document, c⟩) ∨
      c.fresh? now url = none ∧ (c.load now url).asked inner = [url] ∧
        ((∃ document, inner url = .ok document ∧ (c.load now url).answer inner =
            ⟨.ok document, { c with stored := NameMap.insert c.stored url (now, document) }⟩) ∨
          ∃ e, inner url = .error e ∧ (c.load now url).answer inner = ⟨.error e, c⟩) := by
  cases found : c.fresh? now url with
  | some document =>
      refine Or.inl ?_
      have stored := found
      rw [fresh?] at stored
      split at stored
      · rename_i since kept inCache
        split at stored
        · cases stored
          exact ⟨since, document, inCache, rfl, by rw [load, found]⟩
        · cases stored
      · cases stored
  | none =>
      refine Or.inr ⟨rfl, ?_⟩
      rw [load, found]
      cases answer : inner url with
      | ok document =>
          refine ⟨?_, Or.inl ⟨document, rfl, ?_⟩⟩
          · simp only [Inquiry.asked, answer]
          · simp only [Inquiry.answer, answer]
      | error e =>
          refine ⟨?_, Or.inr ⟨e, rfl, ?_⟩⟩
          · simp only [Inquiry.asked, answer]
          · simp only [Inquiry.answer, answer]

theorem load_result (holds : c.Holds inner) (now : Nat) (url : String) :
    ((c.load now url).answer inner).result = inner url := by
  rcases load_cases inner c now url with ⟨since, document, inCache, -, loaded⟩ |
    ⟨-, -, ⟨document, answer, loaded⟩ | ⟨e, answer, loaded⟩⟩
  · rw [loaded, holds url since document inCache]
    rfl
  · rw [loaded, answer]
  · rw [loaded, answer]

theorem Holds.load (holds : c.Holds inner) (now : Nat) (url : String) :
    ((c.load now url).answer inner).cache.Holds inner := by
  rcases load_cases inner c now url with ⟨_, _, -, -, loaded⟩ |
    ⟨-, -, ⟨document, answer, loaded⟩ | ⟨_, -, loaded⟩⟩
  · rwa [loaded]
  · rw [loaded]
    intro other since kept found
    by_cases same : other = url
    · subst same
      rw [NameMap.get?_insert_self] at found
      cases found
      exact answer
    · rw [NameMap.get?_insert_of_ne _ _ same] at found
      exact holds other since kept found
  · rwa [loaded]

/-! ## Sessions -/

inductive Call where
  | load (now : Nat) (url : String)
  | clear

def Call.url? : Call → Option String
  | .load _ url => some url
  | .clear => none

/-- The state of a cache and what came of the loads so far. -/
structure Session where
  cache : Cache
  answers : List (String × Except LoaderError RemoteDocument)

namespace Session

def start (lifetime : Option Nat) : Session := ⟨empty lifetime, []⟩

def call (s : Session) : Call → Inquiry Session
  | .load now url =>
    (s.cache.load now url).bind fun outcome =>
      .done ⟨outcome.cache, s.answers ++ [(url, outcome.result)]⟩
  | .clear => .done { s with cache := s.cache.clear }

def inquiry (lifetime : Option Nat) (calls : List Call) : Inquiry Session :=
  calls.foldl (fun t next => t.bind fun s => s.call next) (.done (start lifetime))

def run (inner : Loader) (lifetime : Option Nat) (calls : List Call) : Session :=
  (inquiry lifetime calls).answer inner

def asked (inner : Loader) (lifetime : Option Nat) (calls : List Call) : List String :=
  (inquiry lifetime calls).asked inner

end Session

/-- What was loaded in the periods between clearings. -/
structure Periods where
  past : List (List String)
  current : List String

namespace Periods

def note (p : Periods) : Call → Periods
  | .load _ url => ⟨p.past, p.current ++ [url]⟩
  | .clear => ⟨p.past ++ [p.current], []⟩

def ofCalls (calls : List Call) : Periods := calls.foldl note ⟨[], []⟩

def all (p : Periods) : List (List String) := p.past ++ [p.current]

theorem flatten_all_note (p : Periods) (call : Call) :
    (p.note call).all.flatten = p.all.flatten ++ call.url?.toList := by
  cases call <;> simp [note, all, Call.url?]

theorem flatten_all_ofCalls (calls : List Call) :
    (ofCalls calls).all.flatten = calls.filterMap Call.url? := by
  induction calls using List.reverseRecOn with
  | nil => rfl
  | append_singleton calls call ih =>
      rw [ofCalls, List.foldl_append, List.foldl_cons, List.foldl_nil, flatten_all_note]
      rw [ofCalls] at ih
      cases call <;> simp [ih, Call.url?]

end Periods

end Cache

namespace Loader

/-- Those of some addresses that a loader has a document for. -/
def answered (inner : Loader) (urls : List String) : List String :=
  urls.filter fun url => (inner url).isOk

def refused (inner : Loader) (urls : List String) : List String :=
  urls.filter fun url => !(inner url).isOk

theorem answered_append (inner : Loader) (urls urls' : List String) :
    inner.answered (urls ++ urls') = inner.answered urls ++ inner.answered urls' :=
  List.filter_append ..

theorem refused_append (inner : Loader) (urls urls' : List String) :
    inner.refused (urls ++ urls') = inner.refused urls ++ inner.refused urls' :=
  List.filter_append ..

end Loader

namespace Cache

variable {inner : Loader} {c : Cache} {s : Session} {p : Periods}

/-- A session after which the cache holds what was loaded in the current period. -/
structure Follows (inner : Loader) (s : Session) (p : Periods) : Prop where
  sorted : s.cache.stored.Sorted
  holds : s.cache.Holds inner
  stored : ∀ url, url ∈ s.cache.stored.keys ↔ url ∈ inner.answered p.current
  answers : s.answers = p.all.flatten.map fun url => (url, inner url)

theorem follows_start (inner : Loader) (lifetime : Option Nat) :
    Follows inner (Session.start lifetime) ⟨[], []⟩ where
  sorted := NameMap.sorted_nil
  holds := holds_empty inner lifetime
  stored _ := Iff.rfl
  answers := rfl

theorem mem_keys_iff {map : NameMap (Nat × RemoteDocument)} {url : String} :
    url ∈ map.keys ↔ ∃ since document, NameMap.get? map url = some (since, document) := by
  rw [← not_iff_not, ← NameMap.get?_eq_none_iff, Option.eq_none_iff_forall_ne_some]
  simp

theorem Follows.call (follows : Follows inner s p) (call : Call) :
    Follows inner ((s.call call).answer inner) (p.note call) := by
  cases call with
  | clear =>
      refine ⟨NameMap.sorted_nil, holds_clear inner s.cache, fun _ => Iff.rfl, ?_⟩
      rw [Periods.flatten_all_note, Call.url?, Option.toList_none, List.append_nil]
      exact follows.answers
  | load now url =>
      have answers : ((s.call (.load now url)).answer inner).answers =
          (p.note (.load now url)).all.flatten.map fun url => (url, inner url) := by
        rw [Periods.flatten_all_note, List.map_append, ← follows.answers, Session.call,
          Inquiry.answer_bind, Inquiry.answer, load_result follows.holds]
        rfl
      have cache : ((s.call (.load now url)).answer inner).cache =
          ((s.cache.load now url).answer inner).cache := by
        rw [Session.call, Inquiry.answer_bind, Inquiry.answer]
      have holds : ((s.call (.load now url)).answer inner).cache.Holds inner :=
        cache ▸ follows.holds.load now url
      have grown : ∀ other, other ∈ inner.answered (p.current ++ [url]) ↔
          other ∈ s.cache.stored.keys ∨ other = url ∧ (inner url).isOk = true := by
        intro other
        rw [Loader.answered_append, List.mem_append, ← follows.stored]
        simp only [Loader.answered, List.mem_filter, List.mem_singleton]
        apply or_congr Iff.rfl
        apply and_congr_right
        intro same
        rw [same]
      rcases load_cases inner s.cache now url with ⟨since, document, inCache, -, loaded⟩ |
        ⟨-, -, ⟨document, answer, loaded⟩ | ⟨e, answer, loaded⟩⟩
      · refine ⟨?_, holds, fun other => ?_, answers⟩
        · rw [cache, loaded]
          exact follows.sorted
        · rw [Periods.note, grown, cache, loaded]
          refine ⟨Or.inl, ?_⟩
          rintro (before | ⟨rfl, -⟩)
          · exact before
          · exact mem_keys_iff.mpr ⟨since, document, inCache⟩
      · refine ⟨?_, holds, fun other => ?_, answers⟩
        · rw [cache, loaded]
          exact follows.sorted.update _ _
        · rw [Periods.note, grown, cache, loaded, answer]
          simp only [mem_keys_iff]
          by_cases same : other = url
          · subst same
            simp [NameMap.get?_insert_self, Except.isOk, Except.toBool]
          · simp [NameMap.get?_insert_of_ne _ _ same, same]
      · refine ⟨?_, holds, fun other => ?_, answers⟩
        · rw [cache, loaded]
          exact follows.sorted
        · rw [Periods.note, grown, cache, loaded, answer]
          simp [Except.isOk, Except.toBool]

theorem Session.inquiry_append (lifetime : Option Nat) (calls : List Call) (call : Call) :
    Session.inquiry lifetime (calls ++ [call]) =
      (Session.inquiry lifetime calls).bind fun s => s.call call := by
  rw [Session.inquiry, List.foldl_append]
  rfl

theorem Session.run_append (inner : Loader) (lifetime : Option Nat) (calls : List Call)
    (call : Call) : Session.run inner lifetime (calls ++ [call]) =
      ((Session.run inner lifetime calls).call call).answer inner := by
  rw [Session.run, Session.inquiry_append, Inquiry.answer_bind]
  rfl

theorem Session.asked_append (inner : Loader) (lifetime : Option Nat) (calls : List Call)
    (call : Call) : Session.asked inner lifetime (calls ++ [call]) =
      Session.asked inner lifetime calls ++
        ((Session.run inner lifetime calls).call call).asked inner := by
  rw [Session.asked, Session.inquiry_append, Inquiry.asked_bind]
  rfl

theorem Periods.ofCalls_append (calls : List Call) (call : Call) :
    Periods.ofCalls (calls ++ [call]) = (Periods.ofCalls calls).note call := by
  rw [Periods.ofCalls, List.foldl_append]
  rfl

theorem follows_run (inner : Loader) (lifetime : Option Nat) (calls : List Call) :
    Follows inner (Session.run inner lifetime calls) (Periods.ofCalls calls) := by
  induction calls using List.reverseRecOn with
  | nil => exact follows_start inner lifetime
  | append_singleton calls call ih =>
      rw [Session.run_append, Periods.ofCalls_append]
      exact ih.call call

theorem Follows.size_eq (follows : Follows inner s p) :
    s.cache.size = (inner.answered p.current).toFinset.card := by
  have nodup : s.cache.stored.keys.Nodup := by
    refine List.Pairwise.imp ?_ follows.sorted
    intro a b before same
    exact String.lt_irrefl _ (same ▸ before)
  have same : s.cache.stored.keys.toFinset = (inner.answered p.current).toFinset := by
    ext url
    rw [List.mem_toFinset, List.mem_toFinset, follows.stored]
  rw [← same, List.toFinset_card_of_nodup nodup, NameMap.keys, List.length_map]
  rfl

/-! ## What the loader is asked for -/

theorem load_lifetime (inner : Loader) (c : Cache) (now : Nat) (url : String) :
    ((c.load now url).answer inner).cache.lifetime = c.lifetime := by
  rcases load_cases inner c now url with ⟨_, _, -, -, loaded⟩ |
    ⟨-, -, ⟨_, -, loaded⟩ | ⟨_, -, loaded⟩⟩
  · rw [loaded]
    rfl
  · rw [loaded]
  · rw [loaded]

theorem lifetime_run (inner : Loader) (lifetime : Option Nat) (calls : List Call) :
    (Session.run inner lifetime calls).cache.lifetime = lifetime := by
  induction calls using List.reverseRecOn with
  | nil => rfl
  | append_singleton calls call ih =>
      rw [Session.run_append]
      cases call with
      | load now url =>
          rw [Session.call, Inquiry.answer_bind, Inquiry.answer]
          exact (load_lifetime inner _ now url).trans ih
      | clear => exact ih

theorem Session.asked_load (inner : Loader) (s : Session) (now : Nat) (url : String) :
    (s.call (.load now url)).asked inner = (s.cache.load now url).asked inner := by
  rw [Session.call, Inquiry.asked_bind, Inquiry.asked, List.append_nil]

theorem asked_of_lasting (lasting : c.lifetime = none) (inner : Loader) (now : Nat)
    (url : String) :
    (c.load now url).asked inner = if url ∉ c.stored.keys then [url] else [] := by
  have fresh : c.fresh? now url = (NameMap.get? c.stored url).map Prod.snd := by
    rw [fresh?]
    cases NameMap.get? c.stored url <;> simp [lasting]
  rcases load_cases inner c now url with ⟨since, document, inCache, -, loaded⟩ | ⟨stale, asks, -⟩
  · have held : url ∈ c.stored.keys := mem_keys_iff.mpr ⟨since, document, inCache⟩
    rw [loaded, if_neg (not_not_intro held)]
    rfl
  · have absent : url ∉ c.stored.keys := by
      rw [fresh, Option.map_eq_none_iff] at stale
      exact NameMap.get?_eq_none_iff.mp stale
    rw [asks, if_pos absent]

theorem asked_of_zero (limit : c.lifetime = some 0) (inner : Loader) (now : Nat) (url : String) :
    (c.load now url).asked inner = [url] := by
  rcases load_cases inner c now url with ⟨since, document, inCache, fresh, -⟩ | ⟨-, asks, -⟩
  · rw [fresh?, inCache, limit] at fresh
    simp at fresh
  · exact asks

/-- What a cache without a limit has to ask for in a period: every document once, and what is not
there every time. -/
def due (inner : Loader) (urls : List String) : List String :=
  (inner.answered urls).eraseDups ++ inner.refused urls

theorem due_append_singleton (inner : Loader) (urls : List String) (url : String) :
    (due inner (urls ++ [url])).Perm
      (due inner urls ++ if url ∉ inner.answered urls then [url] else []) := by
  rw [due, due, Loader.answered_append, Loader.refused_append]
  cases ok : (inner url).isOk with
  | true =>
      have answered : inner.answered [url] = [url] := by simp [Loader.answered, ok]
      have refused : inner.refused [url] = [] := by simp [Loader.refused, ok]
      rw [answered, refused, eraseDups_append_singleton, List.append_nil]
      by_cases again : url ∈ inner.answered urls
      · simp [again]
      · simp only [again, if_false, not_false_eq_true, if_true, List.append_assoc]
        exact List.Perm.append_left _ List.perm_append_comm
  | false =>
      have answered : inner.answered [url] = [] := by simp [Loader.answered, ok]
      have refused : inner.refused [url] = [url] := by simp [Loader.refused, ok]
      have new : url ∉ inner.answered urls := by simp [Loader.answered, ok]
      simp [answered, refused, new]

theorem asked_perm (inner : Loader) (calls : List Call) :
    (Session.asked inner none calls).Perm
      ((Periods.ofCalls calls).all.flatMap (due inner)) := by
  induction calls using List.reverseRecOn with
  | nil => exact List.Perm.refl _
  | append_singleton calls call ih =>
      have follows := follows_run inner none calls
      rw [Session.asked_append, Periods.ofCalls_append]
      cases call with
      | clear =>
          have nothing : due inner [] = [] := rfl
          simpa [Session.call, Inquiry.asked, Periods.note, Periods.all, nothing] using ih
      | load now url =>
          have lasting := lifetime_run inner none calls
          have asks : (if url ∉ (Session.run inner none calls).cache.stored.keys then [url]
              else []) =
              if url ∉ inner.answered (Periods.ofCalls calls).current then [url] else [] :=
            if_congr (not_congr (follows.stored url)) rfl rfl
          rw [Session.asked_load, asked_of_lasting lasting, asks]
          refine (List.Perm.append_right _ ih).trans ?_
          simp only [Periods.all, Periods.note, List.flatMap_append, List.flatMap_singleton,
            List.append_assoc]
          exact List.Perm.append_left _ (due_append_singleton inner _ url).symm

theorem asked_of_limit (inner : Loader) (calls : List Call) :
    Session.asked inner (some 0) calls = calls.filterMap Call.url? := by
  induction calls using List.reverseRecOn with
  | nil => rfl
  | append_singleton calls call ih =>
      rw [Session.asked_append, ih, List.filterMap_append]
      cases call with
      | clear => rfl
      | load now url =>
          rw [Session.asked_load, asked_of_zero (lifetime_run inner (some 0) calls)]
          rfl

theorem answers_run (inner : Loader) (lifetime : Option Nat) (calls : List Call) :
    (Session.run inner lifetime calls).answers =
      (calls.filterMap Call.url?).map fun url => (url, inner url) := by
  rw [(follows_run inner lifetime calls).answers, Periods.flatten_all_ofCalls]

end Cache

end LinkedCommit
