import LinkedCommit.Json.Reader
/-!
# Ordered values

The members of an object are a map sorted by name.  `Json.Ordered` says so of a value and of all
values in it, and every value that is read has it, whatever order the text has its members in
(`ordered_of_parse`).
-/

set_option autoImplicit false

namespace LinkedCommit

namespace Json

/-- The members of every object stand in the order of their names, each once. -/
inductive Ordered : Json → Prop
  | null : Ordered .null
  | bool (b : Bool) : Ordered (.bool b)
  | number (n : JsonNumber) : Ordered (.number n)
  | string (s : String) : Ordered (.string s)
  | array {items : List Json} (each : ∀ item ∈ items, Ordered item) : Ordered (.array items)
  | object {members : Members} (sorted : members.Sorted) (each : ∀ p ∈ members, Ordered p.2) :
      Ordered (.object members)

@[simp] theorem ordered_string (s : String) : (Json.string s).Ordered := .string s

@[simp] theorem ordered_array_iff {items : List Json} :
    (Json.array items).Ordered ↔ ∀ item ∈ items, item.Ordered := by
  constructor
  · rintro (_ | _ | _ | _ | each)
    exact each
  · exact .array

@[simp] theorem ordered_object_iff {members : Members} :
    (Json.object members).Ordered ↔ members.Sorted ∧ ∀ p ∈ members, p.2.Ordered := by
  constructor
  · rintro (_ | _ | _ | _ | _ | ⟨sorted, each⟩)
    exact ⟨sorted, each⟩
  · rintro ⟨sorted, each⟩
    exact .object sorted each

theorem ordered_ofPairs {pairs : List (String × Json)} (each : ∀ p ∈ pairs, p.2.Ordered) :
    (ofPairs pairs).Ordered := by
  have grown : ∀ (pairs : List (String × Json)) (map : Members), (∀ p ∈ pairs, p.2.Ordered) →
      (Json.object map).Ordered →
      (Json.object (pairs.foldl (fun map (key, value) => NameMap.insert map key value)
        map)).Ordered := by
    intro pairs
    induction pairs with
    | nil => exact fun map _ ordered => ordered
    | cons head rest ih =>
      intro map each ordered
      obtain ⟨sorted, values⟩ := ordered_object_iff.mp ordered
      refine ih _ (fun p member => each p (List.mem_cons_of_mem _ member)) (.object ?_ ?_)
      · exact sorted.update _ _
      · intro p member
        rcases NameMap.mem_of_mem_update member with same | before
        · exact same ▸ each head List.mem_cons_self
        · exact values p before
  exact grown pairs [] each (.object NameMap.sorted_nil nofun)

/-! ## Reading -/

def Frame.Ordered : Frame → Prop
  | .array items => ∀ item ∈ items, item.Ordered
  | .object members => ∀ p ∈ members, p.2.Ordered

namespace Builder

def Ordered : Builder → Prop
  | .value stack | .firstItem stack | .firstName stack | .name stack | .colon _ stack
  | .memberValue _ stack | .afterValue stack => ∀ frame ∈ stack, frame.Ordered
  | .done result => result.Ordered

variable {v : Json} {key : Option String} {stack : List Frame} {b next : Builder}

theorem ordered_complete (done : complete v key stack = some next) (value : v.Ordered)
    (ordered : ∀ frame ∈ stack, frame.Ordered) : next.Ordered := by
  unfold complete at done
  split at done
  · cases done
    exact value
  · cases done
    obtain ⟨first, rest⟩ := List.forall_mem_cons.mp ordered
    exact List.forall_mem_cons.mpr ⟨List.forall_mem_cons.mpr ⟨value, first⟩, rest⟩
  · obtain ⟨k, -, rfl⟩ := Option.map_eq_some_iff.mp done
    obtain ⟨first, rest⟩ := List.forall_mem_cons.mp ordered
    exact List.forall_mem_cons.mpr ⟨List.forall_mem_cons.mpr ⟨value, first⟩, rest⟩

theorem ordered_openFrame {frame : Frame} {make : List Frame → Builder}
    (made : ∀ stack, (make stack).Ordered ↔ ∀ frame ∈ stack, frame.Ordered)
    (opened : openFrame frame make stack = some next) (empty : frame.Ordered)
    (ordered : ∀ frame ∈ stack, frame.Ordered) : next.Ordered := by
  unfold openFrame at opened
  split at opened
  · cases opened
    exact (made _).mpr (List.forall_mem_cons.mpr ⟨empty, ordered⟩)
  · cases opened

theorem ordered_pushKey (ordered : ∀ frame ∈ stack, frame.Ordered) :
    ∀ frame ∈ pushKey key stack, frame.Ordered := by
  unfold pushKey
  split
  · obtain ⟨first, rest⟩ := List.forall_mem_cons.mp ordered
    exact List.forall_mem_cons.mpr ⟨List.forall_mem_cons.mpr ⟨.null, first⟩, rest⟩
  · exact ordered

theorem ordered_beginValue {t : Token} (begun : beginValue key stack t = some next)
    (ordered : ∀ frame ∈ stack, frame.Ordered) : next.Ordered := by
  cases t with
  | openArray => exact ordered_openFrame (fun _ => Iff.rfl) begun nofun (ordered_pushKey ordered)
  | openObject => exact ordered_openFrame (fun _ => Iff.rfl) begun nofun (ordered_pushKey ordered)
  | string s => exact ordered_complete begun (.string s) ordered
  | number n => exact ordered_complete begun (.number n) ordered
  | null => exact ordered_complete begun .null ordered
  | bool b => exact ordered_complete begun (.bool b) ordered
  | closeArray | closeObject | comma | colon => cases begun

theorem ordered_close (closed : close v stack = some next) (value : v.Ordered)
    (ordered : ∀ frame ∈ stack, frame.Ordered) : next.Ordered := by
  unfold close at closed
  split at closed
  · obtain ⟨first, rest⟩ := List.forall_mem_cons.mp ordered
    exact ordered_complete closed value
      (List.forall_mem_cons.mpr ⟨(List.forall_mem_cons.mp first).2, rest⟩)
  · exact ordered_complete closed value ordered

theorem ordered_closeArray {items : List Json} {rest : List Frame}
    (closed : close (.array items.reverse) rest = some next)
    (ordered : ∀ frame ∈ Frame.array items :: rest, frame.Ordered) : next.Ordered := by
  obtain ⟨first, others⟩ := List.forall_mem_cons.mp ordered
  exact ordered_close closed (.array fun item member => first item (List.mem_reverse.mp member))
    others

theorem ordered_closeObject {members : List (String × Json)} {rest : List Frame}
    (closed : close (ofPairs members.reverse) rest = some next)
    (ordered : ∀ frame ∈ Frame.object members :: rest, frame.Ordered) : next.Ordered := by
  obtain ⟨first, others⟩ := List.forall_mem_cons.mp ordered
  exact ordered_close closed
    (ordered_ofPairs fun p member => first p (List.mem_reverse.mp member)) others

theorem ordered_step {t : Token} (stepped : b.step t = some next) (ordered : b.Ordered) :
    next.Ordered := by
  cases b with
  | value stack => exact ordered_beginValue stepped ordered
  | memberValue key stack => exact ordered_beginValue stepped ordered
  | firstItem stack =>
      unfold step at stepped
      dsimp only at stepped
      split at stepped
      · exact ordered_closeArray stepped ordered
      · exact ordered_beginValue stepped ordered
  | firstName stack =>
      unfold step at stepped
      dsimp only at stepped
      split at stepped
      · exact ordered_closeObject stepped ordered
      · cases stepped
        exact ordered
      · cases stepped
  | name stack =>
      unfold step at stepped
      dsimp only at stepped
      split at stepped
      · cases stepped
        exact ordered
      · cases stepped
  | colon key stack =>
      unfold step at stepped
      dsimp only at stepped
      split at stepped
      · cases stepped
        exact ordered
      · cases stepped
  | afterValue stack =>
      unfold step at stepped
      dsimp only at stepped
      split at stepped
      · cases stepped
        exact ordered
      · cases stepped
        exact ordered
      · exact ordered_closeArray stepped ordered
      · exact ordered_closeObject stepped ordered
      · cases stepped
  | done result => cases stepped

theorem ordered_steps {tokens : List Token} (stepped : tokens.foldlM step b = some next)
    (ordered : b.Ordered) : next.Ordered := by
  induction tokens generalizing b with
  | nil =>
      cases stepped
      exact ordered
  | cons t rest ih =>
      rw [List.foldlM_cons] at stepped
      obtain ⟨after, first, others⟩ := Option.bind_eq_some_iff.mp stepped
      exact ih others (ordered_step first ordered)

end Builder

theorem ordered_readings {cs : List Char} {r next : Reading}
    (stepped : cs.foldlM Reading.step r = some next) (ordered : r.builder.Ordered) :
    next.builder.Ordered := by
  induction cs generalizing r with
  | nil =>
      cases stepped
      exact ordered
  | cons c rest ih =>
      rw [List.foldlM_cons] at stepped
      obtain ⟨after, first, others⟩ := Option.bind_eq_some_iff.mp stepped
      refine ih others ?_
      obtain ⟨⟨lexer, tokens⟩, -, first⟩ := Option.bind_eq_some_iff.mp first
      obtain ⟨builder, built, same⟩ := Option.bind_eq_some_iff.mp first
      cases same
      exact Builder.ordered_steps built ordered

/-- Every value that is read is ordered, however the text has its members. -/
theorem ordered_of_parse {s : String} {j : Json} (read : parse? s = some j) : j.Ordered := by
  rw [parse?, ofChars?] at read
  obtain ⟨r, readings, read⟩ := Option.bind_eq_some_iff.mp read
  obtain ⟨tokens, -, read⟩ := Option.bind_eq_some_iff.mp read
  obtain ⟨builder, built, read⟩ := Option.bind_eq_some_iff.mp read
  have ordered := Builder.ordered_steps built (ordered_readings readings (by exact nofun))
  split at read
  · cases read
    exact ordered
  · cases read

theorem ordered_of_parseBytes {bytes : List UInt8} {j : Json}
    (read : parseBytes? bytes = some j) : j.Ordered := by
  obtain ⟨s, -, read⟩ := Option.bind_eq_some_iff.mp read
  exact ordered_of_parse read

end Json
end LinkedCommit
