import LinkedCommit.Serial.Entry
import LinkedCommit.Serial.Proof
import LinkedCommit.Value.Datatype
import LinkedCommit.Proofs.Time.Text
/-!
# Serialized forms are read back

Paths, values, entries and proofs are read back from what they are serialized to
(`Serial.serialized_read_back`), timestamps with their nanoseconds carried.  Segments need no tag: an
index is a number and a term a string, whatever is written in it.  Decimal texts and the texts of
timestamps are read back by `Decimal.grouped?_toString`, `Decimal.groupedNat?_toString` and
`Timestamp.readLenient?_text`.
-/

set_option autoImplicit false

namespace LinkedCommit

theorem Serial.mapM_map {α β : Type} {write : α → β} {read : β → Option α}
    (inverse : ∀ x, read (write x) = some x) (xs : List α) :
    (xs.map write).mapM read = some xs := by
  induction xs with
  | nil => rfl
  | cons x rest ih => simp [inverse, ih]

/-! ## Paths -/

theorem Segment.ofJson?_toJson (s : Segment) : Segment.ofJson? s.toJson = some s := by
  cases s with
  | term name => rfl
  | index n => simp [Segment.toJson, Segment.ofJson?, Json.int]

theorem Path.ofJson?_toJson (p : Path) : Path.ofJson? p.toJson = some p := by
  rw [Path.toJson, Path.ofJson?, Serial.mapM_map Segment.ofJson?_toJson]
  rfl

/-! ## Values -/

def Value.IsRepresentable : Value → Prop
  | .time t => t.IsRepresentable
  | _ => True

def Value.Settled : Value → Prop
  | .time t => t.Settled
  | _ => True

/-- What a value is read back as. -/
def Value.carried : Value → Value
  | .time t => .time t.carried
  | v => v

theorem Value.carried_eq_self_iff {v : Value} : v.carried = v ↔ v.Settled := by
  cases v with
  | time t => exact (Value.time.injEq _ _).to_iff.trans Timestamp.carried_eq_self_iff
  | int | bool | string | bigInt => exact iff_of_true rfl trivial

theorem int64?_toInt (n : Int64) : int64? n.toInt = some n := by
  rw [int64?, if_pos ⟨n.le_toInt, n.toInt_lt⟩, Int64.ofInt_toInt]

theorem Value.ofJson?_record (kind : Serial.ValueKind) (content : Json) :
    Value.ofJson? (.object [("kind", .string kind.name), ("value", content)]) =
      Serial.content? kind content := by
  cases kind <;> rfl

theorem Value.ofJson?_toJson {v : Value} (representable : v.IsRepresentable) :
    Value.ofJson? v.toJson = some v.carried := by
  cases v with
  | int n =>
      rw [Value.toJson, Value.ofJson?_record]
      exact congrArg (Option.map Value.int) (int64?_toInt n)
  | bool b => rfl
  | string s => rfl
  | bigInt n =>
      rw [Value.toJson, Value.ofJson?_record, Serial.content?, Decimal.grouped?_toString]
      rfl
  | time t =>
      rw [Value.toJson, Value.ofJson?_record, Serial.content?,
        Timestamp.readLenient?_text representable]
      rfl

/-! ## Entries -/

theorem Entry.ofJson?_toJson {e : Entry} (representable : e.value.IsRepresentable) :
    Entry.ofJson? e.toJson = some { e with value := e.value.carried } := by
  have fields : Serial.fields? ["path", "value", "datatype"] 1 e.toJson =
      some [some e.path.toJson, some e.value.toJson, some (.string e.datatype)] := rfl
  rw [Entry.ofJson?, fields]
  dsimp only
  rw [Path.ofJson?_toJson, Value.ofJson?_toJson representable]
  rfl

/-! ## Proofs -/

theorem Serial.leafElement?_elementText (n : Nat) :
    Serial.leafElement? (Serial.elementText n) = some n := by
  have read : Decimal.grouped? (toString n).toList = some (n : Int) :=
    Decimal.grouped?_toString (n : Int)
  rw [Serial.elementText, Serial.leafElement?, read, Option.bind_some,
    if_pos (Int.natCast_nonneg n), Int.toNat_natCast]

theorem Serial.sibling?_elementText (n : Nat) : Serial.sibling? (Serial.elementText n) = some n :=
  Decimal.groupedNat?_toString n

theorem OtherLeaf.ofJson?_toJson (leaf : OtherLeaf) :
    OtherLeaf.ofJson? leaf.toJson = some leaf := by
  have fields : Serial.fields? ["key", "value"] 0 leaf.toJson =
      some [some (Serial.elementText leaf.key), some (Serial.elementText leaf.value)] := rfl
  rw [OtherLeaf.ofJson?, fields]
  dsimp only
  rw [Serial.leafElement?_elementText, Serial.leafElement?_elementText]
  rfl

theorem Proof.otherOfJson?_toJson (other : Option OtherLeaf) :
    Proof.otherOfJson? ((other.map OtherLeaf.toJson).getD .null) = some other := by
  cases other with
  | none => rfl
  | some leaf => exact congrArg (Option.map some) (OtherLeaf.ofJson?_toJson leaf)

theorem Proof.ofJson?_toJson (p : Proof) : Proof.ofJson? p.toJson = some p := by
  have fields : Serial.fields? ["existence", "siblings", "node_aux"] 1 p.toJson =
      some [some (.bool p.existence), some (.array (p.siblings.map Serial.elementText)),
        some ((p.other.map OtherLeaf.toJson).getD .null)] := rfl
  have siblings : Proof.siblingsOfJson? (.array (p.siblings.map Serial.elementText)) =
      some p.siblings := Serial.mapM_map Serial.sibling?_elementText p.siblings
  unfold Proof.ofJson?
  rw [Proof.toJson] at fields ⊢
  dsimp only
  rw [fields]
  dsimp only
  rw [siblings, Option.getD_some, Proof.otherOfJson?_toJson]
  rfl

/-! ## All of them -/

/-- What is serialized is read back: paths, values, entries and proofs.  The nanoseconds of a
timestamp are carried, so that exactly the settled ones are read back as they were. -/
theorem Serial.serialized_read_back :
    (∀ p : Path, Path.ofJson? p.toJson = some p) ∧
      (∀ v : Value, v.IsRepresentable → Value.ofJson? v.toJson = some v.carried ∧
        (Value.ofJson? v.toJson = some v ↔ v.Settled)) ∧
      (∀ e : Entry, e.value.IsRepresentable →
        Entry.ofJson? e.toJson = some { e with value := e.value.carried } ∧
        (Entry.ofJson? e.toJson = some e ↔ e.value.Settled)) ∧
      ∀ p : Proof, Proof.ofJson? p.toJson = some p := by
  refine ⟨Path.ofJson?_toJson, ?_, ?_, Proof.ofJson?_toJson⟩
  · intro v representable
    have read := Value.ofJson?_toJson representable
    refine ⟨read, ?_⟩
    rw [read, Option.some.injEq]
    exact Value.carried_eq_self_iff
  · intro e representable
    have read := Entry.ofJson?_toJson representable
    refine ⟨read, ?_⟩
    rw [read, Option.some.injEq, ← Value.carried_eq_self_iff]
    constructor
    · intro same
      exact congrArg Entry.value same
    · intro same
      rw [same]

/-- A leap second of the year before zero, under a path with an index and the same number as a
term. -/
theorem Serial.leap_second_read_back :
    let leap : Timestamp := ⟨-719529 * 86400 + 86399, 1500000000⟩
    let e : Entry := ⟨⟨[.term "urn:p", .index 1, .term "1"]⟩, .time leap, Xsd.dateTime⟩
    leap.text .zulu = "-0001-12-31T23:59:60.500Z" ∧
      Value.ofJson? (Value.time leap).toJson = some (.time leap) ∧
      Entry.ofJson? e.toJson = some e := by
  intro leap e
  have representable : leap.IsRepresentable := by decide
  have settled : leap.Settled := by decide
  obtain ⟨-, values, entries, -⟩ := Serial.serialized_read_back
  exact ⟨by decide +kernel, (values (.time leap) representable).2.mpr settled,
    (entries e representable).2.mpr settled⟩

/-- A second of nanoseconds within a minute is read back as the next second. -/
theorem Serial.early_leap_second_not_read_back :
    let early : Timestamp := ⟨4, 1333333333⟩
    early.IsRepresentable ∧ early.text .zulu = "1970-01-01T00:00:05.333333333Z" ∧
      Value.ofJson? (Value.time early).toJson = some (.time ⟨5, 333333333⟩) ∧
      Value.ofJson? (Value.time early).toJson ≠ some (.time early) := by
  intro early
  have read : Value.ofJson? (Value.time early).toJson = some (.time ⟨5, 333333333⟩) := by
    decide +kernel
  refine ⟨by decide, by decide +kernel, read, ?_⟩
  rw [read]
  decide

end LinkedCommit
