import LinkedCommit.Value.Native
import LinkedCommit.Proofs.Time.Strict
import LinkedCommit.Proofs.Value.IntegerTypes
/-!
# Native values are read back

The text of a native value under a datatype is decoded to the value again (`lexical_read_back`):
integers of each size, as far as the type admits them, booleans, and timestamps, with their
nanoseconds carried.  A timestamp whose year is not of four digits is refused, since RFC 3339 has no
text for it that could be read.
-/

set_option autoImplicit false

namespace LinkedCommit

variable {w : FieldWindow}

theorem IntegerType.name_ne_double (t : IntegerType) : t.name ≠ Xsd.double := by
  cases t <;> decide +kernel

namespace NativeValue

/-- The value of a document that holds the text of a native value. -/
def reread (native : NativeValue) (datatype : String) (prime : Nat) : Except ValueError Value := do
  let text ← native.lexical datatype
  Value.decode datatype text prime

theorem reread_of_lexical {native : NativeValue} {datatype text : String}
    (written : native.lexical datatype = .ok text) (prime : Nat) :
    native.reread datatype prime = Value.decode datatype text prime := by
  rw [reread, written]
  rfl

/-! ## Integers -/

def integer? : NativeValue → Option Int
  | .int v => some v.toInt
  | .uint v => some v.toNat
  | .bigInt v => some v
  | _ => none

theorem integerLexical_name (t : IntegerType) (v : Int) :
    integerLexical v t.name = .ok (toString v) := if_neg t.name_ne_double

theorem lexical_eq_of_integer? {native : NativeValue} {v : Int} (integer : native.integer? = some v)
    (t : IntegerType) : native.lexical t.name = .ok (toString v) := by
  cases native with
  | int n =>
      cases integer
      rw [lexical, integerLexical_name]
  | uint n =>
      cases integer
      rw [lexical, integerLexical_name]
  | bigInt n =>
      cases integer
      rw [lexical, integerLexical_name]
  | string _ | bool _ | time _ | float _ => cases integer

theorem reread_of_integer? {native : NativeValue} {v : Int} (integer : native.integer? = some v)
    {t : IntegerType} (admits : t.Admits w v) : native.reread t.name w.prime = .ok (.bigInt v) := by
  rw [reread_of_lexical (lexical_eq_of_integer? integer t)]
  exact Value.decode_name_eq_ok_bigInt_iff.mpr ⟨Decimal.denotes_toString v, admits⟩

/-! ## Booleans -/

theorem reread_bool (b : Bool) (prime : Nat) :
    (bool b).reread Xsd.boolean prime = .ok (.bool b) := by
  cases b <;> rfl

/-! ## Timestamps -/

theorem decode_dateTime (text : String) (prime : Nat) :
    Value.decode Xsd.dateTime text prime = (Value.readDateTime text).map .time := by
  have noBoolean : Xsd.dateTime ≠ Xsd.boolean := by decide +kernel
  have noInteger : IntegerType.ofName? Xsd.dateTime = none := by decide +kernel
  rw [Value.decode, if_neg noBoolean, noInteger]
  dsimp only
  rw [if_pos rfl]

theorem readDateTime_text {t : Timestamp} (representable : t.IsRepresentable) :
    Value.readDateTime (t.text .zulu) =
      if t.HasPlainYear then .ok t.carried
      else .error (.invalidDateTime (t.text .zulu)) := by
  by_cases plain : t.HasPlainYear
  · have read := Timestamp.read?_text representable plain
    simp only [Value.readDateTime, t.isPlainDate_text, Bool.false_eq_true, if_false, read,
      if_pos plain]
  · have unread := Timestamp.read?_text_eq_none plain
    simp only [Value.readDateTime, t.isPlainDate_text, Bool.false_eq_true, if_false, unread,
      if_neg plain]

theorem reread_time {t : Timestamp} (representable : t.IsRepresentable) (prime : Nat) :
    (time t).reread Xsd.dateTime prime =
      if t.HasPlainYear then .ok (.time t.carried)
      else .error (.invalidDateTime (t.text .zulu)) := by
  have written : (time t).lexical Xsd.dateTime = .ok (t.text .zulu) := by rw [lexical]
  rw [reread_of_lexical written, decode_dateTime, readDateTime_text representable]
  split <;> rfl

theorem reread_time_eq_ok_iff {t : Timestamp} (representable : t.IsRepresentable) (prime : Nat) :
    (time t).reread Xsd.dateTime prime = .ok (.time t) ↔ t.HasPlainYear ∧ t.Settled := by
  rw [reread_time representable, ← Timestamp.carried_eq_self_iff]
  split
  · rename_i plain
    rw [Except.ok.injEq, Value.time.injEq, and_iff_right plain]
  · rename_i signed
    exact iff_of_false nofun fun both => signed both.1

/-! ## All of them -/

/-- A native value is read back from its text: an integer under each type that admits it, a boolean,
and a timestamp in a year of four digits, with its nanoseconds carried.  So exactly the settled ones
of these years are read back as they were, and a timestamp in another year is refused. -/
theorem lexical_read_back (w : FieldWindow) :
    (∀ (t : IntegerType) (native : NativeValue) (v : Int), native.integer? = some v →
      t.Admits w v → native.reread t.name w.prime = .ok (.bigInt v)) ∧
    (∀ b, (bool b).reread Xsd.boolean w.prime = .ok (.bool b)) ∧
    ∀ t : Timestamp, t.IsRepresentable →
      ((time t).reread Xsd.dateTime w.prime =
        if t.HasPlainYear then .ok (.time t.carried)
        else .error (.invalidDateTime (t.text .zulu))) ∧
      ((time t).reread Xsd.dateTime w.prime = .ok (.time t) ↔ t.HasPlainYear ∧ t.Settled) :=
  ⟨fun _ _ _ integer => reread_of_integer? integer, fun b => reread_bool b w.prime,
    fun _ representable =>
      ⟨reread_time representable w.prime, reread_time_eq_ok_iff representable w.prime⟩⟩

/-- The greatest unsigned integer, a leap second at the end of the year 9999, and the second after
it. -/
theorem last_leap_second_read_back :
    let w : FieldWindow := ⟨bn254Prime⟩
    let leap : Timestamp := ⟨253402300799, 1500000000⟩
    let next : Timestamp := ⟨253402300800, 0⟩
    (uint 18446744073709551615).reread Xsd.nonNegativeInteger w.prime =
        .ok (.bigInt 18446744073709551615) ∧
      leap.text .zulu = "9999-12-31T23:59:60.500Z" ∧
      (time leap).reread Xsd.dateTime w.prime = .ok (.time leap) ∧
      (time next).reread Xsd.dateTime w.prime =
        .error (.invalidDateTime "+10000-01-01T00:00:00Z") := by
  intro w leap next
  obtain ⟨integers, -, times⟩ := lexical_read_back w
  have greatest : IntegerType.nonNegative.Admits w 18446744073709551615 := by decide
  have read := (times leap (by decide)).2.mpr (by decide)
  have refused := (times next (by decide)).1
  have text : next.text .zulu = "+10000-01-01T00:00:00Z" := by decide +kernel
  rw [if_neg (by decide), text] at refused
  exact ⟨integers .nonNegative (uint 18446744073709551615) _ rfl greatest, by decide +kernel, read,
    refused⟩

/-- A second of nanoseconds within a minute is taken for the next second. -/
theorem early_leap_second_taken_for_next :
    let early : Timestamp := ⟨4, 1333333333⟩
    early.IsRepresentable ∧ early.HasPlainYear ∧
      (time early).lexical Xsd.dateTime = .ok "1970-01-01T00:00:05.333333333Z" ∧
      (time early).reread Xsd.dateTime bn254Prime = .ok (.time ⟨5, 333333333⟩) ∧
      (time early).reread Xsd.dateTime bn254Prime ≠ .ok (.time early) := by
  intro early
  have read : (time early).reread Xsd.dateTime bn254Prime = .ok (.time ⟨5, 333333333⟩) := by
    decide +kernel
  refine ⟨by decide, by decide, by decide +kernel, read, ?_⟩
  rw [read]
  decide

end NativeValue

end LinkedCommit
