import LinkedCommit.Value.Datatype
import LinkedCommit.Proofs.Number.Numeral
import LinkedCommit.Proofs.Result
import LinkedCommit.Proofs.Value.Window
/-!
# Integer datatypes

A text is a literal of an integer type if it is a numeral and denotes an integer of the type
(`Value.decode_name_eq_ok_iff`).  The integers of a type are never more than there are field
elements, and each of them has one; so literals of one type share an element only if they denote one
integer (`IntegerType.literals_encoded`).
-/

set_option autoImplicit false

namespace LinkedCommit

open Decimal (Denotes)

variable {w : FieldWindow}

namespace IntegerType

def name : IntegerType → String
  | .integer => Xsd.integer
  | .nonNegative => Xsd.nonNegativeInteger
  | .nonPositive => Xsd.nonPositiveInteger
  | .negative => Xsd.negativeInteger
  | .positive => Xsd.positiveInteger

theorem ofName?_name (t : IntegerType) : ofName? t.name = some t := by
  cases t <;> decide +kernel

theorem name_ne_boolean (t : IntegerType) : t.name ≠ Xsd.boolean := by
  cases t <;> decide +kernel

def Admits (t : IntegerType) (w : FieldWindow) (v : Int) : Prop :=
  match t with
  | .integer => w.minInt ≤ v ∧ v ≤ w.maxInt
  | .nonNegative => 0 ≤ v ∧ v ≤ w.prime - 1
  | .positive => 1 ≤ v ∧ v ≤ w.prime - 1
  | .nonPositive => w.minInt ≤ v ∧ v ≤ 0
  | .negative => w.minInt ≤ v ∧ v ≤ -1

theorem admits_iff {t : IntegerType} {v : Int} :
    t.Admits w v ↔ t.minimum w ≤ v ∧ v ≤ t.maximum w := by
  cases t <;> exact Iff.rfl

instance (t : IntegerType) (w : FieldWindow) (v : Int) : Decidable (t.Admits w v) :=
  decidable_of_iff' _ admits_iff

theorem checkRange_eq_ok_iff {t : IntegerType} {v : Int} :
    Value.checkRange t v w = .ok () ↔ t.Admits w v := by
  rw [admits_iff, Value.checkRange]
  split
  · simp only [reduceCtorEq, false_iff]
    omega
  · split
    · simp only [reduceCtorEq, false_iff]
      omega
    · simp only [true_iff]
      omega

theorem Admits.bounds {t : IntegerType} (positive : 1 ≤ w.prime) {v v' : Int}
    (admits : t.Admits w v) (admits' : t.Admits w v') :
    w.minInt ≤ v ∧ v ≤ w.maxElement ∧ v - v' < w.prime := by
  obtain ⟨shift, zero, half, top⟩ := FieldWindow.ends positive
  cases t <;> simp only [Admits] at admits admits' <;> omega

end IntegerType

/-! ## Literals -/

namespace Value

theorem readInteger_eq_ok_iff {text : String} {v : Int} :
    readInteger text = .ok v ↔ Denotes text.toList v := by
  rw [← Decimal.signed?_eq_some_iff, readInteger]
  cases Decimal.signed? text.toList <;> simp

theorem decode_name (t : IntegerType) (text : String) (w : FieldWindow) :
    decode t.name text w.prime = do
      let v ← readInteger text
      checkRange t v w
      return .bigInt v := by
  rw [decode, if_neg t.name_ne_boolean, t.ofName?_name]

theorem decode_name_eq_ok_iff {t : IntegerType} {text : String} {value : Value} :
    decode t.name text w.prime = .ok value ↔
      ∃ v, Denotes text.toList v ∧ t.Admits w v ∧ value = .bigInt v := by
  rw [decode_name]
  constructor
  · intro decoded
    obtain ⟨v, read, checked⟩ := Except.bind_eq_ok_iff.mp decoded
    obtain ⟨⟨⟩, inRange, done⟩ := Except.bind_eq_ok_iff.mp checked
    exact ⟨v, readInteger_eq_ok_iff.mp read, IntegerType.checkRange_eq_ok_iff.mp inRange,
      (Except.ok.inj done).symm⟩
  · rintro ⟨v, denotes, admits, rfl⟩
    have inRange := IntegerType.checkRange_eq_ok_iff.mpr admits
    exact Except.bind_eq_ok_iff.mpr ⟨v, readInteger_eq_ok_iff.mpr denotes,
      Except.bind_eq_ok_iff.mpr ⟨(), inRange, rfl⟩⟩

theorem decode_name_eq_ok_bigInt_iff {t : IntegerType} {text : String} {v : Int} :
    decode t.name text w.prime = .ok (.bigInt v) ↔ Denotes text.toList v ∧ t.Admits w v := by
  rw [decode_name_eq_ok_iff]
  constructor
  · rintro ⟨_, denotes, admits, ⟨⟩⟩
    exact ⟨denotes, admits⟩
  · rintro ⟨denotes, admits⟩
    exact ⟨v, denotes, admits, rfl⟩

end Value

/-! ## Their elements -/

namespace IntegerType

theorem Admits.exists_encodeInteger {t : IntegerType} (positive : 1 ≤ w.prime) {v : Int}
    (admits : t.Admits w v) : ∃ x, encodeInteger v w.prime = .ok x := by
  obtain ⟨low, high, -⟩ := admits.bounds positive admits
  exact (exists_encodeInteger_iff positive v).mpr ⟨low, high⟩

theorem Admits.eq_of_encodeInteger {t : IntegerType} (positive : 1 ≤ w.prime) {v v' : Int}
    (admits : t.Admits w v) (admits' : t.Admits w v')
    (same : encodeInteger v w.prime = encodeInteger v' w.prime) : v = v' := by
  obtain ⟨x, encoded⟩ := admits.exists_encodeInteger positive
  have congruent := (encodeInteger_lt positive encoded).2
  have congruent' := (encodeInteger_lt positive (same ▸ encoded)).2
  have divides : (w.prime : Int) ∣ v - v' := (congruent'.symm.trans congruent).dvd
  have near := (admits.bounds positive admits').2.2
  have near' := (admits'.bounds positive admits).2.2
  exact Int.eq_of_sub_eq_zero (Int.eq_zero_of_abs_lt_dvd divides (abs_lt.mpr (by omega)))

/-- The literals of an integer type are the numerals of its integers.  Every one of them is encoded,
and two of them are encoded as one element just if they denote one integer. -/
theorem literals_encoded (w : FieldWindow) (positive : 1 ≤ w.prime) (t : IntegerType) :
    (∀ text, (∃ value, Value.decode t.name text w.prime = .ok value) ↔
      ∃ v, Denotes text.toList v ∧ t.Admits w v) ∧
    (∀ text value, Value.decode t.name text w.prime = .ok value →
      ∃ v, value = .bigInt v ∧ Denotes text.toList v ∧ ∃ x, encodeInteger v w.prime = .ok x) ∧
    ∀ text text' v v', Value.decode t.name text w.prime = .ok (.bigInt v) →
      Value.decode t.name text' w.prime = .ok (.bigInt v') →
      (encodeInteger v w.prime = encodeInteger v' w.prime ↔
        ∃ n, Denotes text.toList n ∧ Denotes text'.toList n) := by
  refine ⟨fun text => ?_, fun text value decoded => ?_, fun text text' v v' decoded decoded' => ?_⟩
  · simp only [Value.decode_name_eq_ok_iff]
    exact ⟨fun ⟨_, v, denotes, admits, _⟩ => ⟨v, denotes, admits⟩,
      fun ⟨v, denotes, admits⟩ => ⟨.bigInt v, v, denotes, admits, rfl⟩⟩
  · obtain ⟨v, denotes, admits, rfl⟩ := Value.decode_name_eq_ok_iff.mp decoded
    exact ⟨v, rfl, denotes, admits.exists_encodeInteger positive⟩
  · obtain ⟨denotes, admits⟩ := Value.decode_name_eq_ok_bigInt_iff.mp decoded
    obtain ⟨denotes', admits'⟩ := Value.decode_name_eq_ok_bigInt_iff.mp decoded'
    constructor
    · intro same
      have equal := admits.eq_of_encodeInteger positive admits' same
      exact ⟨v, denotes, equal ▸ denotes'⟩
    · rintro ⟨n, denotesN, denotesN'⟩
      rw [denotes.unique denotesN, denotes'.unique denotesN']

/-- Modulo ten the integers of the window are from `-4` to `5`.  So `6` is no integer literal, while
among the numbers that are not negative it is one, with the element that `-4` has among the others. -/
theorem literals_modulo_ten_encoded :
    let w : FieldWindow := ⟨10⟩
    let decoded (t : IntegerType) (text : String) (v : Int) : Prop :=
      Value.decode t.name text w.prime = .ok (.bigInt v)
    decoded .integer "-4" (-4) ∧ decoded .integer "-04" (-4) ∧ decoded .nonNegative "+6" 6 ∧
      (¬ ∃ v, Denotes "6".toList v ∧ integer.Admits w v) ∧
      (∃ n, Denotes "-4".toList n ∧ Denotes "-04".toList n) ∧
      (∃ v, Value.bigInt 6 = .bigInt v ∧ Denotes "+6".toList v ∧
        ∃ x, encodeInteger v w.prime = .ok x) ∧
      encodeInteger 6 w.prime = encodeInteger (-4) w.prime := by
  intro w decoded
  have positive : 1 ≤ w.prime := by decide
  have least : decoded .integer "-4" (-4) := by decide +kernel
  have least' : decoded .integer "-04" (-4) := by decide +kernel
  have six : decoded .nonNegative "+6" 6 := by decide +kernel
  have none : ¬ ∃ value, Value.decode integer.name "6" w.prime = .ok value := by
    rintro ⟨value, found⟩
    have failed : (Value.decode integer.name "6" w.prime).toOption = Option.none := by
      decide +kernel
    rw [found] at failed
    cases failed
  obtain ⟨accepted, -, alike⟩ := literals_encoded w positive .integer
  obtain ⟨-, encoded, -⟩ := literals_encoded w positive .nonNegative
  exact ⟨least, least', six, fun numeral => none ((accepted "6").mpr numeral),
    (alike "-4" "-04" (-4) (-4) least least').mp rfl, encoded "+6" (.bigInt 6) six, by decide⟩

end IntegerType

end LinkedCommit
