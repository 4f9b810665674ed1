import LinkedCommit.Proofs.Number.Reading
import LinkedCommit.Proofs.Result
import LinkedCommit.Value.Datatype
/-!
# Canonical floating-point numbers

A literal of a floating-point number is committed as the canonical text of the datum that it is
read as.  The text is read as this datum again (`readDouble_canonicalDouble`): its digits are the
shortest that round to the datum.  So a canonical text is its own canonical text, and two literals
have the same one only if they are read as the same datum (`double_literals_canonical`).
-/

set_option autoImplicit false

namespace LinkedCommit

open Decimal (IsDigits value)
open Value (readDouble decode)

namespace Double

/-! ## The text of a number -/

/-- The digits after the point: a zero if the number has no more digits. -/
def fractionOf : List Char → List Char
  | [] => ['0']
  | d :: ds => d :: ds

theorem scientific_cons (lead : Char) (ds : List Char) (exponent : Int) :
    scientific canonicalDoubleLayout (lead :: ds) exponent =
      scientificText lead (fractionOf ds) exponent := by
  have mark : canonicalDoubleLayout.exponentMark.toList = ['E'] := by decide +kernel
  have noPlus : canonicalDoubleLayout.exponentPlus = false := rfl
  have point : canonicalDoubleLayout.mantissaPoint = true := rfl
  cases ds <;>
    simp only [scientific, mark, noPlus, point, Bool.and_false, Bool.false_eq_true, if_false,
      if_true, List.append_nil, List.append_assoc, List.cons_append, List.nil_append,
      scientificText, fractionOf]

theorem isDigits_fractionOf {ds : List Char} (digits : ∀ c ∈ ds, c.isDigit = true) :
    IsDigits (fractionOf ds) := by
  cases ds with
  | nil => exact ⟨List.cons_ne_nil _ _, List.forall_mem_singleton.mpr rfl⟩
  | cons d ds => exact ⟨List.cons_ne_nil _ _, digits⟩

theorem value_append_zero (ds : List Char) : value (ds ++ ['0']) = 10 * value ds := by
  rw [Decimal.value_eq_ofDigitChars, Nat.ofDigitChars_append, Decimal.value_eq_ofDigitChars]
  rfl

theorem value_fractionOf (lead : Char) (ds : List Char) (e : Int) :
    (value (lead :: fractionOf ds) * 10 ^ (e + ds.length - (fractionOf ds).length) : ℚ) =
      value (lead :: ds) * 10 ^ e := by
  cases ds with
  | nil =>
      have tenfold : value (lead :: fractionOf []) = 10 * value [lead] := value_append_zero [lead]
      have exponent : e + ([] : List Char).length - (fractionOf []).length = e - 1 := by
        rw [fractionOf, List.length_nil, List.length_singleton]
        push_cast
        ring
      rw [tenfold, exponent, zpow_sub_one₀ (by norm_num)]
      push_cast
      ring
  | cons d ds => rw [fractionOf, add_sub_cancel_right]

/-- A fraction does not end in a zero unless that is all of it. -/
def IsTrimmed (fraction : List Char) : Prop := fraction = ['0'] ∨ fraction.getLast? ≠ some '0'

theorem isTrimmed_fractionOf {n : Nat} (digit : n % 10 ≠ 0) {lead : Char} {ds : List Char}
    (digits : Nat.toDigits 10 n = lead :: ds) : IsTrimmed (fractionOf ds) := by
  cases ds with
  | nil => exact .inl rfl
  | cons d ds =>
      refine .inr fun last => digit ?_
      obtain ⟨init, form⟩ := List.getLast?_eq_some_iff.mp last
      have tenfold := value_append_zero (lead :: init)
      rw [List.cons_append, ← form, fractionOf, ← digits, Decimal.value_toDigits] at tenfold
      rw [tenfold]
      exact Nat.mul_mod_right 10 _

theorem render_scaled {k c : Nat} (normalized : Normalized k c) (negative : Bool) :
    canonicalDouble (scaled negative k c) =
      String.ofList ((if negative then ['-'] else []) ++ scientific canonicalDoubleLayout
        (leadingDigits .away c (k - 1074)).1 (leadingDigits .away c (k - 1074)).2) := by
  have range (e : Int) : ¬(canonicalDoubleLayout.positionalFrom ≤ e ∧
      e ≤ canonicalDoubleLayout.positionalTo) := by
    have first : canonicalDoubleLayout.positionalFrom = 1 := rfl
    have last : canonicalDoubleLayout.positionalTo = 0 := rfl
    omega
  have zero : canonicalDoubleLayout.signedZero = true := rfl
  rw [canonicalDouble, render, view_scaled normalized]
  dsimp only
  rw [if_neg (range _), zero, Bool.or_true, Bool.and_true]
  rfl

/-- A finite number is written as a digit, a point, digits and an exponent, from which it is read
again. -/
theorem exists_scientificText {k c : Nat} (normalized : Normalized k c) (negative : Bool) :
    ∃ lead fraction exponent, lead.isDigit = true ∧ IsDigits fraction ∧ IsTrimmed fraction ∧
      canonicalDouble (scaled negative k c) = String.ofList ((if negative then ['-'] else []) ++
        scientificText lead fraction exponent) ∧
      ofDecimal negative (value (lead :: fraction)) (exponent - fraction.length) =
        scaled negative k c := by
  have text := render_scaled normalized negative
  rw [leadingDigits] at text
  by_cases zero : c = 0
  · subst zero
    obtain rfl : k = 0 := normalized.leading.resolve_right (by norm_num)
    rw [if_pos rfl, scientific_cons] at text
    have noDigits : IsDigits ['0'] := isDigits_fractionOf (List.forall_mem_nil _)
    exact ⟨'0', ['0'], 0, rfl, noDigits, .inl rfl, text, rfl⟩
  · have leading := normalized.scale_le
    have isShortest := isShortest_shortest (q := k - 1074) .away zero normalized.significand_lt
      (by omega) (by omega)
    rw [if_neg zero] at text
    generalize shortest .away c (k - 1074) = x at text isShortest
    obtain ⟨lead, ds, digits⟩ :=
      List.exists_cons_of_ne_nil (Nat.toDigits_ne_nil (b := 10) (n := x.digits))
    have isDigit (d : Char) (member : d ∈ lead :: ds) : d.isDigit = true :=
      Decimal.isDigit_of_mem_toDigits (digits ▸ member)
    have same := value_fractionOf lead ds x.exponent
    rw [← digits, Decimal.value_toDigits] at same
    have positive : 0 < value (lead :: fractionOf ds) := by
      refine Nat.pos_of_ne_zero fun null => ?_
      rw [null, Nat.cast_zero, zero_mul] at same
      have nonzero := mul_pos (Nat.cast_pos.mpr isShortest.positive) (ten_zpow_pos x.exponent)
      exact nonzero.ne same
    have place : x.exponent + (lead :: ds).length - 1 = x.exponent + ds.length := by
      rw [List.length_cons]
      push_cast
      ring
    dsimp only at text
    rw [digits, scientific_cons, place] at text
    refine ⟨lead, fractionOf ds, _, isDigit lead List.mem_cons_self,
      isDigits_fractionOf fun d member => isDigit d (List.mem_cons_of_mem lead member),
      isTrimmed_fractionOf isShortest.mod_ten_ne_zero digits, text,
      ofDecimal_of_roundsTo normalized zero positive ?_ negative⟩
    rw [same]
    exact isShortest.rounds

/-! ## The text of any datum -/

/-- The canonical texts: a special value, or a digit, a point, digits of which the last is not zero
unless it is the only one, and an exponent. -/
inductive CanonicalForm : String → Prop
  | nan : CanonicalForm "NaN"
  | infinity : CanonicalForm "INF"
  | negativeInfinity : CanonicalForm "-INF"
  | number {sign exponentSign fraction exponent : List Char} {lead : Char}
      (signed : sign = [] ∨ sign = ['-']) (digit : lead.isDigit = true) (digits : IsDigits fraction)
      (trimmed : IsTrimmed fraction) (exponentSigned : exponentSign = [] ∨ exponentSign = ['-'])
      (exponentDigits : IsDigits exponent) :
      CanonicalForm (String.ofList
        (sign ++ lead :: '.' :: (fraction ++ 'E' :: (exponentSign ++ exponent))))

theorem canonicalDouble_of_nan {d : Double} (isNaN : d.view = .nan) :
    canonicalDouble d = "NaN" := by
  rw [canonicalDouble, render, isNaN]
  rfl

theorem canonicalDouble_infinity (negative : Bool) :
    canonicalDouble (infinity negative) = if negative then "-INF" else "INF" := by
  cases negative <;> decide +kernel

theorem exists_sign_toString (v : Int) : ∃ sign digits, (toString v).toList = sign ++ digits ∧
    (sign = [] ∨ sign = ['-']) ∧ IsDigits digits := by
  rw [Decimal.toList_toString]
  cases v with
  | ofNat n => exact ⟨[], _, rfl, .inl rfl, Decimal.isDigits_toDigits n⟩
  | negSucc n => exact ⟨['-'], _, rfl, .inr rfl, Decimal.isDigits_toDigits (n + 1)⟩

theorem canonicalForm (d : Double) : CanonicalForm (canonicalDouble d) := by
  cases d.shape with
  | nan isNaN => exact canonicalDouble_of_nan isNaN ▸ .nan
  | infinity negative =>
      rw [canonicalDouble_infinity]
      cases negative with
      | true => exact .negativeInfinity
      | false => exact .infinity
  | finite negative normalized =>
      obtain ⟨lead, fraction, exponent, digit, digits, trimmed, text, -⟩ :=
        exists_scientificText normalized negative
      obtain ⟨exponentSign, exponentDigits, exponentText, exponentSigned, areDigits⟩ :=
        exists_sign_toString exponent
      have signed : (if negative then ['-'] else []) = [] ∨
          (if negative then ['-'] else []) = ['-'] := by
        cases negative with
        | true => exact .inr rfl
        | false => exact .inl rfl
      rw [text, scientificText, exponentText]
      exact .number signed digit digits trimmed exponentSigned areDigits

theorem readDouble_of_point {text : String} (point : '.' ∈ text.toList) {d : Double}
    (read : read? text = some d) : readDouble text = .ok d := by
  have differs (special : String) (noPoint : '.' ∉ special.toList) : text ≠ special := by
    rintro rfl
    exact noPoint point
  have noInfinity := differs "INF" (by decide +kernel)
  have noPlus := differs "+INF" (by decide +kernel)
  have noMinus := differs "-INF" (by decide +kernel)
  have noNaN := differs "NaN" (by decide +kernel)
  rw [readDouble, decide_eq_false noInfinity, decide_eq_false noPlus, Bool.or_false,
    if_neg Bool.false_ne_true, if_neg noMinus, if_neg noNaN, read]

/-- Data are the same, where all that are not numbers count as one.  Zeros of either sign differ. -/
def Alike (d d' : Double) : Prop := d = d' ∨ d.isNaN = true ∧ d'.isNaN = true

theorem Alike.symm {d d' : Double} : d.Alike d' → d'.Alike d
  | .inl same => .inl same.symm
  | .inr ⟨isNaN, isNaN'⟩ => .inr ⟨isNaN', isNaN⟩

theorem Alike.trans {d d' d'' : Double} (alike : d.Alike d') : d'.Alike d'' → d.Alike d''
  | .inl same => same ▸ alike
  | .inr ⟨isNaN', isNaN''⟩ => .inr ⟨alike.elim (fun same => same ▸ isNaN') And.left, isNaN''⟩

theorem isNaN_iff {d : Double} : d.isNaN = true ↔ d.view = .nan := decide_eq_true_iff

/-- A canonical text is read as the datum that it is written for. -/
theorem readDouble_canonicalDouble (d : Double) :
    ∃ d', readDouble (canonicalDouble d) = .ok d' ∧ d'.Alike d := by
  cases d.shape with
  | nan isNaN =>
      rw [canonicalDouble_of_nan isNaN]
      exact ⟨nan, rfl, .inr ⟨by decide +kernel, isNaN_iff.mpr isNaN⟩⟩
  | infinity negative =>
      rw [canonicalDouble_infinity]
      refine ⟨infinity negative, ?_, .inl rfl⟩
      cases negative <;> rfl
  | finite negative normalized =>
      obtain ⟨lead, fraction, exponent, digit, digits, -, text, back⟩ :=
        exists_scientificText normalized negative
      have read := read?_scientificText digit digits.isDigit exponent negative
      rw [back, ← text] at read
      refine ⟨_, readDouble_of_point ?_ read, .inl rfl⟩
      rw [text, String.toList_ofList, scientificText]
      exact List.mem_append_right _ (List.mem_cons_of_mem _ List.mem_cons_self)

theorem canonicalDouble_inj {d d' : Double} :
    canonicalDouble d = canonicalDouble d' ↔ d.Alike d' := by
  constructor
  · intro same
    obtain ⟨e, read, alike⟩ := readDouble_canonicalDouble d
    obtain ⟨e', read', alike'⟩ := readDouble_canonicalDouble d'
    rw [same, read'] at read
    cases read
    exact alike.symm.trans alike'
  · rintro (rfl | ⟨isNaN, isNaN'⟩)
    · rfl
    · rw [canonicalDouble_of_nan (isNaN_iff.mp isNaN), canonicalDouble_of_nan (isNaN_iff.mp isNaN')]

end Double

/-! ## Literals -/

theorem decode_double (text : String) (prime : Nat) :
    decode Xsd.double text prime =
      (readDouble text).map fun d => .string (canonicalDouble d) := by
  have noBoolean : Xsd.double ≠ Xsd.boolean := by decide +kernel
  have noInteger : IntegerType.ofName? Xsd.double = none := by decide +kernel
  have noDateTime : Xsd.double ≠ Xsd.dateTime := by decide +kernel
  rw [decode, if_neg noBoolean, noInteger]
  dsimp only
  rw [if_neg noDateTime, if_pos rfl]

theorem decode_double_eq_ok_iff {text : String} {prime : Nat} {v : Value} :
    decode Xsd.double text prime = .ok v ↔
      ∃ d, readDouble text = .ok d ∧ .string (canonicalDouble d) = v := by
  rw [decode_double, Except.map_eq_ok_iff]

/-- A floating-point literal is committed as a text of the canonical form, which is committed as
itself; and two literals are committed as one text just if they are read as the same datum. -/
theorem double_literals_canonical (prime : Nat) :
    (∀ text v, decode Xsd.double text prime = .ok v → ∃ s, v = .string s ∧
      decode Xsd.double s prime = .ok (.string s) ∧ Double.CanonicalForm s) ∧
    ∀ text text' s s', decode Xsd.double text prime = .ok (.string s) →
      decode Xsd.double text' prime = .ok (.string s') →
      (s = s' ↔ ∃ d d', readDouble text = .ok d ∧ readDouble text' = .ok d' ∧ d.Alike d') := by
  constructor
  · intro text v decoded
    obtain ⟨d, -, rfl⟩ := decode_double_eq_ok_iff.mp decoded
    obtain ⟨d', read, alike⟩ := Double.readDouble_canonicalDouble d
    refine ⟨_, rfl, decode_double_eq_ok_iff.mpr ⟨d', read, ?_⟩, Double.canonicalForm d⟩
    rw [Double.canonicalDouble_inj.mpr alike]
  · intro text text' s s' decoded decoded'
    obtain ⟨d, read, ⟨⟩⟩ := decode_double_eq_ok_iff.mp decoded
    obtain ⟨d', read', ⟨⟩⟩ := decode_double_eq_ok_iff.mp decoded'
    rw [Double.canonicalDouble_inj]
    constructor
    · exact fun alike => ⟨d, d', read, read', alike⟩
    · rintro ⟨e, e', reads, reads', alike⟩
      rw [Except.ok.inj (read.symm.trans reads), Except.ok.inj (read'.symm.trans reads')]
      exact alike

/-- Two spellings of a number are committed as one text, which is canonical, and the two zeros as
different ones. -/
theorem spellings_canonical :
    let decoded (text : String) := decode Xsd.double text bn254Prime
    decoded "+170000" = .ok (.string "1.7E5") ∧ decoded ".17e6" = .ok (.string "1.7E5") ∧
      (∃ d d', readDouble "+170000" = .ok d ∧ readDouble ".17e6" = .ok d' ∧ d.Alike d') ∧
      decoded "1.7E5" = .ok (.string "1.7E5") ∧ Double.CanonicalForm "1.7E5" ∧
      decoded "0" = .ok (.string "0.0E0") ∧ decoded "-0" = .ok (.string "-0.0E0") ∧
      ¬∃ d d', readDouble "0" = .ok d ∧ readDouble "-0" = .ok d' ∧ d.Alike d' := by
  intro decoded
  obtain ⟨canonical, same⟩ := double_literals_canonical bn254Prime
  have signed : decoded "+170000" = .ok (.string "1.7E5") := by decide +kernel
  have short : decoded ".17e6" = .ok (.string "1.7E5") := by decide +kernel
  have plus : decoded "0" = .ok (.string "0.0E0") := by decide +kernel
  have minus : decoded "-0" = .ok (.string "-0.0E0") := by decide +kernel
  obtain ⟨_, ⟨⟩, again, form⟩ := canonical _ _ signed
  have apart := (same _ _ _ _ plus minus).not.mp (by decide)
  exact ⟨signed, short, (same _ _ _ _ signed short).mp rfl, again, form, plus, minus, apart⟩

end LinkedCommit
