import LinkedCommit.Proofs.Time.Text
/-!
# Strict reading of timestamps

RFC 3339 has years of four digits and no signs.  The text of a timestamp in one of these years is
read as it is otherwise (`Timestamp.read?_text`); the text of any other starts with a sign, and is
not read at all (`Timestamp.read?_text_eq_none`).  No text of a timestamp is taken for a bare date,
as it is longer (`Timestamp.isPlainDate_text`).
-/

set_option autoImplicit false

namespace LinkedCommit.Timestamp

def HasPlainYear (t : Timestamp) : Prop := 0 ≤ t.utcDate.year ∧ t.utcDate.year ≤ 9999

instance (t : Timestamp) : Decidable t.HasPlainYear := inferInstanceAs (Decidable (_ ∧ _))

/-! ## Numbers of a fixed width -/

theorem fixedNumber_padded {width n : Nat} (positive : 0 < width) (fits : n < 10 ^ width)
    (rest : List Char) : fixedNumber width (padded width n ++ rest) = some (n, rest) := by
  have length := length_padded positive fits
  rw [fixedNumber, List.take_left' length, List.drop_left' length, if_pos length, digits?_padded,
    Option.map_some]

theorem fixedNumber_eq_none {width : Nat} (positive : 0 < width) {c : Char}
    (noDigit : c.isDigit = false) (cs : List Char) : fixedNumber width (c :: cs) = none := by
  have unread : Decimal.digits? ((c :: cs).take width) = none := by
    refine Option.eq_none_iff_forall_ne_some.mpr fun n read => ?_
    have member : c ∈ (c :: cs).take width := by
      obtain ⟨more, rfl⟩ := Nat.exists_eq_add_one.mpr positive
      exact List.mem_cons_self
    rw [((Decimal.digits?_eq_some_iff _ _).mp read).2.1 c member] at noDigit
    cases noDigit
  simp only [fixedNumber, unread, Option.map_none, ite_self]

/-! ## Texts -/

theorem read?_text {t : Timestamp} (representable : t.IsRepresentable) (plain : t.HasPlainYear) :
    read? (t.text .zulu) = some t.carried := by
  obtain ⟨date, hour, minute, second, nanos⟩ := representable.parts_le
  have year : yearText t.utcDate.year = padded 4 t.utcDate.year.toNat := if_pos plain
  have number : ∀ {n : Nat} {cs : List Char}, n < 10 ^ 2 →
      fixedNumber 2 (padded 2 n ++ cs) = some (n, cs) :=
    fun fits => fixedNumber_padded (by decide) fits _
  have character : ∀ (c : Char) (cs : List Char), char c (c :: cs) = some ((), cs) :=
    fun _ _ => if_pos rfl
  have letter : ∀ cs, separator ('T' :: cs) = some ((), cs) := fun _ => rfl
  have zulu : zone (char ':') ['Z'] = some (0, []) := rfl
  have bound := plain.2
  simp only [read?, text_zulu, Option.bind_eq_bind]
  rw [year, fixedNumber_padded (by decide) (by omega), Option.bind_some, character,
    Option.bind_some, number (by omega), Option.bind_some, character, Option.bind_some,
    number (by omega), Option.bind_some]
  rw [letter, Option.bind_some, number (by omega), Option.bind_some, character, Option.bind_some,
    number (by omega), Option.bind_some, character, Option.bind_some, number (by omega),
    Option.bind_some]
  rw [fraction_fractionText nanos (stops_cons rfl _) (by rintro c ⟨⟩; decide), Option.bind_some,
    zulu, Option.bind_some, List.isEmpty_nil, if_pos rfl, Int.toNat_of_nonneg plain.1]
  exact ofLocal?_utc representable

theorem read?_text_eq_none {t : Timestamp} (signed : ¬ t.HasPlainYear) :
    read? (t.text .zulu) = none := by
  have unread : ∀ rest, fixedNumber 4 (yearText t.utcDate.year ++ rest) = none := by
    intro rest
    have year : yearText t.utcDate.year =
        (if t.utcDate.year < 0 then '-' else '+') :: padded 4 t.utcDate.year.natAbs := if_neg signed
    rw [year, List.cons_append]
    split <;> exact fixedNumber_eq_none (by decide) rfl _
  rw [read?, text_zulu, unread]
  rfl

/-! ## Bare dates -/

theorem length_of_isPlainDate {s : String} (plain : isPlainDate s = true) : s.toList.length = 10 := by
  unfold isPlainDate at plain
  split at plain
  · rename_i characters
    rw [characters]
    rfl
  · cases plain

theorem le_length_padded (width n : Nat) : width ≤ (padded width n).length := by
  rw [padded_eq, List.length_append, List.length_replicate]
  omega

theorem le_length_yearText (y : Int) : 4 ≤ (yearText y).length := by
  unfold yearText
  split
  · exact le_length_padded 4 _
  · exact Nat.le_succ_of_le (le_length_padded 4 _)

theorem isPlainDate_text (t : Timestamp) : isPlainDate (t.text .zulu) = false := by
  rw [Bool.eq_false_iff]
  intro plain
  have length := length_of_isPlainDate plain
  have year := le_length_yearText t.utcDate.year
  have month := le_length_padded 2 t.utcDate.month
  have day := le_length_padded 2 t.utcDate.day
  rw [text_zulu] at length
  simp only [List.length_append, List.length_cons] at length
  omega

end LinkedCommit.Timestamp
