import LinkedCommit.Time.Timestamp
import LinkedCommit.Proofs.Number.Decimal
import LinkedCommit.Proofs.Time.Calendar
/-!
# Timestamps and their texts

The text of a timestamp is read as the timestamp with its nanoseconds carried
(`Timestamp.readLenient?_text`), years of any length included: a second of nanoseconds is written as
the next second, and only after the last second of a minute as a leap second.  What is read from any
text is a leap second only there (`Timestamp.settled_of_readLenient?`).  A number of the text ends
where a character follows that is no digit, so that each step of the reader takes what the writer
has put there.
-/

set_option autoImplicit false

namespace LinkedCommit.Timestamp

def utcDate (t : Timestamp) : Date := Date.ofDayNumber (t.seconds / 86400 + Date.epochDay)

/-- In a year that a calendar date can have, with less than two seconds of nanoseconds. -/
structure IsRepresentable (t : Timestamp) : Prop where
  firstYear_le : firstYear ≤ t.utcDate.year
  le_lastYear : t.utcDate.year ≤ lastYear
  nanos_lt : t.nanos < 2000000000

instance (t : Timestamp) : Decidable t.IsRepresentable :=
  decidable_of_iff (firstYear ≤ t.utcDate.year ∧ t.utcDate.year ≤ lastYear ∧
      t.nanos < 2000000000) ⟨fun ⟨a, b, c⟩ => ⟨a, b, c⟩, fun ⟨a, b, c⟩ => ⟨a, b, c⟩⟩

/-- A second of nanoseconds stands only after the last second of a minute, as a leap second. -/
def Settled (t : Timestamp) : Prop := 1000000000 ≤ t.nanos → t.seconds % 60 = 59

instance (t : Timestamp) : Decidable t.Settled := inferInstanceAs (Decidable (_ → _))

/-- A second of nanoseconds is the next second, if the minute has one. -/
def carried (t : Timestamp) : Timestamp :=
  if t.Settled then t else ⟨t.seconds + 1, t.nanos - 1000000000⟩

theorem carried_of_settled {t : Timestamp} (settled : t.Settled) : t.carried = t := if_pos settled

/-- Carrying stays within the minute. -/
theorem carried_cases (t : Timestamp) :
    t.Settled ∧ t.carried = t ∨
      (1000000000 ≤ t.nanos ∧ t.seconds % 60 ≠ 59) ∧
        t.carried = ⟨t.seconds + 1, t.nanos - 1000000000⟩ := by
  by_cases settled : t.Settled
  · exact Or.inl ⟨settled, if_pos settled⟩
  · refine Or.inr ⟨?_, if_neg settled⟩
    simpa only [Settled, Classical.not_imp] using settled

theorem carried_eq_self_iff {t : Timestamp} : t.carried = t ↔ t.Settled := by
  constructor
  · intro same
    rcases t.carried_cases with ⟨settled, -⟩ | ⟨-, carried⟩
    · exact settled
    · have seconds := congrArg Timestamp.seconds (same.symm.trans carried)
      dsimp only at seconds
      omega
  · exact carried_of_settled

/-! ## Numbers of a text -/

/-- A text that does not go on with a digit. -/
def Stops (cs : List Char) : Prop := ∀ c ∈ cs.head?, c.isDigit = false

theorem takeWhile_isDigit_append {ds rest : List Char} (digits : ∀ c ∈ ds, c.isDigit = true)
    (stops : Stops rest) : (ds ++ rest).takeWhile Char.isDigit = ds := by
  rw [List.takeWhile_append_of_pos digits]
  cases rest with
  | nil => simp
  | cons c rest => simp [stops c rfl]

theorem stops_cons {c : Char} (noDigit : c.isDigit = false) (cs : List Char) : Stops (c :: cs) := by
  rintro other ⟨⟩
  exact noDigit

theorem Stops.take {cs : List Char} (stops : Stops cs) (n : Nat) : Stops (cs.take n) := by
  cases n with
  | zero => exact nofun
  | succ n => cases cs with
    | nil => exact nofun
    | cons c cs => exact stops

theorem padded_eq (width n : Nat) :
    padded width n =
      List.replicate (width - (Nat.toDigits 10 n).length) '0' ++ Nat.toDigits 10 n := rfl

theorem digits?_padded (width n : Nat) : Decimal.digits? (padded width n) = some n :=
  Decimal.digits?_zeros_toDigits _ n

theorem isDigit_of_mem_padded {width n : Nat} {c : Char} (member : c ∈ padded width n) :
    c.isDigit = true :=
  ((Decimal.digits?_eq_some_iff _ _).mp (digits?_padded width n)).2.1 c member

theorem padded_eq_cons (width n : Nat) :
    ∃ c cs, padded width n = c :: cs ∧ c.isDigit = true := by
  obtain ⟨nonempty, digits, -⟩ := (Decimal.digits?_eq_some_iff _ _).mp (digits?_padded width n)
  obtain ⟨c, cs, eq⟩ := List.exists_cons_of_ne_nil nonempty
  exact ⟨c, cs, eq, digits c (eq ▸ List.mem_cons_self)⟩

theorem length_padded {width n : Nat} (positive : 0 < width) (fits : n < 10 ^ width) :
    (padded width n).length = width := by
  have short := (Nat.length_toDigits_le_iff (by decide) positive).mpr fits
  rw [padded_eq, List.length_append, List.length_replicate]
  omega

theorem shortNumber_append {width n : Nat} {ds rest : List Char}
    (read : Decimal.digits? ds = some n) (fits : ds.length ≤ width) (stops : Stops rest) :
    shortNumber width (ds ++ rest) = some (n, rest) := by
  have digits := ((Decimal.digits?_eq_some_iff _ _).mp read).2.1
  have taken : ((ds ++ rest).take width).takeWhile Char.isDigit = ds := by
    rw [List.take_append, List.take_of_length_le fits]
    exact takeWhile_isDigit_append digits (stops.take _)
  rw [shortNumber, taken, read, Option.map_some, List.drop_left]

theorem shortNumber_padded {width n : Nat} {rest : List Char} (positive : 0 < width)
    (fits : n < 10 ^ width) (stops : Stops rest) :
    shortNumber width (padded width n ++ rest) = some (n, rest) :=
  shortNumber_append (digits?_padded width n) (Nat.le_of_eq (length_padded positive fits)) stops

/-! ## White space -/

theorem isBlank_of_isDigit {c : Char} (digit : c.isDigit = true) : Text.isBlank c = false := by
  obtain ⟨low, high⟩ := Decimal.isDigit_iff.mp digit
  simp only [Text.isBlank, Bool.or_eq_false_iff, Bool.and_eq_false_iff, decide_eq_false_iff_not]
  omega

theorem trimStart_cons {c : Char} (visible : Text.isBlank c = false) (cs : List Char) :
    Text.trimStart (c :: cs) = c :: cs := by
  simp [Text.trimStart, visible]

theorem trimStart_padded (width n : Nat) (rest : List Char) :
    Text.trimStart (padded width n ++ rest) = padded width n ++ rest := by
  obtain ⟨c, cs, eq, digit⟩ := padded_eq_cons width n
  rw [eq, List.cons_append, trimStart_cons (isBlank_of_isDigit digit)]

theorem char_trimStart {c : Char} (visible : Text.isBlank c = false) (cs : List Char) :
    char c (Text.trimStart (c :: cs)) = some ((), cs) := by
  rw [trimStart_cons visible, char, if_pos rfl]

theorem shortNumber_trimStart_padded {width n : Nat} {rest : List Char} (positive : 0 < width)
    (fits : n < 10 ^ width) (stops : Stops rest) :
    shortNumber width (Text.trimStart (padded width n ++ rest)) = some (n, rest) := by
  rw [trimStart_padded, shortNumber_padded positive fits stops]

/-! ## Parts of a text -/

theorem trimStart_yearText (y : Int) (rest : List Char) :
    Text.trimStart (yearText y ++ rest) = yearText y ++ rest := by
  unfold yearText
  split
  · exact trimStart_padded 4 _ rest
  · rw [List.cons_append]
    split
    · exact trimStart_cons rfl _
    · exact trimStart_cons rfl _

theorem lenientYear_padded {n : Nat} (fits : n < 10 ^ 4) {rest : List Char} (stops : Stops rest) :
    lenientYear (padded 4 n ++ rest) = some ((n : Int), rest) := by
  obtain ⟨c, cs, eq, digit⟩ := padded_eq_cons 4 n
  have unsigned : lenientYear (padded 4 n ++ rest) =
      (shortNumber 4 (padded 4 n ++ rest)).map fun p => ((p.1 : Int), p.2) := by
    rw [eq, List.cons_append]
    unfold lenientYear
    split
    · rename_i minus
      cases minus
      cases digit
    · rename_i plus
      cases plus
      cases digit
    · rfl
  rw [unsigned, shortNumber_padded (by decide) fits stops]
  rfl

theorem lenientYear_yearText (y : Int) {rest : List Char} (stops : Stops rest) :
    lenientYear (yearText y ++ rest) = some (y, rest) := by
  have long : ∀ n, shortNumber (padded 4 n ++ rest).length (padded 4 n ++ rest) = some (n, rest) :=
    fun n => shortNumber_append (digits?_padded 4 n) (by simp) stops
  unfold yearText
  split
  · rename_i plain
    rw [lenientYear_padded (by omega) stops, Int.toNat_of_nonneg plain.1]
  · rw [List.cons_append]
    split
    · rename_i negative
      rw [lenientYear, long, Option.map_some]
      simp only [Option.some.injEq, Prod.mk.injEq, and_true]
      omega
    · rename_i positive
      rw [lenientYear, long, Option.map_some]
      simp only [Option.some.injEq, Prod.mk.injEq, and_true]
      omega

theorem fraction_padded {width n : Nat} (positive : 0 < width) (short : width ≤ 9)
    (fits : n < 10 ^ width) {rest : List Char} (stops : Stops rest) :
    fraction ('.' :: (padded width n ++ rest)) = some (n * tenTo (9 - width), rest) := by
  have digits : ∀ c ∈ padded width n, c.isDigit = true := fun _ => isDigit_of_mem_padded
  have length := length_padded positive fits
  have after : (padded width n ++ rest).dropWhile Char.isDigit = rest := by
    have parts := List.takeWhile_append_dropWhile (p := Char.isDigit) (l := padded width n ++ rest)
    rw [takeWhile_isDigit_append digits stops] at parts
    exact List.append_cancel_left parts
  have nine : (padded width n).take 9 = padded width n := List.take_of_length_le (by omega)
  rw [fraction, takeWhile_isDigit_append digits stops, nine, digits?_padded, length, after]
  rfl

theorem fraction_fractionText {nanos : Nat} (fits : nanos < 1000000000) {rest : List Char}
    (stops : Stops rest) (plain : ∀ c ∈ rest.head?, c ≠ '.') :
    fraction (fractionText nanos ++ rest) = some (nanos, rest) := by
  have scaled : ∀ width n, 0 < width → width ≤ 9 → n < 10 ^ width →
      fraction ('.' :: padded width n ++ rest) = some (n * tenTo (9 - width), rest) :=
    fun width n positive short fits => fraction_padded positive short fits stops
  unfold fractionText
  split
  · rename_i zero
    rw [List.nil_append, zero]
    unfold fraction
    split
    · exact absurd rfl (plain '.' rfl)
    · rfl
  · split
    · rename_i millis
      have whole : nanos / 1000000 * tenTo (9 - 3) = nanos :=
        Nat.div_mul_cancel (Nat.dvd_of_mod_eq_zero millis)
      rw [scaled 3 _ (by decide) (by decide) (by omega), whole]
    · split
      · rename_i micros
        have whole : nanos / 1000 * tenTo (9 - 6) = nanos :=
          Nat.div_mul_cancel (Nat.dvd_of_mod_eq_zero micros)
        rw [scaled 6 _ (by decide) (by decide) (by omega), whole]
      · have whole : nanos * tenTo (9 - 9) = nanos := Nat.mul_one nanos
        rw [scaled 9 _ (by decide) (by decide) (by omega), whole]

/-! ## Dates and clocks -/

/-- The clock of UTC: a leap second is the second after the last one of its minute. -/
def utcClock (t : Timestamp) : Clock where
  hour := (t.seconds % 86400).toNat / 3600
  minute := (t.seconds % 86400).toNat / 60 % 60
  second := (t.seconds % 86400).toNat % 60 + if 1000000000 ≤ t.nanos then 1 else 0
  nanos := if 1000000000 ≤ t.nanos then t.nanos - 1000000000 else t.nanos

def Clock.daySeconds (c : Clock) : Nat :=
  c.hour * 3600 + c.minute * 60 + if c.second = 60 then 59 else c.second

/-- What the nanoseconds of a timestamp are at a clock reading. -/
def Clock.leapNanos (c : Clock) : Nat := c.nanos + if c.second = 60 then 1000000000 else 0

theorem ofLocal?_eq_some_iff {date : Date} {clock : Clock} {offset : Int} {t : Timestamp} :
    ofLocal? date clock offset = some t ↔
      (date.isValid = true ∧ firstYear ≤ date.year ∧ date.year ≤ lastYear ∧ clock.hour < 24 ∧
        clock.minute < 60 ∧ clock.second ≤ 60) ∧
      (firstYear ≤ t.utcDate.year ∧ t.utcDate.year ≤ lastYear) ∧
      t.seconds = (date.dayNumber - Date.epochDay) * 86400 + clock.daySeconds - offset ∧
      t.nanos = clock.leapNanos := by
  obtain ⟨seconds, nanos⟩ := t
  simp only [ofLocal?, Bool.and_eq_true, decide_eq_true_eq, and_assoc, utcDate]
  have day : ((clock.hour * 3600 + clock.minute * 60 +
      if clock.second = 60 then 59 else clock.second : Nat) : Int) = clock.daySeconds := rfl
  rw [day]
  constructor
  · intro read
    split at read
    · split at read
      · rename_i inDay inYears
        cases read
        exact ⟨inDay.1, inDay.2.1, inDay.2.2.1, inDay.2.2.2.1, inDay.2.2.2.2.1, inDay.2.2.2.2.2,
          inYears.1, inYears.2, rfl, rfl⟩
      · cases read
    · cases read
  · rintro ⟨valid, low, high, hour, minute, second, late, early, rfl, rfl⟩
    rw [if_pos ⟨valid, low, high, hour, minute, second⟩, if_pos ⟨late, early⟩]
    rfl

theorem utcDate_carried (t : Timestamp) : t.carried.utcDate = t.utcDate := by
  rcases t.carried_cases with ⟨-, carried⟩ | ⟨⟨-, inside⟩, carried⟩
  · rw [carried]
  · have sameDay : (t.seconds + 1) / 86400 = t.seconds / 86400 := by omega
    rw [carried, utcDate, utcDate, sameDay]

theorem IsRepresentable.parts_le {t : Timestamp} (representable : t.IsRepresentable) :
    (t.utcDate.month ≤ 12 ∧ t.utcDate.day ≤ 31) ∧ t.utcClock.hour < 24 ∧ t.utcClock.minute < 60 ∧
      t.utcClock.second ≤ 60 ∧ t.utcClock.nanos < 1000000000 := by
  have small := representable.nanos_lt
  refine ⟨Date.month_day_le_of_isValid (Date.isValid_ofDayNumber _), ?_, ?_, ?_, ?_⟩
  · dsimp only [utcClock]
    omega
  · dsimp only [utcClock]
    omega
  · dsimp only [utcClock]
    split <;> omega
  · dsimp only [utcClock]
    split <;> omega

/-- The date and clock of a timestamp are those of the timestamp carried. -/
theorem ofLocal?_utc {t : Timestamp} (representable : t.IsRepresentable) :
    ofLocal? t.utcDate t.utcClock 0 = some t.carried := by
  obtain ⟨-, hour, minute, second, -⟩ := representable.parts_le
  obtain ⟨late, early, -⟩ := representable
  have valid : t.utcDate.isValid = true := Date.isValid_ofDayNumber _
  have number : t.utcDate.dayNumber = t.seconds / 86400 + Date.epochDay :=
    Date.dayNumber_ofDayNumber _
  refine ofLocal?_eq_some_iff.mpr ⟨⟨valid, late, early, hour, minute, second⟩, ?_, ?_, ?_⟩
  · rw [utcDate_carried]
    exact ⟨late, early⟩
  · rw [number]
    dsimp only [Clock.daySeconds, utcClock]
    rcases t.carried_cases with ⟨settled, carried⟩ | ⟨⟨many, inside⟩, carried⟩
    · rw [Settled] at settled
      rw [carried]
      split <;> split <;> omega
    · rw [carried]
      dsimp only
      split <;> split <;> omega
  · dsimp only [Clock.leapNanos, utcClock]
    rcases t.carried_cases with ⟨settled, carried⟩ | ⟨⟨many, inside⟩, carried⟩
    · rw [Settled] at settled
      rw [carried]
      split <;> split <;> omega
    · rw [carried]
      dsimp only
      split <;> split <;> omega

theorem text_zulu (t : Timestamp) :
    (t.text .zulu).toList = yearText t.utcDate.year ++ ('-' :: (padded 2 t.utcDate.month ++
      ('-' :: (padded 2 t.utcDate.day ++ ('T' :: (padded 2 t.utcClock.hour ++
      (':' :: (padded 2 t.utcClock.minute ++ (':' :: (padded 2 t.utcClock.second ++
      (fractionText t.utcClock.nanos ++ ['Z']))))))))))) := by
  rw [text, String.toList_ofList]
  simp only [List.append_assoc, List.cons_append]
  rfl

theorem stops_fractionText {rest : List Char} (stops : Stops rest) (nanos : Nat) :
    Stops (fractionText nanos ++ rest) := by
  unfold fractionText
  split
  · exact stops
  · split
    · exact stops_cons rfl _
    · split <;> exact stops_cons rfl _

theorem readLenient?_text {t : Timestamp} (representable : t.IsRepresentable) :
    readLenient? (t.text .zulu) = some t.carried := by
  obtain ⟨date, hour, minute, second, nanos⟩ := representable.parts_le
  have number : ∀ {n : Nat} {c : Char} {cs : List Char}, n < 10 ^ 2 → c.isDigit = false →
      shortNumber 2 (Text.trimStart (padded 2 n ++ c :: cs)) = some (n, c :: cs) :=
    fun fits noDigit => shortNumber_trimStart_padded (by decide) fits (stops_cons noDigit _)
  have seconds : shortNumber 2 (Text.trimStart (padded 2 t.utcClock.second ++
      (fractionText t.utcClock.nanos ++ ['Z']))) =
        some (t.utcClock.second, fractionText t.utcClock.nanos ++ ['Z']) :=
    shortNumber_trimStart_padded (by decide) (by omega) (stops_fractionText (stops_cons rfl _) _)
  have letter : ∀ cs, separator ('T' :: cs) = some ((), cs) := fun _ => rfl
  simp only [readLenient?, text_zulu, Option.bind_eq_bind]
  -- The date, then the clock, then the fraction; no part starts with what the reader skips.
  rw [trimStart_yearText, lenientYear_yearText _ (stops_cons rfl _), Option.bind_some,
    char_trimStart rfl, Option.bind_some, number (by omega) rfl, Option.bind_some,
    char_trimStart rfl, Option.bind_some, number (by omega) rfl, Option.bind_some]
  rw [letter, Option.bind_some, number (by omega) rfl, Option.bind_some,
    char_trimStart rfl, Option.bind_some, number (by omega) rfl, Option.bind_some,
    char_trimStart rfl, Option.bind_some, seconds, Option.bind_some]
  rw [fraction_fractionText nanos (stops_cons rfl _) (by rintro c ⟨⟩; decide), Option.bind_some]
  exact ofLocal?_utc representable

/-! ## What is read -/

theorem fraction_lt {cs rest : List Char} {nanos : Nat} (read : fraction cs = some (nanos, rest)) :
    nanos < 1000000000 := by
  unfold fraction at read
  split at read
  · rename_i cs
    obtain ⟨n, found, same⟩ := Option.map_eq_some_iff.mp read
    cases same
    obtain ⟨-, digits, rfl⟩ := (Decimal.digits?_eq_some_iff _ _).mp found
    have short : ((cs.takeWhile Char.isDigit).take 9).length ≤ 9 := List.length_take_le _ _
    calc Decimal.value ((cs.takeWhile Char.isDigit).take 9) * tenTo _
        < 10 ^ ((cs.takeWhile Char.isDigit).take 9).length * tenTo _ :=
          Nat.mul_lt_mul_of_pos_right (Decimal.value_lt digits) (Nat.pow_pos (by decide))
      _ = 10 ^ 9 := by
          rw [tenTo, Nat.pow_eq, ← Nat.pow_add, Nat.add_sub_cancel' short]
  · cases read
    decide

theorem zone_mod {colon : Step Unit} {cs rest : List Char} {offset : Int}
    (read : zone colon cs = some (offset, rest)) : offset % 60 = 0 := by
  unfold zone at read
  split at read
  · cases read
  · split at read
    · cases read
      rfl
    · split at read
      · simp only [Option.bind_eq_bind, Option.bind_eq_some_iff] at read
        obtain ⟨⟨hours, _⟩, -, -, -, ⟨minutes, _⟩, -, told⟩ := read
        split at told
        · cases told
        · cases told
          split <;> omega
      · cases read

theorem lenientZone_mod {cs rest : List Char} {offset : Int}
    (read : lenientZone cs = some (offset, rest)) : offset % 60 = 0 := by
  unfold lenientZone at read
  split at read
  · cases read
    rfl
  · exact zone_mod read

theorem settled_of_ofLocal? {date : Date} {clock : Clock} {offset : Int} {t : Timestamp}
    (read : ofLocal? date clock offset = some t) (nanos : clock.nanos < 1000000000)
    (minutes : offset % 60 = 0) : t.IsRepresentable ∧ t.Settled := by
  obtain ⟨⟨-, -, -, -, -, second⟩, ⟨late, early⟩, seconds, total⟩ := ofLocal?_eq_some_iff.mp read
  rw [Clock.leapNanos] at total
  rw [Clock.daySeconds] at seconds
  refine ⟨⟨late, early, ?_⟩, fun leap => ?_⟩
  · split at total <;> omega
  · split at total
    · rename_i last
      rw [if_pos last] at seconds
      omega
    · omega

/-- Leap seconds are only read after the last second of a minute. -/
theorem settled_of_readLenient? {s : String} {t : Timestamp} (read : readLenient? s = some t) :
    t.IsRepresentable ∧ t.Settled := by
  simp only [readLenient?, Option.bind_eq_bind, Option.bind_eq_some_iff] at read
  obtain ⟨_, -, _, -, _, -, _, -, _, -, _, -, _, -, _, -, _, -, _, -, _, -, ⟨nanos, _⟩, fraction,
    ⟨offset, _⟩, zone, told⟩ := read
  split at told
  · exact settled_of_ofLocal? told (fraction_lt fraction) (lenientZone_mod zone)
  · cases told

end LinkedCommit.Timestamp
