import EntityQuery.Proofs.Calendar
import EntityQuery.Proofs.Readers
import Mathlib.Algebra.Ring.Nat
import Mathlib.Data.List.TakeWhile

/-!
# Reading instants as they are written

The text of an instant is read back as the instant when its year has four digits
(`Instant.ofLenientText?_text`). Each field is written with a fixed number of digits, and a reader
of at most as many digits takes just these (`TextReader.digitsUpTo_padded`), so the lenient reader
goes over the text field by field (`TextReader.lenient_text`). What it finds is the clock of the
instant, and a clock in UTC shows one instant only (`Instant.ofClock?_toClock`); the second before a
leap second and the leap second are told apart by the second that is shown.
-/

namespace EntityQuery

/-! ## Numbers of a fixed number of digits -/

namespace Clock

variable {digits n : Nat}

/-- A number that has no more digits is written with as many as are asked for. -/
theorem length_padded (hpos : 0 < digits) (h : n < 10 ^ digits) :
    (padded digits n).length = digits := by
  have hle : (Nat.toDigits 10 n).length ≤ digits :=
    (Nat.length_toDigits_le_iff (by decide) hpos).mpr h
  simp only [padded, List.length_append, List.length_replicate]
  omega

/-- Numbers are written in digits. -/
theorem isDigit_of_mem_padded {c : Char} (h : c ∈ padded digits n) : c.isDigit = true := by
  rcases List.mem_append.mp h with h | h
  · rw [List.eq_of_mem_replicate h]
    rfl
  · exact Nat.isDigit_of_mem_toDigits (by decide) (by decide) h

/-- Zeros in front do not change a number. -/
theorem ofDigitChars_padded (digits n : Nat) : Nat.ofDigitChars 10 (padded digits n) 0 = n := by
  simp only [padded, Nat.ofDigitChars_append, Nat.ofDigitChars_replicate_zero, Nat.mul_zero]
  exact Nat.ofDigitChars_ten_toDigits

/-- A number is written with one digit at least. -/
theorem padded_ne_nil (digits n : Nat) : padded digits n ≠ [] := by
  simp [padded, Nat.toDigits_ne_nil]

end Clock

namespace Clock

/-- A text writes the nanoseconds of a second as a fraction: nothing when there are none, or a point
and at most nine digits, which are the nanoseconds with zeros behind them up to nine. -/
inductive IsFraction : Nat → List Char → Prop
  | whole : IsFraction 0 []
  | digits {nanos : Nat} {ds : List Char} (hdigits : ∀ c ∈ ds, c.isDigit = true) (hne : ds ≠ [])
      (hmost : ds.length ≤ 9)
      (hvalue : Nat.ofDigitChars 10 (ds ++ List.replicate (9 - ds.length) '0') 0 = nanos) :
      IsFraction nanos ('.' :: ds)

/-- The shortest of none, three, six and nine digits are a fraction. -/
theorem isFraction_fractionText {nanos : Nat} (h : nanos < 1000000000) :
    IsFraction nanos (fractionText nanos) := by
  have hwidth : ∀ digits n, 0 < digits → digits ≤ 9 → n < 10 ^ digits →
      IsFraction (n * 10 ^ (9 - digits)) ('.' :: padded digits n) := by
    intro digits n hpos hle hn
    have hlength := length_padded hpos hn
    refine .digits (fun c hc => isDigit_of_mem_padded hc) (padded_ne_nil digits n) (by omega) ?_
    rw [hlength, Nat.ofDigitChars_append, Nat.ofDigitChars_replicate_zero, ofDigitChars_padded]
    exact Nat.mul_comm _ _
  unfold fractionText
  split
  next hzero =>
    subst hzero
    exact .whole
  next =>
    split
    next hmilli =>
      have hnanos : nanos / 1000000 * 10 ^ (9 - 3) = nanos := by omega
      have hthree := hwidth 3 (nanos / 1000000) (by decide) (by decide) (by omega)
      rwa [hnanos] at hthree
    next =>
      split
      next hmicro =>
        have hnanos : nanos / 1000 * 10 ^ (9 - 6) = nanos := by omega
        have hsix := hwidth 6 (nanos / 1000) (by decide) (by decide) (by omega)
        rwa [hnanos] at hsix
      next =>
        have hnanos : nanos * 10 ^ (9 - 9) = nanos := by omega
        have hnine := hwidth 9 nanos (by decide) (by decide) h
        rwa [hnanos] at hnine

end Clock

/-! ## Reading the fields -/

namespace TextReader

variable {α β : Type} {cs rest : List Char} {n : Nat}

/-- A sequence of readers goes on where its first part has stopped. -/
theorem bind_of_eq_some {x : TextReader α} {f : α → TextReader β} {a : α}
    (h : x cs = some (a, rest)) : (x >>= f) cs = f a rest := by
  show (x cs).bind (fun p => f p.1 p.2) = _
  rw [h]
  rfl

/-- No digit is blank. -/
theorem isBlank_of_isDigit {c : Char} (h : c.isDigit = true) : Text.isBlank c = false := by
  obtain ⟨hleast, hmost⟩ := Char.isDigit_iff_toNat.mp h
  have hzero : '0'.toNat = 48 := rfl
  have hnine : '9'.toNat = 57 := rfl
  simp only [Text.isBlank, Bool.or_eq_false_iff, Bool.and_eq_false_iff, decide_eq_false_iff_not,
    beq_eq_false_iff_ne]
  omega

/-- There are no blanks to read over before a character that is not blank. -/
theorem blanks_cons {c : Char} (h : Text.isBlank c = false) :
    blanks (c :: cs) = some ((), c :: cs) := by
  simp [blanks, Text.trimStart, h]

/-- There are no blanks to read over before a number. -/
theorem blanks_padded (digits n : Nat) (rest : List Char) :
    blanks (Clock.padded digits n ++ rest) = some ((), Clock.padded digits n ++ rest) := by
  obtain ⟨c, ds, hds⟩ := List.exists_cons_of_ne_nil (Clock.padded_ne_nil digits n)
  have hdigit : c.isDigit = true := Clock.isDigit_of_mem_padded (hds ▸ List.mem_cons_self)
  rw [hds, List.cons_append]
  exact blanks_cons (isBlank_of_isDigit hdigit)

/-- An expected character is read. -/
theorem char_cons (c : Char) (cs : List Char) : char c (c :: cs) = some ((), cs) := by
  simp [char]

/-- One of the expected characters is read. -/
theorem oneOf_cons {c : Char} {expected : List Char} (h : c ∈ expected) (cs : List Char) :
    oneOf expected (c :: cs) = some (c, cs) := by
  simp [oneOf, h]

/-- A number is read with as many digits as it is written with. -/
theorem digitsUpTo_padded {digits : Nat} (hpos : 0 < digits) (h : n < 10 ^ digits)
    (rest : List Char) : digitsUpTo digits (Clock.padded digits n ++ rest) = some (n, rest) := by
  have hlength := Clock.length_padded hpos h
  have htake : (Clock.padded digits n ++ rest).take digits = Clock.padded digits n := by
    rw [List.take_append_of_le_length (by omega), List.take_of_length_le (by omega)]
  have hdigits : (Clock.padded digits n).takeWhile Char.isDigit = Clock.padded digits n :=
    List.takeWhile_eq_self_iff.mpr fun c hc => Clock.isDigit_of_mem_padded hc
  have hdrop : (Clock.padded digits n ++ rest).drop (Clock.padded digits n).length = rest :=
    List.drop_left
  simp only [digitsUpTo, htake, hdigits, hdrop, Clock.padded_ne_nil, if_false,
    Clock.ofDigitChars_padded]

/-- A field of two digits is read. -/
theorem field_padded (h : n < 100) (rest : List Char) :
    field (Clock.padded 2 n ++ rest) = some (n, rest) := by
  unfold field
  rw [bind_of_eq_some (blanks_padded 2 n rest)]
  exact digitsUpTo_padded (by decide) h rest

/-- A year of four digits is read. -/
theorem year_yearText {y : Int} (h : 0 ≤ y ∧ y ≤ 9999) (rest : List Char) :
    year (Clock.yearText y ++ rest) = some (y, rest) := by
  have htext : Clock.yearText y = Clock.padded 4 y.toNat := if_pos h
  obtain ⟨c, ds, hds⟩ := List.exists_cons_of_ne_nil (Clock.padded_ne_nil 4 y.toNat)
  have hdigit : c.isDigit = true := Clock.isDigit_of_mem_padded (hds ▸ List.mem_cons_self)
  -- A year of four digits begins with a digit, and so with no sign.
  have hsign : ∀ sign, sign.isDigit = false →
      startsWith sign (Clock.padded 4 y.toNat ++ rest) =
        some (false, Clock.padded 4 y.toNat ++ rest) := by
    intro sign hsign
    have hne : c ≠ sign := by
      rintro rfl
      rw [hdigit] at hsign
      cases hsign
    simp [startsWith, hds, hne]
  have hnumber : digitsUpTo 4 (Clock.padded 4 y.toNat ++ rest) = some (y.toNat, rest) :=
    digitsUpTo_padded (by decide) (by omega) rest
  rw [htext]
  unfold year
  rw [bind_of_eq_some (blanks_padded 4 _ rest), bind_of_eq_some (hsign '-' rfl)]
  simp only [Bool.false_eq_true, if_false]
  rw [bind_of_eq_some (hsign '+' rfl)]
  simp only [Bool.false_eq_true, if_false]
  rw [bind_of_eq_some hnumber]
  show some ((y.toNat : Int), rest) = _
  rw [Int.toNat_of_nonneg h.1]

/-- A fraction of a second is read where no digit follows, and no point after none. -/
theorem fraction_of_isFraction {nanos : Nat} {text : List Char} (h : Clock.IsFraction nanos text)
    (hrest : ∀ c ∈ rest.head?, c.isDigit = false ∧ c ≠ '.') :
    fraction (text ++ rest) = some (nanos, rest) := by
  cases h with
  | whole =>
    cases rest with
    | nil => rfl
    | cons c rest =>
      have hpoint : c ≠ '.' := (hrest c rfl).2
      rw [List.nil_append, fraction]
      rintro cs heq
      exact hpoint (List.cons.inj heq).1
  | @digits _ ds hdigits hne hmost hvalue =>
    have htake : (ds ++ rest).takeWhile Char.isDigit = ds := by
      rw [List.takeWhile_append_of_pos hdigits]
      cases rest with
      | nil => simp
      | cons c rest => simp [(hrest c rfl).1]
    have hkept : ds.take 9 = ds := List.take_of_length_le hmost
    have hdrop : (ds ++ rest).drop ds.length = rest := List.drop_left
    have hscaled : Nat.ofDigitChars 10 ds 0 * Nat.pow 10 (9 - ds.length) = nanos := by
      rw [← hvalue, Nat.ofDigitChars_append, Nat.ofDigitChars_replicate_zero]
      exact Nat.mul_comm _ _
    simp only [List.cons_append, fraction, htake, hne, if_false, hkept, hdrop, hscaled]

/-- The text of a clock in UTC is read as what the clock shows. -/
theorem lenient_text {c : Clock} (hyear : 0 ≤ c.date.year ∧ c.date.year ≤ 9999)
    (hmonth : c.date.month < 100) (hday : c.date.day < 100) (hhour : c.hour < 100)
    (hminute : c.minute < 100) (hsecond : c.second < 100) (hnanos : c.nanos < 1000000000) :
    lenient.whole (c.text ++ ['Z']) = some (c, 0) := by
  have hfraction : fraction (Clock.fractionText c.nanos ++ ['Z']) = some (c.nanos, ['Z']) := by
    refine fraction_of_isFraction (Clock.isFraction_fractionText hnanos) fun z hz => ?_
    obtain rfl : 'Z' = z := Option.some.inj hz
    decide
  have htext : c.text ++ ['Z'] = Clock.yearText c.date.year ++ '-' ::
      (Clock.padded 2 c.date.month ++ '-' :: (Clock.padded 2 c.date.day ++ 'T' ::
        (Clock.padded 2 c.hour ++ ':' :: (Clock.padded 2 c.minute ++ ':' ::
          (Clock.padded 2 c.second ++ (Clock.fractionText c.nanos ++ 'Z' :: [])))))) := by
    simp [Clock.text, Clock.dateText]
  rw [htext, whole_eq_some]
  unfold lenient
  rw [bind_of_eq_some (year_yearText hyear _), bind_of_eq_some (blanks_cons rfl),
    bind_of_eq_some (char_cons '-' _), bind_of_eq_some (field_padded hmonth _),
    bind_of_eq_some (blanks_cons rfl), bind_of_eq_some (char_cons '-' _),
    bind_of_eq_some (field_padded hday _), bind_of_eq_some (oneOf_cons (by simp) _),
    bind_of_eq_some (field_padded hhour _), bind_of_eq_some (blanks_cons rfl),
    bind_of_eq_some (char_cons ':' _), bind_of_eq_some (field_padded hminute _),
    bind_of_eq_some (blanks_cons rfl), bind_of_eq_some (char_cons ':' _),
    bind_of_eq_some (field_padded hsecond _), bind_of_eq_some hfraction,
    bind_of_eq_some (blanks_cons rfl)]
  rfl

end TextReader

/-! ## Clocks of instants -/

namespace Instant

variable {t : Instant}

/-- The fields of a clock in UTC stay within the bounds of a clock. -/
theorem toClock_bounds (t : Instant) :
    t.toClock.hour ≤ 23 ∧ t.toClock.minute ≤ 59 ∧ t.toClock.second ≤ 60 ∧
      t.toClock.nanos < 1000000000 := by
  have hnanos := t.nanos_lt
  refine ⟨?_, ?_, ?_, ?_⟩ <;> dsimp only [toClock]
  · omega
  · omega
  · -- Only in a leap second, which ends a minute, is a second added.
    omega
  · omega

/-- The seconds of a clock in UTC are those of the instant. -/
theorem seconds_toClock (t : Instant) : t.toClock.seconds = t.seconds := by
  have hnanos := t.nanos_lt
  have hdays : t.toClock.date.toDays = t.seconds / 86400 := Date.toDays_ofDays _
  unfold Clock.seconds
  rw [hdays]
  dsimp only [toClock]
  omega

/-- The nanoseconds of a clock in UTC are those of the instant, less a second in a leap second. -/
theorem nanos_toClock (t : Instant) :
    (if t.toClock.second = 60 then t.toClock.nanos + 1000000000 else t.toClock.nanos) =
      t.nanos := by
  have hnanos := t.nanos_lt
  by_cases hleap : t.toClock.second = 60
  · rw [if_pos hleap]
    dsimp only [toClock] at hleap ⊢
    omega
  · rw [if_neg hleap]
    dsimp only [toClock] at hleap ⊢
    omega

/-- The instant some minutes later. A leap second stays one. -/
def after (t : Instant) (minutes : Int) : Instant :=
  ⟨t.seconds + 60 * minutes, t.nanos, by
    have h := t.nanos_lt
    omega⟩

/-- Minutes that pass one after the other are added. -/
theorem after_add (t : Instant) (minutes more : Int) :
    t.after (minutes + more) = (t.after minutes).after more := by
  simp only [after, mk.injEq, and_true]
  omega

/-- On the first day that is counted, a clock in UTC shows the first of January 1970. -/
theorem toClock_date_of_epoch (hfirst : 0 ≤ t.seconds) (hlast : t.seconds < 86400) :
    t.toClock.date = ⟨1970, 1, 1⟩ := by
  have hday : t.seconds / 86400 = 0 := by omega
  show Date.ofDays (t.seconds / 86400) = _
  rw [hday]
  rfl

/-- A day later a clock shows the next date, and the same time of day. -/
theorem toClock_after_day (t : Instant) :
    (t.after 1440).toClock = { t.toClock with date := t.toClock.date.next } := by
  have hday : (t.seconds + 60 * 1440) / 86400 = t.seconds / 86400 + 1 := by omega
  have htime : (t.seconds + 60 * 1440) % 86400 = t.seconds % 86400 := by omega
  unfold toClock after
  dsimp only
  rw [hday, htime, Date.ofDays_next]

/-- What a clock shows that is some minutes ahead of UTC, by less than a day, and shows a year of
four digits, it shows at one instant only. -/
theorem ofClock?_after {offset : Int} (hoffset : -1440 < offset ∧ offset < 1440)
    (hyear : 0 ≤ (t.after offset).toClock.date.year ∧
      (t.after offset).toClock.date.year ≤ 9999) :
    ofClock? (t.after offset).toClock offset = some t := by
  obtain ⟨hhour, hminute, hsecond, hnanos⟩ := (t.after offset).toClock_bounds
  have hdate : (t.after offset).toClock.date.isReal = true := Date.isReal_ofDays _
  have hreal : (t.after offset).toClock.isReal = true := by
    have hfirst : Clock.firstYear ≤ (t.after offset).toClock.date.year := by
      unfold Clock.firstYear
      omega
    have hlast : (t.after offset).toClock.date.year ≤ Clock.lastYear := by
      unfold Clock.lastYear
      omega
    simp [Clock.isReal, hdate, hfirst, hlast, hhour, hminute, hsecond, hnanos]
  have hdays : (t.after offset).toClock.date.toDays = (t.seconds + 60 * offset) / 86400 :=
    Date.toDays_ofDays _
  have hbounds := Date.toDays_bounds hdate hyear
  have hfirst : firstSecond ≤ t.seconds := by
    have hvalue : firstSecond = -8334601228800 := by decide
    omega
  have hend : t.seconds < endSecond := by
    have hvalue : endSecond = 8210266876800 := by decide
    omega
  have hseconds : (t.after offset).toClock.seconds - 60 * offset = t.seconds := by
    rw [seconds_toClock]
    exact Int.add_sub_cancel t.seconds (60 * offset)
  have hsame : (if (t.after offset).toClock.second = 60 then
      (t.after offset).toClock.nanos + 1000000000 else (t.after offset).toClock.nanos) = t.nanos :=
    (t.after offset).nanos_toClock
  unfold ofClock?
  simp only [hseconds, hsame]
  rw [if_pos ⟨hreal, hfirst, hend⟩, dif_pos t.nanos_lt]

/-- No minutes later it is the same instant. -/
theorem after_zero (t : Instant) : t.after 0 = t := by
  simp [after]

/-- A clock in UTC that shows a year of four digits shows one instant only. -/
theorem ofClock?_toClock (hyear : 0 ≤ t.toClock.date.year ∧ t.toClock.date.year ≤ 9999) :
    ofClock? t.toClock 0 = some t := by
  have hnone : -1440 < (0 : Int) ∧ (0 : Int) < 1440 := by decide
  have hshown := ofClock?_after (t := t) hnone
  rw [after_zero] at hshown
  exact hshown hyear

/-- The text of an instant whose year has four digits is read back as the instant. -/
theorem ofLenientText?_text (hyear : 0 ≤ t.toClock.date.year ∧ t.toClock.date.year ≤ 9999) :
    ofLenientText? t.text = some t := by
  obtain ⟨hhour, hminute, hsecond, hnanos⟩ := t.toClock_bounds
  have hdate : t.toClock.date.isReal = true := Date.isReal_ofDays _
  obtain ⟨-, hmonth, -, hday⟩ := Date.bounds_of_isReal hdate
  unfold ofLenientText? text
  rw [TextReader.lenient_text hyear (by omega) (by omega) (by omega) (by omega) (by omega) hnanos]
  exact ofClock?_toClock hyear

/-- A leap second is written as the sixtieth second. -/
example : text ⟨1483228799, 1500000000, by decide⟩ = "2016-12-31T23:59:60.500Z".toList := by
  decide +kernel

end Instant

end EntityQuery
