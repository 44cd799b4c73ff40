import EntityQuery.Proofs.Binding
import EntityQuery.Proofs.Instants

/-!
# Texts of one instant

An instant has many texts: what a clock shows that is some minutes ahead of UTC, followed by the
offset (`Clock.IsOffset`), with any fraction that gives its nanoseconds (`Clock.IsFraction`), and,
for the clock in UTC, the same without an offset, down to the minute or to the day where nothing is
lost by it. Each is read as the instant (`Value.dateTime_texts_denote`). A form that asks for more
than a text has comes to its end and leaves the text to the next form, so no form takes a text that
is meant for another.
-/

namespace EntityQuery

/-! ## Texts -/

namespace Clock

/-- A date and a time of day to the second, with the text of a fraction. -/
def secondText (c : Clock) (fraction : List Char) : List Char :=
  dateText c.date ++
    'T' :: (padded 2 c.hour ++ ':' :: (padded 2 c.minute ++ ':' :: (padded 2 c.second ++ fraction)))

/-- A date and a time of day to the minute. -/
def minuteText (c : Clock) : List Char :=
  dateText c.date ++ 'T' :: (padded 2 c.hour ++ ':' :: padded 2 c.minute)

/-- A text writes an offset from UTC in minutes: a sign, hours and minutes, or `Z` for none. -/
inductive IsOffset : Int → List Char → Prop
  | utc : IsOffset 0 ['Z']
  | ahead {h m : Nat} (hh : h ≤ 23) (hm : m ≤ 59) :
      IsOffset (60 * h + m) ('+' :: (padded 2 h ++ ':' :: padded 2 m))
  | behind {h m : Nat} (hh : h ≤ 23) (hm : m ≤ 59) :
      IsOffset (-(60 * h + m)) ('-' :: (padded 2 h ++ ':' :: padded 2 m))

/-- The offsets that can be written are those of less than a day. -/
theorem exists_isOffset_iff {offset : Int} :
    (∃ text, IsOffset offset text) ↔ -1440 < offset ∧ offset < 1440 := by
  constructor
  · rintro ⟨text, h⟩
    cases h with
    | utc => decide
    | ahead hh hm => omega
    | behind hh hm => omega
  · intro h
    have hhour : offset.natAbs / 60 ≤ 23 := by omega
    have hminute : offset.natAbs % 60 ≤ 59 := by omega
    by_cases hsign : 0 ≤ offset
    · have hoffset : (60 * (offset.natAbs / 60 : Nat) + (offset.natAbs % 60 : Nat) : Int) =
          offset := by omega
      have htext := IsOffset.ahead hhour hminute
      rw [hoffset] at htext
      exact ⟨_, htext⟩
    · have hoffset : (-(60 * (offset.natAbs / 60 : Nat) + (offset.natAbs % 60 : Nat)) : Int) =
          offset := by omega
      have htext := IsOffset.behind hhour hminute
      rw [hoffset] at htext
      exact ⟨_, htext⟩

/-- An offset begins with no digit and no point. -/
theorem IsOffset.head {offset : Int} {text : List Char} (h : IsOffset offset text) :
    ∀ c ∈ text.head?, c.isDigit = false ∧ c ≠ '.' := by
  intro c hc
  cases h <;> obtain rfl := Option.some.inj hc <;> decide

/-- A clock at the beginning of a minute, by its fields down to the minute. -/
theorem eq_of_minute {c : Clock} (hsecond : c.second = 0) (hnanos : c.nanos = 0) :
    ⟨c.date, c.hour, c.minute, 0, 0⟩ = c := by
  obtain ⟨date, hour, minute, second, nanos⟩ := c
  obtain rfl : second = 0 := hsecond
  obtain rfl : nanos = 0 := hnanos
  rfl

/-- A clock at midnight, by its date. -/
theorem eq_of_midnight {c : Clock} (hhour : c.hour = 0) (hminute : c.minute = 0)
    (hsecond : c.second = 0) (hnanos : c.nanos = 0) : ⟨c.date, 0, 0, 0, 0⟩ = c := by
  have hsame := eq_of_minute hsecond hnanos
  rwa [hhour, hminute] at hsame

/-- The fields of a clock are written with their digits: the year with four, and all others with
two. -/
structure Fits (c : Clock) : Prop where
  /-- The year has four digits. -/
  year : 0 ≤ c.date.year ∧ c.date.year ≤ 9999
  /-- The month has two. -/
  month : c.date.month < 100
  /-- The day has two. -/
  day : c.date.day < 100
  /-- The hour has two. -/
  hour : c.hour < 100
  /-- The minute has two. -/
  minute : c.minute < 100
  /-- The second has two. -/
  second : c.second < 100

/-- What a clock in UTC shows fits if the year does. -/
theorem fits_toClock {t : Instant}
    (hyear : 0 ≤ t.toClock.date.year ∧ t.toClock.date.year ≤ 9999) : t.toClock.Fits := by
  obtain ⟨hhour, hminute, hsecond, -⟩ := t.toClock_bounds
  have hdate : t.toClock.date.isReal = true := Date.isReal_ofDays _
  obtain ⟨-, hmonth, -, hday⟩ := Date.bounds_of_isReal hdate
  constructor <;> omega

end Clock

/-! ## Reading -/

namespace TextReader

variable {α β : Type} {cs rest : List Char} {n : Nat} {c : Clock}

/-- A sequence of readers fails where its first part does. -/
theorem bind_of_eq_none {x : TextReader α} {f : α → TextReader β} (h : x cs = none) :
    (x >>= f) cs = none := by
  show (x cs).bind (fun p => f p.1 p.2) = _
  rw [h]
  rfl

/-- A number of so many digits is read. -/
theorem digits_padded {count : Nat} (hpos : 0 < count) (h : n < 10 ^ count) (rest : List Char) :
    digits count (Clock.padded count n ++ rest) = some (n, rest) := by
  have hlength := Clock.length_padded hpos h
  have htake : (Clock.padded count n ++ rest).take count = Clock.padded count n :=
    List.take_left' hlength
  have hdrop : (Clock.padded count n ++ rest).drop count = rest := List.drop_left' hlength
  have hdigits : (Clock.padded count n).all Char.isDigit = true :=
    List.all_eq_true.mpr fun c hc => Clock.isDigit_of_mem_padded hc
  simp only [digits, htake, hdrop, hlength, hdigits, and_self, if_true, Clock.ofDigitChars_padded]

/-- A sign, hours and minutes are read as an offset. -/
theorem offset_signed {sign : Char} (hsign : sign = '+' ∨ sign = '-') {h m : Nat} (hh : h ≤ 23)
    (hm : m ≤ 59) :
    offset (char ':') (sign :: (Clock.padded 2 h ++ ':' :: Clock.padded 2 m)) =
      some (if sign = '+' then (60 * h + m : Int) else -(60 * h + m), []) := by
  have hother : ∀ c, sign ≠ c → ∀ cs, startsWith c (sign :: cs) = some (false, sign :: cs) := by
    intro c hne cs
    simp [startsWith, hne]
  have hmark : sign ≠ 'Z' ∧ sign ≠ 'z' := by
    rcases hsign with rfl | rfl <;> decide
  have hone : sign ∈ ['+', '-', '\u2212'] := by
    rcases hsign with rfl | rfl <;> decide
  have hlast : digits 2 (Clock.padded 2 m) = some (m, []) := by
    have hread := digits_padded (n := m) Nat.two_pos (by omega) []
    rwa [List.append_nil] at hread
  have hinside : ¬(59 < m ∨ 23 < h) := by omega
  unfold offset
  rw [bind_of_eq_some (hother 'Z' hmark.1 _)]
  simp only [Bool.false_eq_true, if_false]
  rw [bind_of_eq_some (hother 'z' hmark.2 _)]
  simp only [Bool.false_eq_true, if_false]
  unfold signedOffset
  rw [bind_of_eq_some (oneOf_cons hone _), bind_of_eq_some (digits_padded (by decide) (by omega) _),
    bind_of_eq_some (char_cons ':' _), bind_of_eq_some hlast]
  simp only [if_neg hinside]
  rfl

/-- An offset is read as the offset that it writes. -/
theorem offset_of_isOffset {minutes : Int} {text : List Char} (h : Clock.IsOffset minutes text) :
    offset (char ':') text = some (minutes, []) := by
  cases h with
  | utc => rfl
  | ahead hh hm =>
    rw [offset_signed (.inl rfl) hh hm, if_pos rfl]
  | behind hh hm =>
    have hminus : ('-' : Char) ≠ '+' := by decide
    rw [offset_signed (.inr rfl) hh hm, if_neg hminus]

/-! ### Forms without an offset -/

/-- A date is read. -/
theorem date_dateText (h : c.Fits) (rest : List Char) :
    date (Clock.dateText c.date ++ rest) = some (c.date, rest) := by
  unfold Clock.dateText date
  simp only [List.append_assoc, List.cons_append]
  rw [bind_of_eq_some (year_yearText h.year _), bind_of_eq_some (char_cons '-' _),
    bind_of_eq_some (field_padded h.month _), bind_of_eq_some (char_cons '-' _),
    bind_of_eq_some (field_padded h.day _)]
  rfl

/-- A time of day to the minute is read with no seconds. -/
theorem toMinute_minuteText (h : c.Fits) (rest : List Char) :
    toMinute (c.minuteText ++ rest) = some (⟨c.date, c.hour, c.minute, 0, 0⟩, rest) := by
  unfold Clock.minuteText toMinute
  simp only [List.append_assoc, List.cons_append]
  rw [bind_of_eq_some (date_dateText h _), bind_of_eq_some (char_cons 'T' _),
    bind_of_eq_some (field_padded h.hour _), bind_of_eq_some (char_cons ':' _),
    bind_of_eq_some (field_padded h.minute _)]
  rfl

/-- A time of day to the second is read with its fraction. -/
theorem toSecond_secondText (h : c.Fits) {fraction : List Char}
    (hfraction : Clock.IsFraction c.nanos fraction) :
    toSecond (c.secondText fraction) = some (c, []) := by
  have htext : c.secondText fraction =
      c.minuteText ++ ':' :: (Clock.padded 2 c.second ++ fraction) := by
    simp [Clock.secondText, Clock.minuteText]
  have hread : TextReader.fraction fraction = some (c.nanos, []) := by
    have hend : TextReader.fraction (fraction ++ []) = some (c.nanos, []) :=
      fraction_of_isFraction hfraction nofun
    rwa [List.append_nil] at hend
  rw [htext]
  unfold toSecond
  rw [bind_of_eq_some (toMinute_minuteText h _), bind_of_eq_some (char_cons ':' _),
    bind_of_eq_some (field_padded h.second _), bind_of_eq_some hread]
  rfl

/-- A text to the minute ends before its seconds. -/
theorem toSecond_minuteText (h : c.Fits) : toSecond c.minuteText = none := by
  have hread := toMinute_minuteText h []
  rw [List.append_nil] at hread
  unfold toSecond
  rw [bind_of_eq_some hread]
  exact bind_of_eq_none rfl

/-- A date ends before its time of day. -/
theorem toMinute_dateText (h : c.Fits) : toMinute (Clock.dateText c.date) = none := by
  have hread := date_dateText h []
  rw [List.append_nil] at hread
  unfold toMinute
  rw [bind_of_eq_some hread]
  exact bind_of_eq_none rfl

/-! ### The strict form -/

/-- The part of the strict form that follows the date. -/
def strictTime (d : Date) : TextReader (Clock × Int) := do
  let _ ← oneOf ['T', 't', ' ']
  let hour ← digits 2
  char ':'
  let minute ← digits 2
  char ':'
  let second ← digits 2
  let nanos ← fraction
  let offset ← offset (char ':')
  return (⟨d, hour, minute, second, nanos⟩, offset)

/-- The strict form reads a date first. -/
theorem strict_dateText (h : c.Fits) (rest : List Char) :
    strict (Clock.dateText c.date ++ rest) = strictTime c.date rest := by
  have hyear : Clock.yearText c.date.year = Clock.padded 4 c.date.year.toNat := if_pos h.year
  have hfour : c.date.year.toNat < 10 ^ 4 := by
    have hmost := h.year.2
    omega
  unfold Clock.dateText strict
  rw [hyear]
  simp only [List.append_assoc, List.cons_append]
  rw [bind_of_eq_some (digits_padded (by decide) hfour _), bind_of_eq_some (char_cons '-' _),
    bind_of_eq_some (digits_padded (by decide) h.month _), bind_of_eq_some (char_cons '-' _),
    bind_of_eq_some (digits_padded (by decide) h.day _)]
  rw [Int.toNat_of_nonneg h.year.1]
  rfl

/-- After the time of day and the fraction, the strict form reads the offset. -/
theorem strict_secondText (h : c.Fits) {fraction : List Char}
    (hfraction : Clock.IsFraction c.nanos fraction)
    (hrest : ∀ d ∈ rest.head?, d.isDigit = false ∧ d ≠ '.') :
    strict (c.secondText fraction ++ rest) =
      (offset (char ':') >>= fun minutes => pure (c, minutes)) rest := by
  unfold Clock.secondText
  rw [List.append_assoc, strict_dateText h]
  unfold strictTime
  simp only [List.append_assoc, List.cons_append]
  rw [bind_of_eq_some (oneOf_cons (by decide) _),
    bind_of_eq_some (digits_padded (by decide) h.hour _), bind_of_eq_some (char_cons ':' _),
    bind_of_eq_some (digits_padded (by decide) h.minute _), bind_of_eq_some (char_cons ':' _),
    bind_of_eq_some (digits_padded (by decide) h.second _),
    bind_of_eq_some (fraction_of_isFraction hfraction hrest)]

/-- The strict form asks for an offset. -/
theorem strict_without_offset (h : c.Fits) {fraction : List Char}
    (hfraction : Clock.IsFraction c.nanos fraction) : strict (c.secondText fraction) = none := by
  have hend : strict (c.secondText fraction ++ []) = _ := strict_secondText h hfraction nofun
  rw [List.append_nil] at hend
  rw [hend]
  exact bind_of_eq_none rfl

/-- The strict form asks for the seconds. -/
theorem strict_minuteText (h : c.Fits) : strict c.minuteText = none := by
  have hminute : digits 2 (Clock.padded 2 c.minute) = some (c.minute, []) := by
    have hread := digits_padded Nat.two_pos h.minute []
    rwa [List.append_nil] at hread
  unfold Clock.minuteText
  rw [strict_dateText h]
  unfold strictTime
  rw [bind_of_eq_some (oneOf_cons (by decide) _),
    bind_of_eq_some (digits_padded (by decide) h.hour _), bind_of_eq_some (char_cons ':' _),
    bind_of_eq_some hminute]
  exact bind_of_eq_none rfl

/-- The strict form asks for a time of day. -/
theorem strict_date (h : c.Fits) : strict (Clock.dateText c.date) = none := by
  have hend := strict_dateText h []
  rw [List.append_nil] at hend
  rw [hend]
  exact bind_of_eq_none rfl

end TextReader

/-! ## Instants -/

namespace Instant

variable {t : Instant} {c : Clock} {cs : List Char}

/-- A text of the strict form is the instant of its clock at its offset. -/
theorem ofText?_of_strict {offset : Int} (h : TextReader.strict cs = some ((c, offset), []))
    (hclock : ofClock? c offset = some t) : ofText? cs = some t := by
  unfold ofText?
  rw [TextReader.whole_eq_some.mpr h]
  simp [hclock]

/-- A form that reads nothing of a text leaves it to the next one. -/
theorem whole_of_eq_none {α : Type} {x : TextReader α} (h : x cs = none) : x.whole cs = none := by
  unfold TextReader.whole
  rw [h]

/-- A text to the second without an offset is the instant of its clock in UTC. -/
theorem ofText?_of_toSecond (hstrict : TextReader.strict cs = none)
    (h : TextReader.toSecond cs = some (c, [])) (hclock : ofUtc? c = some t) :
    ofText? cs = some t := by
  unfold ofText?
  rw [whole_of_eq_none hstrict, TextReader.whole_eq_some.mpr h]
  simp [hclock]

/-- A text to the minute is the instant of its clock in UTC. -/
theorem ofText?_of_toMinute (hstrict : TextReader.strict cs = none)
    (hsecond : TextReader.toSecond cs = none) (h : TextReader.toMinute cs = some (c, []))
    (hclock : ofUtc? c = some t) : ofText? cs = some t := by
  unfold ofText?
  rw [whole_of_eq_none hstrict, whole_of_eq_none hsecond, TextReader.whole_eq_some.mpr h]
  simp [hclock]

/-- A date is the instant at which it begins in UTC. -/
theorem ofText?_of_date {d : Date} (hstrict : TextReader.strict cs = none)
    (hsecond : TextReader.toSecond cs = none) (hminute : TextReader.toMinute cs = none)
    (h : TextReader.date cs = some (d, [])) (hclock : ofUtc? ⟨d, 0, 0, 0, 0⟩ = some t) :
    ofText? cs = some t := by
  unfold ofText?
  rw [whole_of_eq_none hstrict, whole_of_eq_none hsecond, whole_of_eq_none hminute,
    TextReader.whole_eq_some.mpr h]
  simp [hclock]

/-- The text of a clock that is some minutes ahead of UTC is the instant, with its offset. -/
theorem ofText?_secondText_offset {minutes : Int}
    (hyear : 0 ≤ (t.after minutes).toClock.date.year ∧
      (t.after minutes).toClock.date.year ≤ 9999)
    {fraction offset : List Char}
    (hfraction : Clock.IsFraction (t.after minutes).toClock.nanos fraction)
    (hoffset : Clock.IsOffset minutes offset) :
    ofText? ((t.after minutes).toClock.secondText fraction ++ offset) = some t := by
  have hread := TextReader.strict_secondText (Clock.fits_toClock hyear) hfraction hoffset.head
  rw [TextReader.bind_of_eq_some (TextReader.offset_of_isOffset hoffset)] at hread
  exact ofText?_of_strict hread (ofClock?_after (Clock.exists_isOffset_iff.mp ⟨_, hoffset⟩) hyear)

section Utc

variable (hyear : 0 ≤ t.toClock.date.year ∧ t.toClock.date.year ≤ 9999)
include hyear

/-- The text of the clock in UTC is the instant, also without an offset. -/
theorem ofText?_secondText {fraction : List Char}
    (hfraction : Clock.IsFraction t.toClock.nanos fraction) :
    ofText? (t.toClock.secondText fraction) = some t := by
  have hfits := Clock.fits_toClock hyear
  exact ofText?_of_toSecond (TextReader.strict_without_offset hfits hfraction)
    (TextReader.toSecond_secondText hfits hfraction) (ofClock?_toClock hyear)

/-- The text to the minute is the instant at the beginning of a minute. -/
theorem ofText?_minuteText (hsecond : t.toClock.second = 0) (hnanos : t.toClock.nanos = 0) :
    ofText? t.toClock.minuteText = some t := by
  have hfits := Clock.fits_toClock hyear
  have hread := TextReader.toMinute_minuteText hfits []
  rw [List.append_nil, Clock.eq_of_minute hsecond hnanos] at hread
  exact ofText?_of_toMinute (TextReader.strict_minuteText hfits)
    (TextReader.toSecond_minuteText hfits) hread (ofClock?_toClock hyear)

/-- The text of the date is the instant at midnight. -/
theorem ofText?_dateText (hhour : t.toClock.hour = 0) (hminute : t.toClock.minute = 0)
    (hsecond : t.toClock.second = 0) (hnanos : t.toClock.nanos = 0) :
    ofText? (Clock.dateText t.toClock.date) = some t := by
  have hfits := Clock.fits_toClock hyear
  have hread := TextReader.date_dateText hfits []
  have hnone := TextReader.toMinute_dateText hfits
  have hclock := Clock.eq_of_midnight hhour hminute hsecond hnanos
  rw [List.append_nil] at hread
  refine ofText?_of_date (TextReader.strict_date hfits) (TextReader.bind_of_eq_none hnone) hnone
    hread ?_
  rw [hclock]
  exact ofClock?_toClock hyear

end Utc

end Instant

/-- A text of either type of points in time is the instant that is read from it. -/
theorem Value.ofText_dateTime {declared : EdmType}
    (h : declared = .dateTime ∨ declared = .dateTimeOffset) (text : String) :
    ofText text declared = (Instant.ofText? text.toList).map dateTime := by
  rcases h with rfl | rfl
  · rfl
  · rfl

/-- The texts of an instant are all brought into the form of a point in time as the instant. A clock
that is less than a day ahead of UTC or behind it, and shows a year of four digits, is written with
its offset, for every such offset in some way, and with any fraction that gives the nanoseconds.
Where the clock in UTC shows a year of four digits, so is what the instant is shown as, and the text
without an offset: to the second, to the minute where no seconds are lost by it, and the date alone
at midnight. The clocks go by the calendar: on the first day that is counted they show the first of
January 1970, and a day later the next date at the same time. -/
theorem Value.dateTime_texts_denote {declared : EdmType}
    (hdeclared : declared = .dateTime ∨ declared = .dateTimeOffset) (t : Instant) :
    (∀ minutes : Int,
      (0 ≤ (t.after minutes).seconds → (t.after minutes).seconds < 86400 →
        (t.after minutes).toClock.date = ⟨1970, 1, 1⟩) ∧
      (t.after (minutes + 1440)).toClock =
        { (t.after minutes).toClock with date := (t.after minutes).toClock.date.next }) ∧
    (∀ minutes : Int, -1440 < minutes → minutes < 1440 →
      0 ≤ (t.after minutes).toClock.date.year → (t.after minutes).toClock.date.year ≤ 9999 →
      (∃ offset, Clock.IsOffset minutes offset) ∧
      ∀ fraction offset, Clock.IsFraction (t.after minutes).toClock.nanos fraction →
        Clock.IsOffset minutes offset →
        normalize (.string (String.ofList
          ((t.after minutes).toClock.secondText fraction ++ offset))) declared =
            .ok (.dateTime t)) ∧
    (0 ≤ t.toClock.date.year → t.toClock.date.year ≤ 9999 →
      normalize (.string (Value.dateTime t).text) declared = .ok (.dateTime t) ∧
      (∀ fraction, Clock.IsFraction t.toClock.nanos fraction →
        normalize (.string (String.ofList (t.toClock.secondText fraction))) declared =
          .ok (.dateTime t)) ∧
      (t.toClock.second = 0 → t.toClock.nanos = 0 →
        normalize (.string (String.ofList t.toClock.minuteText)) declared = .ok (.dateTime t)) ∧
      (t.toClock.hour = 0 → t.toClock.minute = 0 → t.toClock.second = 0 → t.toClock.nanos = 0 →
        normalize (.string (String.ofList (Clock.dateText t.toClock.date))) declared =
          .ok (.dateTime t))) := by
  have hread : ∀ cs, Instant.ofText? cs = some t →
      normalize (.string (String.ofList cs)) declared = .ok (.dateTime t) := by
    intro cs hcs
    rw [normalize_string, ofText_dateTime hdeclared, String.toList_ofList, hcs]
    rfl
  refine ⟨?_, ?_, ?_⟩
  · intro minutes
    refine ⟨Instant.toClock_date_of_epoch, ?_⟩
    rw [Instant.after_add]
    exact Instant.toClock_after_day _
  · intro minutes hleast hmost hyear hyear'
    refine ⟨Clock.exists_isOffset_iff.mpr ⟨hleast, hmost⟩, ?_⟩
    intro fraction offset hfraction hoffset
    exact hread _ (Instant.ofText?_secondText_offset ⟨hyear, hyear'⟩ hfraction hoffset)
  · intro hyear hyear'
    have hshown : Instant.ofText? t.text = some t := by
      have hfraction := Clock.isFraction_fractionText t.toClock_bounds.2.2.2
      have htext : t.text =
          t.toClock.secondText (Clock.fractionText t.toClock.nanos) ++ ['Z'] := rfl
      have hafter : t.after 0 = t := t.after_zero
      rw [← hafter] at hyear hyear' hfraction
      have hutc := Instant.ofText?_secondText_offset ⟨hyear, hyear'⟩ hfraction .utc
      rwa [hafter, ← htext] at hutc
    exact ⟨hread _ hshown,
      fun _ hfraction => hread _ (Instant.ofText?_secondText ⟨hyear, hyear'⟩ hfraction),
      fun hsecond hnanos =>
        hread _ (Instant.ofText?_minuteText ⟨hyear, hyear'⟩ hsecond hnanos),
      fun hhour hminute hsecond hnanos =>
        hread _ (Instant.ofText?_dateText ⟨hyear, hyear'⟩ hhour hminute hsecond hnanos)⟩

/-- Half past eleven in UTC on the last day of a year is half past midnight in the next year where
clocks are an hour ahead, and the first instant of a leap day is written with its date alone. -/
theorem Value.newYear_texts_denote :
    (normalize (.string "2024-01-01T00:30:00.500+01:00") .dateTime =
        .ok (.dateTime ⟨1704065400, 500000000, by decide⟩) ∧
      normalize (.string "2023-12-31T23:30:00.5") .dateTimeOffset =
        .ok (.dateTime ⟨1704065400, 500000000, by decide⟩)) ∧
    normalize (.string "2024-02-29") .dateTime = .ok (.dateTime ⟨1709164800, 0, by decide⟩) := by
  have hfraction : Clock.IsFraction 500000000 ['.', '5', '0', '0'] :=
    .digits (List.all_eq_true.mp rfl) (by decide) (by decide) (by decide)
  have hshort : Clock.IsFraction 500000000 ['.', '5'] :=
    .digits (List.all_eq_true.mp rfl) (by decide) (by decide) (by decide)
  have hoffset : Clock.IsOffset 60 "+01:00".toList :=
    .ahead (h := 1) (m := 0) (by decide) (by decide)
  constructor
  · obtain ⟨-, hoffsets, -⟩ := dateTime_texts_denote (.inl rfl) ⟨1704065400, 500000000, by decide⟩
    obtain ⟨-, -, hutc⟩ := dateTime_texts_denote (.inr rfl) ⟨1704065400, 500000000, by decide⟩
    obtain ⟨-, htexts⟩ := hoffsets 60 (by decide) (by decide) (by decide) (by decide)
    exact ⟨htexts _ _ hfraction hoffset, (hutc (by decide) (by decide)).2.1 _ hshort⟩
  · obtain ⟨-, -, hutc⟩ := dateTime_texts_denote (.inl rfl) ⟨1709164800, 0, by decide⟩
    exact (hutc (by decide) (by decide)).2.2.2 (by decide) (by decide) (by decide) (by decide)

end EntityQuery
