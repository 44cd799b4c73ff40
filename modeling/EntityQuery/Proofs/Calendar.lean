import EntityQuery.Time.Instant

/-!
# The calendar and its day numbers

A date made of a day number is a real one and has this day number (`Date.toDays_ofDays`,
`Date.isReal_ofDays`), and a real date is the one that its day number gives (`Date.ofDays_toDays`).
The day after a date has the next day number (`Date.toDays_next`), so the dates of the day numbers
are the days of the calendar one after the other (`Date.ofDays_next`).

The day numbers are taken apart in three stages, each of which is a remainder by unequal lengths.
The first two are the cycle and the day inside it. In a cycle a day is so many centuries, periods of
four years, years and days (`Date.InCycle`), where only the last century is as long as four hundred
years need, and only the last year of a period has a leap day. The year that `Date.ofDays` computes
by four divisions is the one of this form (`InCycle.yearOfCycle`). The third is the month, whose
first day is given by a linear rule.
-/

namespace EntityQuery.Date

/-- Leap years are told by the remainders of the year. -/
theorem isLeapYear_iff {year : Int} :
    isLeapYear year = true ↔ year % 4 = 0 ∧ (year % 100 ≠ 0 ∨ year % 400 = 0) := by
  simp [isLeapYear]

/-- A date is real when its day is one that all months have, or that its month has. -/
theorem isReal_of_bounds {d : Date} (hmonth : 1 ≤ d.month ∧ d.month ≤ 12)
    (hday : 1 ≤ d.day ∧ d.day ≤ 31)
    (hshort : d.month = 4 ∨ d.month = 6 ∨ d.month = 9 ∨ d.month = 11 → d.day ≤ 30)
    (hfebruary : d.month = 2 → d.day ≤ 29)
    (hleap : d.month = 2 → d.day = 29 → isLeapYear d.year = true) : d.isReal = true := by
  have hle : d.day ≤ daysInMonth d.year d.month := by
    unfold daysInMonth
    by_cases hmonth : d.month = 2
    · rw [if_pos hmonth]
      have hday := hfebruary hmonth
      by_cases hlast : d.day = 29
      · rw [if_pos (hleap hmonth hlast)]
        omega
      · split <;> omega
    · rw [if_neg hmonth]
      split
      next hfour => exact hshort hfour
      next => exact hday.2
  simp [isReal, hmonth, hday.1, hle]

/-- A real date has a day that its month has. -/
theorem isReal_iff {d : Date} :
    d.isReal = true ↔
      1 ≤ d.month ∧ d.month ≤ 12 ∧ 1 ≤ d.day ∧ d.day ≤ daysInMonth d.year d.month := by
  simp [isReal, and_assoc]

/-- A real date has a month out of twelve and a day out of thirty-one. -/
theorem bounds_of_isReal {d : Date} (h : d.isReal = true) :
    1 ≤ d.month ∧ d.month ≤ 12 ∧ 1 ≤ d.day ∧ d.day ≤ 31 := by
  obtain ⟨hmonth, hmonth', hday, hday'⟩ := isReal_iff.mp h
  have hlength : daysInMonth d.year d.month ≤ 31 := by
    unfold daysInMonth
    split
    · split <;> omega
    · split <;> omega
  exact ⟨hmonth, hmonth', hday, Nat.le_trans hday' hlength⟩

/-- A date in a year of four digits is less than a million days before the epoch and less than
three million days after it. -/
theorem toDays_bounds {d : Date} (h : d.isReal = true) (hyear : 0 ≤ d.year ∧ d.year ≤ 9999) :
    -1000000 < d.toDays ∧ d.toDays < 3000000 := by
  obtain ⟨hmonth, hmonth', hday, hday'⟩ := bounds_of_isReal h
  simp only [toDays, cycleDays, epochDay]
  split <;> omega

/-- A day of a cycle of 400 years is in some century, some period of four years of it, some year of
the period and on some day of the year. -/
structure InCycle (day century period year dayOfYear : Int) : Prop where
  /-- The day is counted in these parts. -/
  day_eq : day = 36524 * century + 1461 * period + 365 * year + dayOfYear
  /-- There are four centuries. -/
  century_bounds : 0 ≤ century ∧ century ≤ 3
  /-- There are twenty-five periods in a century. -/
  period_bounds : 0 ≤ period ∧ period ≤ 24
  /-- There are four years in a period. -/
  year_bounds : 0 ≤ year ∧ year ≤ 3
  /-- A year has 365 days, or one more. -/
  dayOfYear_bounds : 0 ≤ dayOfYear ∧ dayOfYear ≤ 365
  /-- The leap day ends a period, but ends a century only when it ends the cycle. -/
  leap : dayOfYear = 365 → year = 3 ∧ (period = 24 → century = 3)

/-- Every day of a cycle is somewhere in it. -/
theorem exists_inCycle {day : Int} (h : 0 ≤ day) (hlt : day < cycleDays) :
    ∃ century period year dayOfYear, InCycle day century period year dayOfYear := by
  unfold cycleDays at hlt
  -- The last day of the cycle is the only one that a fifth century and a fifth year would begin on.
  let century := min 3 (day / 36524)
  let dayOfCentury := day - 36524 * century
  let dayOfPeriod := dayOfCentury % 1461
  let year := min 3 (dayOfPeriod / 365)
  refine ⟨century, dayOfCentury / 1461, year, dayOfPeriod - 365 * year, ?_⟩
  constructor <;> omega

namespace InCycle

variable {day century period year dayOfYear : Int}

/-- The four divisions compute the year of the cycle. -/
theorem yearOfCycle (h : InCycle day century period year dayOfYear) :
    (day - day / 1460 + day / 36524 - day / 146096) / 365 =
      100 * century + 4 * period + year := by
  obtain ⟨hday, hcentury, hperiod, hyear, hbounds, hleap⟩ := h
  -- The two divisions by lengths of centuries differ from each other by the century, and the one
  -- by 1460 counts the period, or one more from the leap day on.
  have hcenturies : day / 36524 - day / 146096 = century := by
    obtain rfl | rfl | rfl | rfl : century = 0 ∨ century = 1 ∨ century = 2 ∨ century = 3 := by
      omega
    all_goals omega
  have hperiods : day / 1460 = 25 * century + period ∨
      day / 1460 = 25 * century + period + 1 := by omega
  rcases hperiods with hperiods | hperiods
  · have hle : dayOfYear ≤ 364 := by omega
    omega
  · have hpos : 1 ≤ dayOfYear := by omega
    omega

/-- What the years before leave of the day is the day of the year. -/
theorem dayOfYear_eq (h : InCycle day century period year dayOfYear) :
    day - (365 * (100 * century + 4 * period + year) + (100 * century + 4 * period + year) / 4 -
      (100 * century + 4 * period + year) / 100) = dayOfYear := by
  obtain ⟨hday, hcentury, hperiod, hyear, hbounds, hleap⟩ := h
  have hfours : (100 * century + 4 * period + year) / 4 = 25 * century + period := by omega
  have hhundreds : (100 * century + 4 * period + year) / 100 = century := by omega
  rw [hfours, hhundreds]
  omega

/-- The year that a leap day ends is followed by a leap year, in whose February the day is. -/
theorem isLeapYear (h : InCycle day century period year dayOfYear) (hlast : dayOfYear = 365)
    (cycle : Int) :
    isLeapYear (cycle * 400 + (100 * century + 4 * period + year) + 1) = true := by
  obtain ⟨-, hcentury, hperiod, -, -, hleap⟩ := h
  obtain ⟨rfl, hcycle⟩ := hleap hlast
  rw [isLeapYear_iff]
  -- Only the last period of a century ends with a year that a hundred divides.
  by_cases hend : period = 24
  · obtain rfl := hcycle hend
    omega
  · omega

end InCycle

/-- The date with a day number, by the parts that the day is counted in. -/
theorem ofDays_eq {days century period year dayOfYear : Int}
    (h : InCycle ((days + epochDay) % cycleDays) century period year dayOfYear) :
    ofDays days =
      if (5 * dayOfYear + 2) / 153 < 10 then
        ⟨(days + epochDay) / cycleDays * 400 + (100 * century + 4 * period + year),
          ((5 * dayOfYear + 2) / 153 + 3).toNat,
          (dayOfYear - (153 * ((5 * dayOfYear + 2) / 153) + 2) / 5 + 1).toNat⟩
      else
        ⟨(days + epochDay) / cycleDays * 400 + (100 * century + 4 * period + year) + 1,
          ((5 * dayOfYear + 2) / 153 - 9).toNat,
          (dayOfYear - (153 * ((5 * dayOfYear + 2) / 153) + 2) / 5 + 1).toNat⟩ := by
  unfold ofDays
  dsimp only
  rw [h.yearOfCycle, h.dayOfYear_eq]

/-- A day number is counted in parts. -/
theorem exists_inCycle_days (days : Int) :
    ∃ century period year dayOfYear,
      InCycle ((days + epochDay) % cycleDays) century period year dayOfYear :=
  exists_inCycle (Int.emod_nonneg _ (by decide)) (Int.emod_lt_of_pos _ (by decide))

/-- The month of a day of the year and the first day of the month. -/
theorem month_bounds {dayOfYear : Int} (h : 0 ≤ dayOfYear) (hle : dayOfYear ≤ 365) :
    0 ≤ (5 * dayOfYear + 2) / 153 ∧ (5 * dayOfYear + 2) / 153 ≤ 11 ∧
      (153 * ((5 * dayOfYear + 2) / 153) + 2) / 5 ≤ dayOfYear := by
  omega

/-- The date with a day number has the day number. -/
theorem toDays_ofDays (days : Int) : (ofDays days).toDays = days := by
  obtain ⟨century, period, year, dayOfYear, h⟩ := exists_inCycle_days days
  have hday := h.dayOfYear_eq
  have hsplit := Int.mul_ediv_add_emod (days + epochDay) cycleDays
  have hyear : 0 ≤ 100 * century + 4 * period + year ∧
      100 * century + 4 * period + year < 400 := by
    obtain ⟨-, hcentury, hperiod, hyear, -, -⟩ := h
    omega
  obtain ⟨hmonth, hlast, hfirst⟩ := month_bounds h.dayOfYear_bounds.1 h.dayOfYear_bounds.2
  rw [ofDays_eq h]
  -- From here on the year of the cycle and the month are taken as they are.
  generalize 100 * century + 4 * period + year = yearOfCycle at *
  generalize (5 * dayOfYear + 2) / 153 = month at *
  generalize (days + epochDay) / cycleDays = cycle at *
  have hcycle : (cycle * 400 + yearOfCycle) / 400 = cycle := by omega
  have hrest : (cycle * 400 + yearOfCycle) % 400 = yearOfCycle := by omega
  have hdayOfMonth : ((dayOfYear - (153 * month + 2) / 5 + 1).toNat : Int) =
      dayOfYear - (153 * month + 2) / 5 + 1 := Int.toNat_of_nonneg (by omega)
  unfold cycleDays epochDay at *
  split
  next hmarch =>
    -- March to December stand in the year in which they are counted.
    have hlate : ¬(month + 3).toNat ≤ 2 := by omega
    have hback : ((month + 3).toNat : Int) - 3 = month := by omega
    simp only [toDays, cycleDays, epochDay, if_neg hlate, hback, hcycle, hrest, hdayOfMonth]
    omega
  next hjanuary =>
    have hearly : (month - 9).toNat ≤ 2 := by omega
    have hback : ((month - 9).toNat : Int) + 9 = month := by omega
    have hbefore : cycle * 400 + yearOfCycle + 1 - 1 = cycle * 400 + yearOfCycle := by omega
    simp only [toDays, cycleDays, epochDay, if_pos hearly, hback, hbefore, hcycle, hrest,
      hdayOfMonth]
    omega

/-- The date with a day number is a real date. -/
theorem isReal_ofDays (days : Int) : (ofDays days).isReal = true := by
  obtain ⟨century, period, year, dayOfYear, h⟩ := exists_inCycle_days days
  have hleap := fun hlast => h.isLeapYear hlast ((days + epochDay) / cycleDays)
  obtain ⟨hpos, hle⟩ := h.dayOfYear_bounds
  rw [ofDays_eq h]
  generalize hmonth : (5 * dayOfYear + 2) / 153 = month
  split
  next hmarch =>
    refine isReal_of_bounds ?_ ?_ ?_ ?_ ?_ <;> dsimp only
    · omega
    · omega
    · intro hshort
      omega
    · omega
    · omega
  next hjanuary =>
    refine isReal_of_bounds ?_ ?_ ?_ ?_ ?_ <;> dsimp only
    · omega
    · omega
    · omega
    · omega
    · -- The twenty-ninth of February is the last day of the year.
      intro hfebruary hlast
      exact hleap (by omega)

/-! ## Dates of day numbers -/

/-- February has 28 days, or one more in leap years, and the other months have 30 or 31. -/
theorem daysInMonth_cases (year : Int) {month : Nat} (hfirst : 1 ≤ month) (hlast : month ≤ 12) :
    (month = 2 ∧ (daysInMonth year month = 29 ∧ isLeapYear year = true ∨
      daysInMonth year month = 28 ∧ ¬isLeapYear year = true)) ∨
    ((month = 4 ∨ month = 6 ∨ month = 9 ∨ month = 11) ∧ daysInMonth year month = 30) ∨
    ((month = 1 ∨ month = 3 ∨ month = 5 ∨ month = 7 ∨ month = 8 ∨ month = 10 ∨ month = 12) ∧
      daysInMonth year month = 31) := by
  have hmonths : month = 2 ∨ (month = 4 ∨ month = 6 ∨ month = 9 ∨ month = 11) ∨
      (month = 1 ∨ month = 3 ∨ month = 5 ∨ month = 7 ∨ month = 8 ∨ month = 10 ∨ month = 12) := by
    omega
  rcases hmonths with rfl | hshort | hlong
  · refine .inl ⟨rfl, ?_⟩
    by_cases hleap : isLeapYear year = true <;> simp [daysInMonth, hleap]
  · refine .inr (.inl ⟨hshort, ?_⟩)
    rcases hshort with rfl | rfl | rfl | rfl <;> rfl
  · refine .inr (.inr ⟨hlong, ?_⟩)
    rcases hlong with rfl | rfl | rfl | rfl | rfl | rfl | rfl <;> rfl

/-- The month of a date, counted from March. -/
def monthFromMarch (d : Date) : Int := if d.month ≤ 2 then d.month + 9 else d.month - 3

/-- A day stands before the first day of the next month, and in the last month, which is February,
it is the leap day at most. -/
theorem day_bounds {d : Date} (h : d.isReal = true) :
    0 ≤ d.monthFromMarch ∧ d.monthFromMarch ≤ 11 ∧ 1 ≤ d.day ∧
      (d.monthFromMarch ≤ 10 → (153 * d.monthFromMarch + 2) / 5 + d.day ≤
        (153 * (d.monthFromMarch + 1) + 2) / 5) ∧
      (d.monthFromMarch = 11 → d.day ≤ 29 ∧ (d.day = 29 → isLeapYear d.year = true)) := by
  obtain ⟨year, month, day⟩ := d
  obtain ⟨hfirst, hlast, hday, hlength⟩ : 1 ≤ month ∧ month ≤ 12 ∧ 1 ≤ day ∧
      day ≤ daysInMonth year month := isReal_iff.mp h
  have hmonths := daysInMonth_cases year hfirst hlast
  clear h hfirst hlast
  rcases hmonths with ⟨rfl, hfebruary⟩ | ⟨hshort, hthirty⟩ | ⟨hlong, hthirty⟩
  · have hmonth : monthFromMarch ⟨year, 2, day⟩ = 11 := rfl
    rw [hmonth]
    refine ⟨by decide, by decide, hday, by omega, fun _ => ⟨?_, ?_⟩⟩
    · show day ≤ 29
      omega
    · intro (hleap : day = 29)
      rcases hfebruary with ⟨-, hyear⟩ | ⟨hshort, -⟩
      · exact hyear
      · omega
  · rw [hthirty] at hlength
    rcases hshort with rfl | rfl | rfl | rfl <;> simp [monthFromMarch] <;> omega
  · rw [hthirty] at hlength
    rcases hlong with rfl | rfl | rfl | rfl | rfl | rfl | rfl <;> simp [monthFromMarch] <;> omega

/-- The year of a date, when years begin with March. -/
def yearFromMarch (d : Date) : Int := if d.month ≤ 2 then d.year - 1 else d.year

/-- January and February end the year that began in the March before. -/
theorem fromMarch_cases (d : Date) :
    (d.month ≤ 2 ∧ d.monthFromMarch = d.month + 9 ∧ d.yearFromMarch = d.year - 1) ∨
      (2 < d.month ∧ d.monthFromMarch = d.month - 3 ∧ d.yearFromMarch = d.year) := by
  by_cases hearly : d.month ≤ 2
  · exact .inl ⟨hearly, if_pos hearly, if_pos hearly⟩
  · exact .inr ⟨Nat.lt_of_not_le hearly, if_neg hearly, if_neg hearly⟩

/-- The day of the year of a date, when years begin with March. -/
def dayFromMarch (d : Date) : Int := (153 * d.monthFromMarch + 2) / 5 + d.day - 1

/-- The day of the cycle of a date. -/
def dayOfCycle (d : Date) : Int :=
  365 * (d.yearFromMarch % 400) + d.yearFromMarch % 400 / 4 - d.yearFromMarch % 400 / 100 +
    d.dayFromMarch

/-- The day number of a date by its cycle. -/
theorem toDays_add_epochDay (d : Date) :
    d.toDays + epochDay = d.yearFromMarch / 400 * cycleDays + d.dayOfCycle :=
  Int.sub_add_cancel ..

/-- A real date is counted in parts by its year and its day of the year. -/
theorem inCycle_dayOfCycle {d : Date} (h : d.isReal = true) :
    InCycle d.dayOfCycle (d.yearFromMarch % 400 / 100) (d.yearFromMarch % 100 / 4)
      (d.yearFromMarch % 4) d.dayFromMarch := by
  obtain ⟨hmonth, hmonth', hday, hinside, hlast⟩ := day_bounds h
  have hbounds : 0 ≤ d.dayFromMarch ∧ d.dayFromMarch ≤ 365 := by
    unfold dayFromMarch
    by_cases hend : d.monthFromMarch = 11
    · have := hlast hend
      rw [hend]
      omega
    · have := hinside (by omega)
      omega
  refine ⟨?_, by omega, by omega, by omega, hbounds, ?_⟩
  · unfold dayOfCycle
    omega
  · intro hleap
    have hend : d.monthFromMarch = 11 ∧ d.day = 29 := by
      unfold dayFromMarch at hleap
      by_cases hend : d.monthFromMarch = 11
      · rw [hend] at hleap
        omega
      · have := hinside (by omega)
        omega
    have hyear := (hlast hend.1).2 hend.2
    have hmarch : d.yearFromMarch = d.year - 1 := by
      have hcases := d.fromMarch_cases
      have hmonths := bounds_of_isReal h
      omega
    rw [isLeapYear_iff] at hyear
    omega

/-- The date with the day number of a real date is the date. -/
theorem ofDays_toDays {d : Date} (h : d.isReal = true) : ofDays d.toDays = d := by
  have hcycle := inCycle_dayOfCycle h
  have hbounds : 0 ≤ d.dayOfCycle ∧ d.dayOfCycle < 146097 := by
    obtain ⟨hday, hcentury, hperiod, hyear, hbounds, hleap⟩ := hcycle
    omega
  have hsplit := d.toDays_add_epochDay
  have hdiv : (d.toDays + epochDay) / cycleDays = d.yearFromMarch / 400 := by
    rw [hsplit]
    unfold cycleDays
    omega
  have hmod : (d.toDays + epochDay) % cycleDays = d.dayOfCycle := by
    rw [hsplit]
    unfold cycleDays
    omega
  rw [← hmod] at hcycle
  obtain ⟨hmonth, hmonth', hday, hinside, hlast⟩ := day_bounds h
  have hmonths := bounds_of_isReal h
  have hmonthOf : (5 * d.dayFromMarch + 2) / 153 = d.monthFromMarch := by
    unfold dayFromMarch
    by_cases hend : d.monthFromMarch = 11
    · have := hlast hend
      rw [hend]
      omega
    · have := hinside (by omega)
      omega
  have hyearOf : d.yearFromMarch / 400 * 400 + (100 * (d.yearFromMarch % 400 / 100) +
      4 * (d.yearFromMarch % 100 / 4) + d.yearFromMarch % 4) = d.yearFromMarch := by omega
  have hdayOf : (d.dayFromMarch - (153 * d.monthFromMarch + 2) / 5 + 1).toNat = d.day := by
    unfold dayFromMarch
    omega
  rw [ofDays_eq hcycle, hdiv, hmonthOf, hyearOf, hdayOf]
  rcases d.fromMarch_cases with ⟨hearly, hmonthEq, hyearEq⟩ | ⟨hlate, hmonthEq, hyearEq⟩
  · have hmonthBack : (d.monthFromMarch - 9).toNat = d.month := by omega
    have hyearBack : d.yearFromMarch + 1 = d.year := by omega
    have hnot : ¬d.monthFromMarch < 10 := by omega
    rw [if_neg hnot, hmonthBack, hyearBack]
  · have hmonthBack : (d.monthFromMarch + 3).toNat = d.month := by omega
    have hlt : d.monthFromMarch < 10 := by omega
    rw [if_pos hlt, hmonthBack, hyearEq]

/-! ## The next day -/

/-- The day after a date. -/
def next (d : Date) : Date :=
  if d.day < daysInMonth d.year d.month then ⟨d.year, d.month, d.day + 1⟩
  else if d.month < 12 then ⟨d.year, d.month + 1, 1⟩
  else ⟨d.year + 1, 1, 1⟩

/-- The day after a real date has the next day number. -/
theorem toDays_next {d : Date} (h : d.isReal = true) : d.next.toDays = d.toDays + 1 := by
  obtain ⟨year, month, day⟩ := d
  obtain ⟨hfirst, hlast, -, hday⟩ : 1 ≤ month ∧ month ≤ 12 ∧ 1 ≤ day ∧
      day ≤ daysInMonth year month := isReal_iff.mp h
  unfold next
  dsimp only
  split
  next hinside =>
    simp only [toDays, Int.natCast_add, Int.natCast_one]
    omega
  next hend =>
    obtain rfl : day = daysInMonth year month := by omega
    have hmonths := daysInMonth_cases year hfirst hlast
    clear hday hend h
    rcases hmonths with ⟨rfl, hfebruary⟩ | ⟨hshort, hlength⟩ | ⟨hlong, hlength⟩
    · -- March begins another year of the count, and the leap day tells how long the last one was.
      rw [isLeapYear_iff] at hfebruary
      simp only [toDays, cycleDays, epochDay, Nat.reduceLT, Nat.reduceAdd, Nat.reduceLeDiff,
        if_true, if_false]
      omega
    · rw [hlength]
      rcases hshort with rfl | rfl | rfl | rfl <;> simp [toDays] <;> omega
    · rw [hlength]
      rcases hlong with rfl | rfl | rfl | rfl | rfl | rfl | rfl <;> simp [toDays] <;> omega

/-- The day after a real date is real. -/
theorem isReal_next {d : Date} (h : d.isReal = true) : d.next.isReal = true := by
  obtain ⟨hfirst, hlast, hday, hlength⟩ := isReal_iff.mp h
  -- Every month has a first day.
  have hone : ∀ year month, 1 ≤ daysInMonth year month := by
    intro year month
    unfold daysInMonth
    split
    · split <;> omega
    · split <;> omega
  unfold next
  split
  next hinside => simp [isReal, hfirst, hlast, Nat.succ_le_of_lt hinside]
  next =>
    split
    next hmonth => simp [isReal, Nat.succ_le_of_lt hmonth, hone]
    next => simp [isReal, hone]

/-- The dates of the days are the days of the calendar one after the other. -/
theorem ofDays_next (days : Int) : ofDays (days + 1) = (ofDays days).next := by
  have hreal := isReal_ofDays days
  have hdays : (ofDays days).next.toDays = days + 1 := by rw [toDays_next hreal, toDays_ofDays]
  rw [← hdays, ofDays_toDays (isReal_next hreal)]

/-- Days are counted from the first one of 1970. -/
example : toDays ⟨1970, 1, 1⟩ = 0 := by decide

end EntityQuery.Date
