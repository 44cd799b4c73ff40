import EntityQuery.Proofs.Run
import EntityQuery.Time.Reader

/-!
# What readers take off a text

A reader takes a first part of a text and leaves the rest. `TextReader.bind_eq_some` takes the run
of a sequence of readers apart, as `bind_eq_ok` does with the runs of the compiler. `Takes P` says
that only characters of a kind are taken; a sequence of such readers is one, so it is shown of the
parts of a reader. Date-time literals are read by readers that take digits, blanks and a few marks
(`Instant.isMark_of_ofText?`).
-/

namespace EntityQuery

namespace TextReader

variable {α β : Type}

/-- A sequence of readers reads what its first part and, from there, its second part read. -/
theorem bind_eq_some {x : TextReader α} {f : α → TextReader β} {cs : List Char}
    {r : β × List Char} :
    (x >>= f) cs = some r ↔ ∃ a rest, x cs = some (a, rest) ∧ f a rest = some r := by
  show (x cs).bind (fun p => f p.1 p.2) = some r ↔ _
  rw [Option.bind_eq_some_iff]
  constructor
  · rintro ⟨⟨a, rest⟩, hx, hf⟩
    exact ⟨a, rest, hx, hf⟩
  · rintro ⟨a, rest, hx, hf⟩
    exact ⟨(a, rest), hx, hf⟩

/-- What is returned is read off nothing. -/
theorem pure_eq_some {a : α} {cs : List Char} {r : α × List Char} :
    (pure a : TextReader α) cs = some r ↔ r = (a, cs) := by
  show some (a, cs) = some r ↔ _
  rw [Option.some.injEq, eq_comm]

/-- A reader that fails reads nothing. -/
theorem failure_ne_some {cs : List Char} {r : α × List Char} :
    (failure : TextReader α) cs ≠ some r := nofun

/-- A whole text is read when nothing of it is left. -/
theorem whole_eq_some {x : TextReader α} {cs : List Char} {a : α} :
    x.whole cs = some a ↔ x cs = some (a, []) := by
  unfold whole
  split
  next a' hx =>
    rw [hx]
    simp
  next hother =>
    constructor
    · intro h
      cases h
    · intro h
      exact absurd h (hother a)

/-! ## The characters that are taken -/

/-- A reader takes characters of a kind alone. -/
def Takes (P : Char → Prop) (x : TextReader α) : Prop :=
  ∀ cs a rest, x cs = some (a, rest) → ∃ taken, cs = taken ++ rest ∧ ∀ c ∈ taken, P c

namespace Takes

variable {P : Char → Prop}

/-- Returning takes nothing. -/
theorem pure (a : α) : Takes P (Pure.pure a : TextReader α) := by
  intro cs a' rest h
  obtain ⟨rfl, rfl⟩ := Prod.mk.inj (pure_eq_some.mp h)
  exact ⟨[], rfl, nofun⟩

/-- Failing takes nothing. -/
theorem failure : Takes P (failure : TextReader α) := fun _ _ _ h => absurd h failure_ne_some

/-- A sequence takes what its parts take. -/
theorem bind {x : TextReader α} {f : α → TextReader β} (hx : Takes P x) (hf : ∀ a, Takes P (f a)) :
    Takes P (x >>= f) := by
  intro cs b rest h
  obtain ⟨a, middle, hfirst, hsecond⟩ := bind_eq_some.mp h
  obtain ⟨first, rfl, hall⟩ := hx cs a middle hfirst
  obtain ⟨second, rfl, hall'⟩ := hf a middle b rest hsecond
  refine ⟨first ++ second, by simp, ?_⟩
  intro c hc
  rcases List.mem_append.mp hc with hc | hc
  · exact hall c hc
  · exact hall' c hc

/-- A choice takes what its branches take. -/
theorem ite {x y : TextReader α} {p : Prop} [Decidable p] (hx : Takes P x) (hy : Takes P y) :
    Takes P (if p then x else y) := by
  split
  · exact hx
  · exact hy

/-- A reader of a whole text takes all of it. -/
theorem whole {x : TextReader α} (hx : Takes P x) {cs : List Char} {a : α}
    (h : x.whole cs = some a) : ∀ c ∈ cs, P c := by
  obtain ⟨taken, rfl, hall⟩ := hx cs a [] (whole_eq_some.mp h)
  simpa using hall

end Takes

/-! ## Date-time literals -/

/-- The characters of date-time literals. -/
def isMark (c : Char) : Bool :=
  c.isDigit || Text.isBlank c || ['-', '+', '\u2212', ':', '.', 'T', 't', 'Z', 'z'].contains c

/-- A reader of date-time text. -/
abbrev TakesMarks (x : TextReader α) : Prop := Takes (fun c => isMark c = true) x

/-- The first characters of a kind, and what is left after as many. -/
theorem takeWhile_append_drop (p : Char → Bool) (cs : List Char) :
    cs = cs.takeWhile p ++ cs.drop (cs.takeWhile p).length :=
  (List.prefix_iff_eq_append.mp (cs.takeWhile_prefix p)).symm

/-- The first digits of a text are marks. -/
theorem isMark_of_mem_takeWhile {cs : List Char} {c : Char} (h : c ∈ cs.takeWhile Char.isDigit) :
    isMark c = true := by
  have hdigit : c.isDigit = true := List.all_eq_true.mp List.all_takeWhile c h
  simp [isMark, hdigit]

theorem char_takes {c : Char} (h : isMark c = true) : TakesMarks (char c) := by
  intro cs a rest hread
  cases cs with
  | nil => cases hread
  | cons d cs =>
    change (if d = c then some ((), cs) else none) = _ at hread
    split at hread
    next heq =>
      cases hread
      subst heq
      exact ⟨[d], rfl, by simpa using h⟩
    next => cases hread

theorem oneOf_takes {expected : List Char} (h : expected.all isMark = true) :
    TakesMarks (oneOf expected) := by
  intro cs a rest hread
  cases cs with
  | nil => cases hread
  | cons c cs =>
    change (if c ∈ expected then some (c, cs) else none) = _ at hread
    split at hread
    next hmem =>
      obtain ⟨rfl, rfl⟩ := Prod.mk.inj (Option.some.inj hread)
      have hmark : isMark c = true := List.all_eq_true.mp h c hmem
      exact ⟨[c], rfl, by simpa using hmark⟩
    next => cases hread

theorem startsWith_takes (c : Char) : TakesMarks (startsWith c) := by
  intro cs a rest hread
  cases hread
  exact ⟨[], rfl, nofun⟩

theorem blanks_takes : TakesMarks blanks := by
  intro cs a rest hread
  cases hread
  refine ⟨cs.takeWhile Text.isBlank, (List.takeWhile_append_dropWhile).symm, ?_⟩
  intro c hc
  have hblank : Text.isBlank c = true := List.all_eq_true.mp List.all_takeWhile c hc
  simp [isMark, hblank]

theorem digits_takes (count : Nat) : TakesMarks (digits count) := by
  intro cs a rest hread
  unfold digits at hread
  dsimp only at hread
  split at hread
  next h =>
    cases hread
    refine ⟨cs.take count, (List.take_append_drop count cs).symm, ?_⟩
    intro c hc
    have hdigit : c.isDigit = true := List.all_eq_true.mp h.2 c hc
    simp [isMark, hdigit]
  next => cases hread

theorem digitsUpTo_takes (most : Nat) : TakesMarks (digitsUpTo most) := by
  intro cs a rest hread
  unfold digitsUpTo at hread
  dsimp only at hread
  split at hread
  next => cases hread
  next =>
    cases hread
    -- The digits are the first characters of the text, also where more of them follow.
    have hprefix : (cs.take most).takeWhile Char.isDigit <+: cs :=
      (List.takeWhile_prefix _).trans (List.take_prefix most cs)
    refine ⟨_, (List.prefix_iff_eq_append.mp hprefix).symm, ?_⟩
    intro c hc
    exact isMark_of_mem_takeWhile hc

theorem allDigits_takes : TakesMarks allDigits := by
  intro cs a rest hread
  unfold allDigits at hread
  dsimp only at hread
  split at hread
  next => cases hread
  next =>
    cases hread
    refine ⟨_, takeWhile_append_drop _ cs, ?_⟩
    intro c hc
    exact isMark_of_mem_takeWhile hc

theorem fraction_takes : TakesMarks fraction := by
  intro cs a rest hread
  unfold fraction at hread
  split at hread
  next cs =>
    dsimp only at hread
    split at hread
    next => cases hread
    next =>
      cases hread
      refine ⟨'.' :: cs.takeWhile Char.isDigit, ?_, ?_⟩
      · rw [List.cons_append, ← takeWhile_append_drop]
      · intro c hc
        rcases List.mem_cons.mp hc with rfl | hc
        · decide
        · exact isMark_of_mem_takeWhile hc
  next =>
    cases hread
    exact ⟨[], rfl, nofun⟩

theorem year_takes : TakesMarks year := by
  unfold year
  refine blanks_takes.bind fun _ => (startsWith_takes _).bind fun _ => .ite ?_ ?_
  · exact (char_takes (by decide)).bind fun _ => allDigits_takes.bind fun _ => .pure _
  · refine (startsWith_takes _).bind fun _ => .ite ?_ ?_
    · exact (char_takes (by decide)).bind fun _ => allDigits_takes.bind fun _ => .pure _
    · exact (digitsUpTo_takes 4).bind fun _ => .pure _

theorem field_takes : TakesMarks field :=
  blanks_takes.bind fun _ => digitsUpTo_takes 2

theorem signedOffset_takes {separator : TextReader Unit} (h : TakesMarks separator) :
    TakesMarks (signedOffset separator) := by
  unfold signedOffset
  refine (oneOf_takes (by decide)).bind fun _ => (digits_takes 2).bind fun _ =>
    h.bind fun _ => (digits_takes 2).bind fun _ => ?_
  exact .ite (.bind .failure fun _ => .pure _) (.bind (.pure _) fun _ => .pure _)

theorem offset_takes {separator : TextReader Unit} (h : TakesMarks separator) :
    TakesMarks (offset separator) := by
  unfold offset
  refine (startsWith_takes _).bind fun _ => .ite ?_ ?_
  · exact (char_takes (by decide)).bind fun _ => .pure _
  · refine (startsWith_takes _).bind fun _ => .ite ?_ (signedOffset_takes h)
    exact (char_takes (by decide)).bind fun _ => .pure _

theorem strict_takes : TakesMarks strict :=
  (digits_takes 4).bind fun _ => (char_takes (by decide)).bind fun _ =>
  (digits_takes 2).bind fun _ => (char_takes (by decide)).bind fun _ =>
  (digits_takes 2).bind fun _ => (oneOf_takes (by decide)).bind fun _ =>
  (digits_takes 2).bind fun _ => (char_takes (by decide)).bind fun _ =>
  (digits_takes 2).bind fun _ => (char_takes (by decide)).bind fun _ =>
  (digits_takes 2).bind fun _ => fraction_takes.bind fun _ =>
  (offset_takes (char_takes (by decide))).bind fun _ => .pure _

theorem date_takes : TakesMarks date :=
  year_takes.bind fun _ => (char_takes (by decide)).bind fun _ => field_takes.bind fun _ =>
  (char_takes (by decide)).bind fun _ => field_takes.bind fun _ => .pure _

theorem toMinute_takes : TakesMarks toMinute :=
  date_takes.bind fun _ => (char_takes (by decide)).bind fun _ => field_takes.bind fun _ =>
  (char_takes (by decide)).bind fun _ => field_takes.bind fun _ => .pure _

theorem toSecond_takes : TakesMarks toSecond :=
  toMinute_takes.bind fun _ => (char_takes (by decide)).bind fun _ => field_takes.bind fun _ =>
  fraction_takes.bind fun _ => .pure _

end TextReader

/-- A date-time literal is written in digits, blanks and marks. -/
theorem Instant.isMark_of_ofText? {cs : List Char} {t : Instant} (h : ofText? cs = some t) :
    ∀ c ∈ cs, TextReader.isMark c = true := by
  unfold ofText? at h
  simp only [Option.or_eq_some_iff, Option.bind_eq_some_iff] at h
  obtain ⟨_, hread, -⟩ | ⟨-, ⟨_, hread, -⟩ | ⟨-, ⟨_, hread, -⟩ | ⟨-, _, hread, -⟩⟩⟩ := h
  · exact TextReader.strict_takes.whole hread
  · exact TextReader.toSecond_takes.whole hread
  · exact TextReader.toMinute_takes.whole hread
  · exact TextReader.date_takes.whole hread

end EntityQuery
