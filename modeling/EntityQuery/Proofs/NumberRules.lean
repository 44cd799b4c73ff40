import EntityQuery.Proofs.TokenRules

/-!
# The rules of the numbers

A number is taken apart into its digits, those of its fraction, and what stands behind them
(`Lexeme.Parts`), and is read by its parts (`Lexeme.number_parts`): as a decimal, as a double with
an exponent or with a fraction alone, or as a whole number. By these parts a number is read by a
rule (`Lexeme.number_byRule`), and the numbers that a text begins with fit into the one that is read
there, which has all digits that follow. Marks end a number, so one with a mark is read exactly.
-/

namespace EntityQuery

namespace Text

/-- The size of an exponent is that of its text. -/
theorem IsExponent.size_eq {e : Lexeme.Exponent} {text : List Char} (h : IsExponent e text) :
    e.size = text.length := by
  cases h
  simp
  omega

/-- The text of an exponent begins with its letter. -/
theorem IsExponent.eq_cons {e : Lexeme.Exponent} {text : List Char} (h : IsExponent e text) :
    ∃ letter more, text = letter :: more ∧ (letter = 'e' ∨ letter = 'E') := by
  cases h with
  | intro hletter => exact ⟨_, _, rfl, hletter⟩

end Text

namespace Lexeme

variable {c : Char} {cs rest : List Char}

/-! ## Exponents -/

/-- What follows the letter of an exponent is read as its sign and its digits. -/
theorem exponent?_signed {letter : Char} (hletter : letter = 'e' ∨ letter = 'E') {negative : Bool}
    {sign : List Char} (hsign : Text.IsSign negative sign) (cs : List Char)
    (hcs : sign = [] → ∀ d ∈ cs.head?, d ≠ '+' ∧ d ≠ '-') :
    exponent? (letter :: (sign ++ cs)) =
      if cs.takeWhile Char.isDigit = [] then none
      else some ⟨negative, cs.takeWhile Char.isDigit,
        1 + sign.length + (cs.takeWhile Char.isDigit).length⟩ := by
  cases hsign with
  | none =>
    cases cs with
    | nil => simp [exponent?]
    | cons d cs =>
      obtain ⟨hplus, hminus⟩ := hcs rfl d rfl
      simp [exponent?, hletter, hplus, hminus]
  | plus => simp [exponent?, hletter]
  | minus => simp [exponent?, hletter]

/-- An exponent at the front of a text is read with all digits that follow it. -/
theorem exponent?_append {e : Exponent} {text : List Char} (h : Text.IsExponent e text)
    (rest : List Char) :
    exponent? (text ++ rest) = some ⟨e.negative, e.digits ++ rest.takeWhile Char.isDigit,
      e.size + (rest.takeWhile Char.isDigit).length⟩ := by
  obtain @⟨letter, negative, sign, digits, hletter, hsign, hnumeral⟩ := h
  have hrun : (digits ++ rest).takeWhile Char.isDigit = digits ++ rest.takeWhile Char.isDigit :=
    List.takeWhile_append_of_pos hnumeral.2
  have hne : digits ++ rest.takeWhile Char.isDigit ≠ [] := by simp [hnumeral.1]
  -- A digit is no sign.
  have hhead : ∀ d ∈ (digits ++ rest).head?, d ≠ '+' ∧ d ≠ '-' := by
    obtain ⟨c, more, rfl, hc, -⟩ := hnumeral.eq_cons
    intro d hd
    obtain rfl : c = d := Option.some.inj hd
    constructor
    · rintro rfl
      exact absurd hc (by decide)
    · rintro rfl
      exact absurd hc (by decide)
  rw [List.cons_append, List.append_assoc, exponent?_signed hletter hsign _ fun _ => hhead, hrun,
    if_neg hne, List.length_append]
  simp only [Nat.add_assoc]

/-- What follows the letter of an exponent begins with a sign, or goes on without one. -/
theorem exists_sign (cs : List Char) :
    ∃ negative sign rest, cs = sign ++ rest ∧ Text.IsSign negative sign ∧
      (sign = [] → ∀ d ∈ rest.head?, d ≠ '+' ∧ d ≠ '-') := by
  by_cases hplus : cs.head? = some '+'
  · obtain ⟨rest, rfl⟩ := List.head?_eq_some_iff.mp hplus
    exact ⟨false, ['+'], rest, rfl, .plus, nofun⟩
  · by_cases hminus : cs.head? = some '-'
    · obtain ⟨rest, rfl⟩ := List.head?_eq_some_iff.mp hminus
      exact ⟨true, ['-'], rest, rfl, .minus, nofun⟩
    · refine ⟨false, [], cs, rfl, .none, fun _ d hd => ⟨?_, ?_⟩⟩
      · rintro rfl
        exact hplus hd
      · rintro rfl
        exact hminus hd

/-- An exponent that is read stands at the front of the text. -/
theorem exponent?_eq_some {e : Exponent} (h : exponent? cs = some e) :
    ∃ text rest, cs = text ++ rest ∧ Text.IsExponent e text := by
  cases cs with
  | nil => cases h
  | cons letter cs =>
    by_cases hletter : letter = 'e' ∨ letter = 'E'
    · obtain ⟨negative, sign, cs, rfl, hsign, hcs⟩ := exists_sign cs
      obtain ⟨digits, rest, rfl, hrun, hdigits, -⟩ := exists_run Char.isDigit cs
      rw [exponent?_signed hletter hsign _ hcs, hrun] at h
      split at h
      next => cases h
      next hne =>
        cases h
        exact ⟨letter :: (sign ++ digits), rest, by simp, .intro hletter hsign ⟨hne, hdigits⟩⟩
    · simp [exponent?, hletter] at h

/-! ## Numbers -/

/-- What a number is by its digits before and after the point and the text behind them, and how many
characters of that text it takes. -/
def numberWith (whole fraction after : List Char) : Kind × Nat :=
  if beginsWithLetter 'm' 'M' after then
    (.token (.decimal (String.ofList (whole ++ Text.fractionText fraction))), 1)
  else
    match exponent? after with
    | some e =>
      let mark := if beginsWithLetter 'd' 'D' (after.drop e.size) then 1 else 0
      (.token (.double (doubleOf whole fraction (some e))), e.size + mark)
    | none =>
      if fraction ≠ [] then
        let mark := if beginsWithLetter 'd' 'D' after then 1 else 0
        (.token (.double (doubleOf whole fraction none)), mark)
      else if beginsWithLetter 'l' 'L' after then (whole? .long whole, 1)
      else (whole? .int whole, 0)

/-- The digits of a number, those of its fraction, and what stands behind them. -/
structure Parts (digits fraction after : List Char) : Prop where
  /-- There are digits before the point. -/
  isDigit_whole : ∀ d ∈ digits, d.isDigit = true
  /-- There are digits after the point, if there is one. -/
  isDigit_fraction : ∀ d ∈ fraction, d.isDigit = true
  /-- No digit follows. -/
  head_after : ∀ d ∈ after.head?, d.isDigit = false
  /-- Where there are no digits after a point, none follow. -/
  no_fraction : fraction = [] → fractionDigits after = []

/-- What follows a digit has such parts. -/
theorem exists_parts (cs : List Char) :
    ∃ digits fraction after, cs = digits ++ (Text.fractionText fraction ++ after) ∧
      Parts digits fraction after := by
  obtain ⟨digits, rest, rfl, -, hdigits, hrest⟩ := exists_run Char.isDigit cs
  by_cases hfraction : fractionDigits rest = []
  · exact ⟨digits, [], rest, rfl, hdigits, nofun, hrest, fun _ => hfraction⟩
  · -- Only what begins with a point has digits after it.
    obtain ⟨rest, rfl⟩ : ∃ more, rest = '.' :: more := by
      unfold fractionDigits at hfraction
      split at hfraction
      next more => exact ⟨more, rfl⟩
      next => exact absurd rfl hfraction
    obtain ⟨fraction, after, rfl, hrun, hdigits', hafter⟩ := exists_run Char.isDigit rest
    have hne : fraction ≠ [] := by
      rw [← hrun]
      exact hfraction
    refine ⟨digits, fraction, after, ?_, hdigits, hdigits', hafter, fun hnil => absurd hnil hne⟩
    rw [Text.fractionText, if_neg hne, List.cons_append]

/-- A number is told by its parts. -/
theorem number_parts {digits fraction after : List Char} (h : Parts digits fraction after) :
    number c (digits ++ (Text.fractionText fraction ++ after)) =
      ((numberWith (c :: digits) fraction after).1,
        digits.length + (Text.fractionText fraction).length +
          (numberWith (c :: digits) fraction after).2) := by
  have hfraction : fractionDigits (Text.fractionText fraction ++ after) = fraction := by
    unfold Text.fractionText
    split
    next hnil => rw [hnil, List.nil_append, h.no_fraction hnil]
    next => exact takeWhile_append h.isDigit_fraction h.head_after
  have hhead : ∀ d ∈ (Text.fractionText fraction ++ after).head?, d.isDigit = false := by
    unfold Text.fractionText
    split
    next => exact h.head_after
    next =>
      intro d hd
      obtain rfl : '.' = d := Option.some.inj hd
      decide
  have hsize : (if fraction = [] then 0 else fraction.length + 1) =
      (Text.fractionText fraction).length := by
    unfold Text.fractionText
    split
    next => rfl
    next => rfl
  have hrun := takeWhile_append h.isDigit_whole hhead
  have htext : c :: digits ++ Text.fractionText fraction =
      if fraction = [] then c :: digits else c :: digits ++ '.' :: fraction := by
    unfold Text.fractionText
    split
    next => exact List.append_nil _
    next => rfl
  simp only [number, numberWith, hrun, List.drop_left, hfraction, hsize, htext]
  -- The two take the same branches.
  by_cases hdecimal : beginsWithLetter 'm' 'M' after = true
  · simp only [hdecimal, reduceIte]
  · cases hexponent : exponent? after with
    | some e => simp [hdecimal, Nat.add_assoc]
    | none =>
      by_cases hnil : fraction = []
      · by_cases hlong : beginsWithLetter 'l' 'L' after = true <;> simp [hdecimal, hnil, hlong]
      · simp [hdecimal, hnil]

/-! ## What is read has a rule -/

/-- A decimal is a numeral with a fraction or without one. -/
theorem isDecimal_fractionText {whole fraction : List Char} (hwhole : Text.IsNumeral whole)
    (hfraction : ∀ d ∈ fraction, d.isDigit = true) :
    Text.IsDecimal (whole ++ Text.fractionText fraction) := by
  unfold Text.fractionText
  split
  next =>
    rw [List.append_nil]
    exact .whole hwhole
  next hne => exact .fraction hwhole ⟨hne, hfraction⟩

/-- Digits form a whole number of 64 bits or one beyond them. -/
theorem exists_isWhole (digits : List Char) : ∃ n?, Text.IsWhole digits n? := by
  by_cases hn : Int64.maxValue.toInt < numberOf digits
  · exact ⟨none, .beyond hn⟩
  · have hmost : Int64.maxValue.toInt < 2 ^ 63 := by decide
    have hlt : numberOf digits < 2 ^ 63 := by omega
    exact ⟨some (Int64.ofNat (numberOf digits)), .fits (Int64.toInt_ofNat_of_lt hlt).symm⟩

/-- Digits are read as the number that they form, or refused. -/
theorem whole?_eq_ofOutcome {digits : List Char} {n? : Option Int64} (h : Text.IsWhole digits n?)
    (token : Int64 → Token) : whole? token digits = .ofOutcome (n?.map token) := by
  cases h with
  | fits h => exact whole?_eq h
  | beyond h =>
    have hmost : ¬numberOf digits ≤ Int64.maxValue.toInt.toNat := by
      have hnat : Int64.maxValue.toInt.toNat = Int64.maxValue.toInt := by decide
      omega
    unfold whole?
    rw [if_neg hmost]
    rfl

/-- The mark of a double or nothing comes next. -/
theorem exists_mark (cs : List Char) :
    ∃ mark rest, cs = mark ++ rest ∧
      (if beginsWithLetter 'd' 'D' cs = true then 1 else 0) = mark.length ∧
      (mark = [] ∨ ∃ d, mark = [d] ∧ (d = 'd' ∨ d = 'D')) := by
  by_cases hmark : beginsWithLetter 'd' 'D' cs = true
  · obtain ⟨d, hhead, hd⟩ := exists_head_of_beginsWithLetter hmark
    obtain ⟨rest, rfl⟩ := List.head?_eq_some_iff.mp hhead
    exact ⟨[d], rest, rfl, by simp [hmark], .inr ⟨d, rfl, hd⟩⟩
  · exact ⟨[], cs, rfl, by simp [hmark], .inl rfl⟩

/-- A number has a rule with what it takes of the text behind its digits. -/
theorem numberWith_rule {whole fraction : List Char} (hwhole : Text.IsNumeral whole)
    (hfraction : ∀ d ∈ fraction, d.isDigit = true) (after : List Char) :
    ∃ front rest outcome, after = front ++ rest ∧
      numberWith whole fraction after = (.ofOutcome outcome, front.length) ∧
      Token.Rule (whole ++ (Text.fractionText fraction ++ front)) outcome := by
  unfold numberWith
  split
  next hdecimal =>
    obtain ⟨mark, hhead, hmark⟩ := exists_head_of_beginsWithLetter hdecimal
    obtain ⟨rest, rfl⟩ := List.head?_eq_some_iff.mp hhead
    refine ⟨[mark], rest, some _, rfl, rfl, ?_⟩
    rw [← List.append_assoc]
    exact .decimal (isDecimal_fractionText hwhole hfraction) hmark
  next =>
    split
    next e hexponent =>
      obtain ⟨text, rest, rfl, htext⟩ := exponent?_eq_some hexponent
      obtain ⟨mark, rest, rfl, hlength, hmark⟩ := exists_mark rest
      refine ⟨text ++ mark, rest, some _, (List.append_assoc ..).symm, ?_,
        .double hwhole hfraction (.some htext) (.inr nofun) hmark⟩
      rw [htext.size_eq, List.drop_left, hlength, List.length_append]
      rfl
    next =>
      split
      next hne =>
        obtain ⟨mark, rest, rfl, hlength, hmark⟩ := exists_mark after
        refine ⟨mark, rest, some _, rfl, ?_, .double hwhole hfraction .none (.inl hne) hmark⟩
        rw [hlength]
        rfl
      next hnil =>
        obtain rfl : fraction = [] := not_not.mp hnil
        obtain ⟨n?, hn⟩ := exists_isWhole whole
        split
        next hlong =>
          obtain ⟨mark, hhead, hmark⟩ := exists_head_of_beginsWithLetter hlong
          obtain ⟨rest, rfl⟩ := List.head?_eq_some_iff.mp hhead
          refine ⟨[mark], rest, _, rfl, ?_, .long hwhole hmark hn⟩
          rw [whole?_eq_ofOutcome hn]
          rfl
        next =>
          refine ⟨[], after, n?.map .int, rfl, ?_, ?_⟩
          · rw [whole?_eq_ofOutcome hn]
            rfl
          · rw [Text.fractionText, if_pos rfl, List.append_nil, List.append_nil]
            exact .int hwhole hn

/-- A number is read by a rule. -/
theorem number_byRule (hc : c.isDigit = true) (cs : List Char) : ByRule c cs (number c cs) := by
  obtain ⟨digits, fraction, after, rfl, hparts⟩ := exists_parts cs
  have hwhole : Text.IsNumeral (c :: digits) :=
    ⟨List.cons_ne_nil _ _, List.forall_mem_cons.mpr ⟨hc, hparts.isDigit_whole⟩⟩
  obtain ⟨front, rest, outcome, rfl, hread, hrule⟩ :=
    numberWith_rule hwhole hparts.isDigit_fraction after
  refine ⟨digits ++ (Text.fractionText fraction ++ front), rest, outcome, by simp, ?_, hrule⟩
  rw [number_parts hparts, hread, List.length_append, List.length_append, Nat.add_assoc]

/-! ## What has a rule fits -/

/-- An exponent takes characters. -/
theorem exponent_size_pos {e : Exponent} (h : exponent? cs = some e) : 0 < e.size := by
  obtain ⟨text, -, -, htext⟩ := exponent?_eq_some h
  rw [htext.size_eq]
  obtain ⟨letter, more, rfl, -⟩ := htext.eq_cons
  exact Nat.succ_pos _

/-- A number that takes nothing behind its digits is a whole number or a double. -/
theorem numberWith_eq_of_zero {whole fraction after : List Char}
    (h : (numberWith whole fraction after).2 = 0) :
    (numberWith whole fraction after).1 =
      if fraction = [] then whole? .int whole
      else .token (.double (doubleOf whole fraction none)) := by
  unfold numberWith at h ⊢
  split
  next hdecimal => simp [hdecimal] at h
  next hdecimal =>
    split
    next e hexponent =>
      have hpos := exponent_size_pos hexponent
      simp [hdecimal, hexponent] at h
      omega
    next hexponent =>
      by_cases hnil : fraction = []
      · by_cases hlong : beginsWithLetter 'l' 'L' after = true
        · simp [hdecimal, hexponent, hnil, hlong] at h
        · simp [hnil, hlong]
      · simp [hnil]

/-- Digits that a text begins with fit into the number there. -/
theorem number_fits_int {more : List Char} {n? : Option Int64}
    (hmore : ∀ d ∈ more, d.isDigit = true) (hn : Text.IsWhole (c :: more) n?) (rest : List Char) :
    Fits (c :: more) (n?.map .int) (number c (more ++ rest)) := by
  obtain ⟨digits, fraction, after, rfl, hparts⟩ := exists_parts rest
  have hparts' : Parts (more ++ digits) fraction after :=
    { hparts with isDigit_whole := List.forall_mem_append.mpr ⟨hmore, hparts.isDigit_whole⟩ }
  rw [← List.append_assoc, number_parts hparts', List.length_append]
  constructor
  · simp only [List.length_cons]
    omega
  · intro hlength _
    simp only [List.length_cons] at hlength ⊢
    -- There are no more digits, no fraction, and nothing else behind.
    obtain rfl : digits = [] := List.length_eq_zero_iff.mp (by omega)
    have hfraction : fraction = [] := by
      by_contra hne
      have hlength' : (Text.fractionText fraction).length = fraction.length + 1 := by
        simp [Text.fractionText, hne]
      omega
    have hzero : (numberWith (c :: (more ++ [])) fraction after).2 = 0 := by omega
    rw [numberWith_eq_of_zero hzero, if_pos hfraction, List.append_nil, whole?_eq_ofOutcome hn]

/-- Digits and a fraction that a text begins with fit into the number there. -/
theorem number_fits_fraction {more fraction : List Char} (hmore : ∀ d ∈ more, d.isDigit = true)
    (hfraction : ∀ d ∈ fraction, d.isDigit = true) (hne : fraction ≠ []) (rest : List Char) :
    Fits (c :: (more ++ Text.fractionText fraction))
      (some (.double (doubleOf (c :: more) fraction none)))
      (number c (more ++ (Text.fractionText fraction ++ rest))) := by
  obtain ⟨digits, after, rfl, -, hdigits, hafter⟩ := exists_run Char.isDigit rest
  have hne' : fraction ++ digits ≠ [] := by simp [hne]
  have hparts : Parts more (fraction ++ digits) after :=
    ⟨hmore, List.forall_mem_append.mpr ⟨hfraction, hdigits⟩, hafter, fun hnil => absurd hnil hne'⟩
  have htext : Text.fractionText fraction ++ (digits ++ after) =
      Text.fractionText (fraction ++ digits) ++ after := by
    simp [Text.fractionText, hne]
  have hlength : (Text.fractionText (fraction ++ digits)).length =
      (Text.fractionText fraction).length + digits.length := by
    simp [Text.fractionText, hne]
    omega
  rw [htext, number_parts hparts, hlength]
  constructor
  · simp only [List.length_append, List.length_cons]
    omega
  · intro hlength _
    simp only [List.length_append, List.length_cons] at hlength
    obtain rfl : digits = [] := List.length_eq_zero_iff.mp (by omega)
    have hzero : (numberWith (c :: more) (fraction ++ []) after).2 = 0 := by omega
    rw [numberWith_eq_of_zero hzero, if_neg hne', List.append_nil]
    rfl

/-- Digits and a fraction with the mark of a double are read with it. -/
theorem number_fraction_mark {more fraction : List Char} {mark : Char}
    (hmore : ∀ d ∈ more, d.isDigit = true) (hfraction : ∀ d ∈ fraction, d.isDigit = true)
    (hne : fraction ≠ []) (hmark : mark = 'd' ∨ mark = 'D') (rest : List Char) :
    number c (more ++ (Text.fractionText fraction ++ mark :: rest)) =
      (.token (.double (doubleOf (c :: more) fraction none)),
        more.length + (Text.fractionText fraction).length + 1) := by
  have hhead : ∀ d ∈ (mark :: rest).head?, d.isDigit = false := by
    intro d hd
    obtain rfl : mark = d := Option.some.inj hd
    rcases hmark with rfl | rfl <;> decide
  rw [number_parts ⟨hmore, hfraction, hhead, fun hnil => absurd hnil hne⟩]
  rcases hmark with rfl | rfl
  · simp [numberWith, beginsWithLetter, exponent?, hne]
  · simp [numberWith, beginsWithLetter, exponent?, hne]

/-- What stands behind the digits of a number with an exponent. -/
theorem parts_exponent {more fraction text : List Char} {e : Exponent}
    (hmore : ∀ d ∈ more, d.isDigit = true) (hfraction : ∀ d ∈ fraction, d.isDigit = true)
    (hexponent : Text.IsExponent e text) (rest : List Char) :
    Parts more fraction (text ++ rest) := by
  -- An exponent begins with a letter, which is no digit and no point.
  obtain ⟨letter, cs, rfl, hletter⟩ := hexponent.eq_cons
  refine ⟨hmore, hfraction, ?_, fun _ => ?_⟩
  · intro d hd
    obtain rfl : letter = d := Option.some.inj hd
    rcases hletter with rfl | rfl <;> decide
  · rcases hletter with rfl | rfl <;> rfl

/-- A number with an exponent takes all digits that follow, and a mark. -/
theorem numberWith_exponent {text : List Char} {e : Exponent} (hexponent : Text.IsExponent e text)
    (whole fraction rest : List Char) :
    numberWith whole fraction (text ++ rest) =
      (.token (.double (doubleOf whole fraction (some ⟨e.negative,
        e.digits ++ rest.takeWhile Char.isDigit,
        e.size + (rest.takeWhile Char.isDigit).length⟩))),
      e.size + (rest.takeWhile Char.isDigit).length +
        if beginsWithLetter 'd' 'D' (rest.dropWhile Char.isDigit) = true then 1 else 0) := by
  have hdecimal : beginsWithLetter 'm' 'M' (text ++ rest) = false := by
    obtain ⟨letter, cs, rfl, hletter⟩ := hexponent.eq_cons
    rcases hletter with rfl | rfl <;> rfl
  have hdrop : (text ++ rest).drop (e.size + (rest.takeWhile Char.isDigit).length) =
      rest.dropWhile Char.isDigit := by
    rw [hexponent.size_eq, ← List.drop_drop, List.drop_left]
    calc rest.drop (rest.takeWhile Char.isDigit).length
        = (rest.takeWhile Char.isDigit ++ rest.dropWhile Char.isDigit).drop
            (rest.takeWhile Char.isDigit).length := by rw [List.takeWhile_append_dropWhile]
      _ = rest.dropWhile Char.isDigit := List.drop_left
  simp only [numberWith, hdecimal, Bool.false_eq_true, reduceIte, exponent?_append hexponent rest,
    hdrop]

/-- A double with an exponent that a text begins with fits into the number there. -/
theorem number_fits_exponent {more fraction text : List Char} {e : Exponent}
    (hmore : ∀ d ∈ more, d.isDigit = true) (hfraction : ∀ d ∈ fraction, d.isDigit = true)
    (hexponent : Text.IsExponent e text) (rest : List Char) :
    Fits (c :: (more ++ (Text.fractionText fraction ++ text)))
      (some (.double (doubleOf (c :: more) fraction (some e))))
      (number c (more ++ (Text.fractionText fraction ++ (text ++ rest)))) := by
  rw [number_parts (parts_exponent hmore hfraction hexponent rest),
    numberWith_exponent hexponent, hexponent.size_eq]
  constructor
  · simp only [List.length_append, List.length_cons]
    omega
  · intro hlength _
    simp only [List.length_append, List.length_cons] at hlength
    have hnil : rest.takeWhile Char.isDigit = [] := List.length_eq_zero_iff.mp (by omega)
    rw [hnil, List.append_nil, List.length_nil, Nat.add_zero, ← hexponent.size_eq]
    rfl

/-- A double with an exponent and a mark is read with both. -/
theorem number_exponent_mark {more fraction text : List Char} {e : Exponent} {mark : Char}
    (hmore : ∀ d ∈ more, d.isDigit = true) (hfraction : ∀ d ∈ fraction, d.isDigit = true)
    (hexponent : Text.IsExponent e text) (hmark : mark = 'd' ∨ mark = 'D') (rest : List Char) :
    number c (more ++ (Text.fractionText fraction ++ (text ++ mark :: rest))) =
      (.token (.double (doubleOf (c :: more) fraction (some e))),
        more.length + (Text.fractionText fraction).length + (text.length + 1)) := by
  rw [number_parts (parts_exponent hmore hfraction hexponent _), numberWith_exponent hexponent,
    ← hexponent.size_eq]
  rcases hmark with rfl | rfl
  · simp [beginsWithLetter]
  · simp [beginsWithLetter]

/-- A decimal fits into the number that is read where a text begins with it. -/
theorem fits_decimal {digits : List Char} {mark : Char} (h : Text.IsDecimal digits)
    (hmark : mark = 'm' ∨ mark = 'M') :
    ∃ c more, digits ++ [mark] = c :: more ∧ c.isDigit = true ∧ ∀ rest,
      Fits (c :: more) (some (.decimal (String.ofList digits))) (number c (more ++ rest)) := by
  cases h with
  | whole h =>
    obtain ⟨c, more, rfl, hdigit, hmore⟩ := h.eq_cons
    refine ⟨c, more ++ [mark], rfl, hdigit, fun rest => ?_⟩
    rw [List.append_assoc, List.singleton_append, number_decimal hmore hmark]
    exact .of_eq rfl (by simp)
  | @fraction _ fraction h hfraction =>
    obtain ⟨c, more, rfl, hdigit, hmore⟩ := h.eq_cons
    refine ⟨c, more ++ '.' :: (fraction ++ [mark]), by simp, hdigit, fun rest => ?_⟩
    have happend : more ++ '.' :: (fraction ++ [mark]) ++ rest =
        more ++ '.' :: (fraction ++ mark :: rest) := by simp
    rw [happend, number_fraction hmore hmark hfraction.2 hfraction.1]
    refine .of_eq rfl ?_
    simp
    omega

/-- A double fits into the number that is read where a text begins with it. -/
theorem fits_double {whole fraction exponent mark : List Char} {exponent? : Option Exponent}
    (hwhole : Text.IsNumeral whole) (hfraction : ∀ d ∈ fraction, d.isDigit = true)
    (hexponent : Text.IsExponent? exponent? exponent)
    (hparts : fraction ≠ [] ∨ exponent? ≠ none)
    (hmark : mark = [] ∨ ∃ d, mark = [d] ∧ (d = 'd' ∨ d = 'D')) :
    ∃ c more, whole ++ (Text.fractionText fraction ++ (exponent ++ mark)) = c :: more ∧
      c.isDigit = true ∧ ∀ rest, Fits (c :: more)
        (some (.double (doubleOf whole fraction exponent?))) (number c (more ++ rest)) := by
  obtain ⟨c, more, rfl, hdigit, hmore⟩ := hwhole.eq_cons
  refine ⟨c, more ++ (Text.fractionText fraction ++ (exponent ++ mark)), rfl, hdigit,
    fun rest => ?_⟩
  rw [List.append_assoc, List.append_assoc, List.append_assoc]
  cases hexponent with
  | some hexponent =>
    rcases hmark with rfl | ⟨d, rfl, hd⟩
    · rw [List.append_nil]
      exact number_fits_exponent hmore hfraction hexponent rest
    · refine .of_eq (number_exponent_mark hmore hfraction hexponent hd rest) ?_
      simp
      omega
  | none =>
    have hne : fraction ≠ [] := hparts.resolve_right (by simp)
    rcases hmark with rfl | ⟨d, rfl, hd⟩
    · rw [List.append_nil, List.append_nil]
      exact number_fits_fraction hmore hfraction hne rest
    · refine .of_eq (number_fraction_mark hmore hfraction hne hd rest) ?_
      simp
      omega

end Lexeme

end EntityQuery
