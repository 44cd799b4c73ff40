import EntityQuery.Proofs.FilterReading
import EntityQuery.Proofs.UniqueReading

/-!
# Whole numbers in filters

A whole number is written with its digits, after a minus sign when it is negative. The sign is a
token of its own, so the digits of a negative number are read as the number without its sign
(`Expr.ofFilter_signed`), and that is in the range of 64 bits for every number but the least one,
which cannot be written: its digits are no token (`Expr.ofFilter_wholeNumber`). The width of a
constant is chosen after the sign is taken in, so the least number of 32 bits has that width.
-/

namespace EntityQuery

open Lexeme (numberOf startingAt)

/-- A value is an integer in the narrower of two widths. -/
def Value.IsNarrowest (n : Int) : Value → Prop
  | .int32 i => i.toInt = n
  | .int64 i => i.toInt = n ∧ ¬ (-2147483648 ≤ n ∧ n ≤ 2147483647)
  | _ => False

/-- A whole number without suffix is typed to a constant of the narrower width. -/
theorem Typing.constant_int (n : Int64) :
    ∃ v : Value, v.IsNarrowest n.toInt ∧
      ∀ span, Typing.constant (.int n) span = .ok (Expr.ofValue v) := by
  by_cases hfits : -2147483648 ≤ n.toInt ∧ n.toInt ≤ 2147483647
  · have hsame : n.toInt32.toInt = n.toInt := by
      rw [Int64.toInt_toInt32]
      exact Int.bmod_eq_of_le (by omega) (by omega)
    exact ⟨.int32 n.toInt32, hsame, fun _ => if_pos hfits⟩
  · exact ⟨.int64 n, ⟨rfl, hfits⟩, fun _ => if_neg hfits⟩

/-- A number with its sign changed is the number with the other sign, unless it is the least one. -/
theorem toInt_neg_of_ne_minValue {n : Int64} (hn : n ≠ Int64.minValue) :
    (-n).toInt = -n.toInt := by
  have hne : n.toInt ≠ -9223372036854775808 := fun h => hn (Int64.toInt.inj h)
  have hleast := n.le_toInt
  have hmost : n.toInt ≤ 9223372036854775807 := n.toInt_le
  rw [Int64.toInt_neg]
  exact Int.bmod_eq_of_le (by omega) (by omega)

/-- After a minus sign, a token is read from its spelling. -/
theorem Lexeme.reads_negated {t : Token} {s : String} (h : t.Spells s) (offset : Nat) :
    Reads (startingAt offset ('-' :: s.toList)) [.symbol .minus, t] [] := by
  obtain ⟨l, hl, hstart⟩ := startingAt_symbol .minus offset s.toList
  have hsign : startingAt offset ('-' :: s.toList) = l :: startingAt (offset + 1) s.toList := hstart
  rw [hsign]
  exact .cons hl (reads_spelling h (offset + 1))

namespace Expr

variable {m : Metadata} {root : String}

/-- A number that is not the least one is read from its text with its sign, where its digits are
written as a literal of the kind. -/
theorem ofFilter_signed {literal : Int64 → Literal} {suffix : String} {e : Expr} {n : Int64}
    (hspells : ∀ (k : Int64) (digits : String), Text.IsNumeral digits.toList →
      numberOf digits.toList = k.toInt → (literal k).token.Spells (digits ++ suffix))
    (hnegate : ∀ k, (literal k).negate? = some (literal (-k)))
    (hconstant : ∀ span, Typing.constant (literal n) span = .ok e) (hn : n ≠ Int64.minValue) :
    ofFilter m root (toString n.toInt ++ suffix) = .ok e ↔ m.hasEntity root = true := by
  obtain ⟨digits, hdigits, ⟨htext, hvalue⟩ | ⟨htext, hvalue⟩⟩ := Text.exists_numeral n.toInt
  · have hwhole : (literal n).token.Spells (toString n.toInt ++ suffix) := by
      refine hspells n (toString n.toInt) ?_ ?_
      · rwa [htext]
      · rwa [htext]
    exact ofFilter_literal (Lexeme.reads_spelling hwhole 0) hconstant
  · -- The digits are those of the number without its sign.
    have hopposite : (literal (-n)).token.Spells (String.ofList digits ++ suffix) := by
      refine hspells (-n) (String.ofList digits) ?_ ?_
      · rwa [String.toList_ofList]
      · rw [String.toList_ofList, toInt_neg_of_ne_minValue hn]
        omega
    have htokens := Lexeme.reads_negated hopposite 0
    have hsource : (toString n.toInt ++ suffix).toList =
        '-' :: (String.ofList digits ++ suffix).toList := by
      rw [String.toList_append, htext, String.toList_append, String.toList_ofList]
      rfl
    rw [← hsource] at htokens
    refine ofFilter_negated htokens (hnegate (-n)) ?_
    rwa [Int64.neg_neg]

/-- Where the text of the least number has a piece that is no token, only the others are read. -/
theorem ofFilter_signed_ok {suffix : String} {e : Expr} {n : Int64}
    (hleast : (tokenize (toString Int64.minValue.toInt ++ suffix)).isOk = false)
    (h : ofFilter m root (toString n.toInt ++ suffix) = .ok e) :
    m.hasEntity root = true ∧ n ≠ Int64.minValue := by
  refine ⟨(ofFilter_eq_ok_iff.mp h).1, ?_⟩
  rintro rfl
  exact ofFilter_ne_ok hleast h

/-- The texts of all whole numbers but the least one of 64 bits, with a minus sign when they are
negative, are read as their constants where the entity type is known: with the suffix as 64 bits
wide, and without it as 32 bits wide where they fit. The texts of the least number are read as
nothing, for the digits after its sign are out of the range of a token. -/
theorem ofFilter_wholeNumber (m : Metadata) (root : String) (n : Int64) :
    ((∃ v : Value, v.IsNarrowest n.toInt ∧
        ofFilter m root (toString n.toInt) = .ok (ofValue v)) ↔
      m.hasEntity root = true ∧ n ≠ Int64.minValue) ∧
    (ofFilter m root (toString n.toInt ++ "L") = .ok (ofValue (.int64 n)) ↔
      m.hasEntity root = true ∧ n ≠ Int64.minValue) := by
  constructor
  · have hspells : ∀ (k : Int64) (digits : String), Text.IsNumeral digits.toList →
        numberOf digits.toList = k.toInt → (Literal.int k).token.Spells (digits ++ "") := by
      intro k digits hdigits hk
      rw [String.append_empty]
      exact .int hdigits hk
    obtain ⟨v, hv, hconstant⟩ := Typing.constant_int n
    rw [← String.append_empty (s := toString n.toInt)]
    constructor
    · rintro ⟨_, -, hok⟩
      exact ofFilter_signed_ok (by decide +kernel) hok
    · rintro ⟨hknown, hn⟩
      exact ⟨v, hv, (ofFilter_signed hspells (fun _ => rfl) hconstant hn).mpr hknown⟩
  · have hspells : ∀ (k : Int64) (digits : String), Text.IsNumeral digits.toList →
        numberOf digits.toList = k.toInt → (Literal.long k).token.Spells (digits ++ "L") :=
      fun _ _ hdigits hk => .long hdigits hk (.inr rfl)
    constructor
    · exact ofFilter_signed_ok (by decide +kernel)
    · rintro ⟨hknown, hn⟩
      exact (ofFilter_signed hspells (fun _ => rfl) (fun _ => rfl) hn).mpr hknown

end Expr

/-- The least number of 64 bits has a text that is no filter on customers of the shop, though the
least one of 32 bits has one. -/
theorem Shop.least_number_unwritable :
    schema.metadata.hasEntity "Customer" = true ∧
    toString Int64.minValue.toInt = "-9223372036854775808" ∧
    (∀ e, Expr.ofFilter schema.metadata "Customer" "-9223372036854775808" ≠ .ok e) ∧
    ∀ e, Expr.ofFilter schema.metadata "Customer" "-9223372036854775808L" ≠ .ok e := by
  refine ⟨by decide, by decide, ?_, ?_⟩
  · exact fun _ => Expr.ofFilter_ne_ok (by decide +kernel)
  · exact fun _ => Expr.ofFilter_ne_ok (by decide +kernel)

end EntityQuery
