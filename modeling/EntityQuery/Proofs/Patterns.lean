import EntityQuery.Proofs.Comparisons
import EntityQuery.Proofs.Readers
import EntityQuery.Sample.Orders

/-!
# What pattern matches mean

A test of a part of a text is compiled to a match with a bound pattern. `Like.Matches` is the usual
reading of patterns, in which `%` stands for any text, `_` for any one character, and nothing takes
their meaning away from them. `Builtin.Holds` is what the function asks, and `Expr.IsTest` says
which argument of each function is the text that it looks in and which one it looks for.

A pattern is read from left to right, and a pattern that is put together from two takes a text apart
into two (`Like.matches_append`). So the pattern that is made of a needle asks the function's
question of some text that the needle, read as a pattern itself, matches (`matches_pattern`). A
needle without wildcards matches itself alone, so its pattern is exact. One with a wildcard has no
exact pattern at all: whatever matches the needle also matches the needle with another character in
the place of the wildcard (`Like.matches_replace`).
-/

open Relation (ReflTransGen)

namespace EntityQuery

/-! ## Patterns -/

namespace Like

/-- A text matches a pattern. -/
def Matches : List Char → List Char → Prop
  | [], text => text = []
  | c :: pattern, text =>
    if c = '%' then ∃ rest, rest <:+ text ∧ Matches pattern rest
    else if c = '_' then ∃ any rest, text = any :: rest ∧ Matches pattern rest
    else ∃ rest, text = c :: rest ∧ Matches pattern rest

/-- A character stands for itself in a pattern. -/
def IsPlain (c : Char) : Prop := c ≠ '%' ∧ c ≠ '_'

instance (c : Char) : Decidable (IsPlain c) := inferInstanceAs (Decidable (c ≠ '%' ∧ c ≠ '_'))

variable {p q text : List Char} {c : Char}

/-- The wildcard of any text leaves some end of it to the rest of the pattern. -/
theorem matches_percent : Matches ('%' :: p) text ↔ ∃ rest, rest <:+ text ∧ Matches p rest := by
  rw [Matches, if_pos rfl]

/-- The wildcard of one character takes one. -/
theorem matches_underscore :
    Matches ('_' :: p) text ↔ ∃ any rest, text = any :: rest ∧ Matches p rest := by
  rw [Matches, if_neg (by decide), if_pos rfl]

/-- A plain character takes itself. -/
theorem matches_plain (h : IsPlain c) :
    Matches (c :: p) text ↔ ∃ rest, text = c :: rest ∧ Matches p rest := by
  rw [Matches, if_neg h.1, if_neg h.2]

/-- The wildcard of any text alone matches every text. -/
theorem matches_any (text : List Char) : Matches ['%'] text :=
  matches_percent.mpr ⟨[], List.nil_suffix, rfl⟩

/-- Two patterns after each other match a text that falls into two parts that they match. -/
theorem matches_append :
    Matches (p ++ q) text ↔ ∃ left right, text = left ++ right ∧ Matches p left ∧
      Matches q right := by
  induction p generalizing text with
  | nil =>
    constructor
    · intro h
      exact ⟨[], text, rfl, rfl, h⟩
    · rintro ⟨left, right, rfl, rfl, h⟩
      exact h
  | cons c p ih =>
    rw [List.cons_append]
    by_cases hpercent : c = '%'
    · subst hpercent
      rw [matches_percent]
      constructor
      · -- What the wildcard passes over is put before what the first pattern takes.
        rintro ⟨rest, ⟨passed, rfl⟩, h⟩
        obtain ⟨left, right, rfl, hp, hq⟩ := ih.mp h
        have hleft : Matches ('%' :: p) (passed ++ left) :=
          matches_percent.mpr ⟨left, List.suffix_append _ _, hp⟩
        exact ⟨passed ++ left, right, by simp, hleft, hq⟩
      · rintro ⟨left, right, rfl, hleft, hq⟩
        obtain ⟨rest, ⟨passed, rfl⟩, hp⟩ := matches_percent.mp hleft
        exact ⟨rest ++ right, ⟨passed, by simp⟩, ih.mpr ⟨rest, right, rfl, hp, hq⟩⟩
    · by_cases hunderscore : c = '_'
      · subst hunderscore
        rw [matches_underscore]
        constructor
        · rintro ⟨any, rest, rfl, h⟩
          obtain ⟨left, right, rfl, hp, hq⟩ := ih.mp h
          exact ⟨any :: left, right, rfl, matches_underscore.mpr ⟨any, left, rfl, hp⟩, hq⟩
        · rintro ⟨left, right, rfl, hleft, hq⟩
          obtain ⟨any, rest, rfl, hp⟩ := matches_underscore.mp hleft
          exact ⟨any, rest ++ right, rfl, ih.mpr ⟨rest, right, rfl, hp, hq⟩⟩
      · have hplain : IsPlain c := ⟨hpercent, hunderscore⟩
        rw [matches_plain hplain]
        constructor
        · rintro ⟨rest, rfl, h⟩
          obtain ⟨left, right, rfl, hp, hq⟩ := ih.mp h
          exact ⟨c :: left, right, rfl, (matches_plain hplain).mpr ⟨left, rfl, hp⟩, hq⟩
        · rintro ⟨left, right, rfl, hleft, hq⟩
          obtain ⟨rest, rfl, hp⟩ := (matches_plain hplain).mp hleft
          exact ⟨rest ++ right, rfl, ih.mpr ⟨rest, right, rfl, hp, hq⟩⟩

/-- A text matches itself. -/
theorem matches_self (text : List Char) : Matches text text := by
  induction text with
  | nil => rfl
  | cons c text ih =>
    by_cases hpercent : c = '%'
    · subst hpercent
      exact matches_percent.mpr ⟨text, List.suffix_cons _ _, ih⟩
    · by_cases hunderscore : c = '_'
      · subst hunderscore
        exact matches_underscore.mpr ⟨'_', text, rfl, ih⟩
      · exact (matches_plain ⟨hpercent, hunderscore⟩).mpr ⟨text, rfl, ih⟩

/-- A pattern without wildcards matches itself alone. -/
theorem eq_of_matches (hp : ∀ c ∈ p, IsPlain c) (h : Matches p text) : text = p := by
  induction p generalizing text with
  | nil => exact h
  | cons c p ih =>
    obtain ⟨rest, rfl, hrest⟩ := (matches_plain (hp c List.mem_cons_self)).mp h
    rw [ih (fun d hd => hp d (List.mem_cons_of_mem c hd)) hrest]

/-- An occurrence of a wildcard in a text is only matched by a wildcard, so any other character may
stand in its place. -/
theorem matches_replace {before after : List Char} (hc : ¬IsPlain c)
    (h : Matches p (before ++ c :: after)) (d : Char) : Matches p (before ++ d :: after) := by
  induction p generalizing before with
  | nil => exact absurd h (by simp [Matches])
  | cons e p ih =>
    by_cases hpercent : e = '%'
    · subst hpercent
      obtain ⟨rest, ⟨passed, heq⟩, hp⟩ := matches_percent.mp h
      rw [matches_percent]
      -- What is left to the rest of the pattern has the occurrence in it, or begins after it.
      rcases List.append_eq_append_iff.mp heq with ⟨start, rfl, rfl⟩ | ⟨skipped, rfl, hafter⟩
      · exact ⟨start ++ d :: after, ⟨passed, by simp⟩, ih hp⟩
      · cases skipped with
        | nil =>
          obtain rfl : rest = c :: after := hafter.symm
          have hreplaced : Matches p ([] ++ d :: after) := ih hp
          exact ⟨d :: after, List.suffix_append _ _, hreplaced⟩
        | cons b skipped =>
          obtain ⟨rfl, rfl⟩ := List.cons.inj hafter
          exact ⟨rest, ⟨before ++ d :: skipped, by simp⟩, hp⟩
    · by_cases hunderscore : e = '_'
      · subst hunderscore
        obtain ⟨any, rest, heq, hp⟩ := matches_underscore.mp h
        rw [matches_underscore]
        cases before with
        | nil =>
          obtain ⟨rfl, rfl⟩ := List.cons.inj heq
          exact ⟨d, after, rfl, hp⟩
        | cons b before =>
          obtain ⟨rfl, rfl⟩ := List.cons.inj heq
          exact ⟨b, before ++ d :: after, rfl, ih hp⟩
      · have hplain : IsPlain e := ⟨hpercent, hunderscore⟩
        obtain ⟨rest, heq, hp⟩ := (matches_plain hplain).mp h
        rw [matches_plain hplain]
        cases before with
        | nil =>
          -- A plain character is no wildcard.
          obtain ⟨rfl, -⟩ := List.cons.inj heq
          exact absurd hplain hc
        | cons b before =>
          obtain ⟨rfl, rfl⟩ := List.cons.inj heq
          exact ⟨before ++ d :: after, rfl, ih hp⟩

end Like

/-! ## The patterns of functions -/

/-- What a test of a part of a text asks of a needle and a text. -/
def Builtin.Holds (f : Builtin) (needle text : List Char) : Prop :=
  match f with
  | .startsWith => needle <+: text
  | .endsWith => needle <:+ text
  | _ => needle <:+: text

namespace Builtin

variable {f : Builtin} {needle text : List Char}

/-- Every test finds a text in itself. -/
theorem holds_self (f : Builtin) (text : List Char) : f.Holds text text := by
  unfold Holds
  split
  · exact List.prefix_refl text
  · exact List.suffix_refl text
  · exact List.infix_refl text

/-- No test finds a text in another one of the same length. -/
theorem Holds.eq_of_length (h : f.Holds needle text) (hlength : needle.length = text.length) :
    needle = text := by
  unfold Holds at h
  split at h
  · exact List.IsPrefix.eq_of_length h hlength
  · exact List.IsSuffix.eq_of_length h hlength
  · exact List.IsInfix.eq_of_length h hlength

/-- The pattern of a needle asks the function's question of the texts that the needle itself
matches. -/
theorem matches_pattern (hkind : f.kind = .patternMatch) (needle : String) :
    Like.Matches (f.pattern needle).toList text ↔
      ∃ part, f.Holds part text ∧ Like.Matches needle.toList part := by
  cases f with
  | startsWith =>
    have hpattern : (pattern .startsWith needle).toList = needle.toList ++ ['%'] :=
      String.toList_append
    rw [hpattern, Like.matches_append]
    constructor
    · rintro ⟨part, rest, rfl, hpart, -⟩
      exact ⟨part, List.prefix_append part rest, hpart⟩
    · rintro ⟨part, ⟨rest, rfl⟩, hpart⟩
      exact ⟨part, rest, rfl, hpart, Like.matches_any rest⟩
  | endsWith =>
    have hpattern : (pattern .endsWith needle).toList = '%' :: needle.toList :=
      String.toList_append
    rw [hpattern, Like.matches_percent]
    rfl
  | substringOf =>
    have hpattern : (pattern .substringOf needle).toList = '%' :: (needle.toList ++ ['%']) := by
      unfold pattern
      rw [String.toList_append, String.toList_append]
      rfl
    rw [hpattern, Like.matches_percent]
    constructor
    · rintro ⟨_, ⟨before, rfl⟩, hrest⟩
      obtain ⟨part, after, rfl, hpart, -⟩ := Like.matches_append.mp hrest
      exact ⟨part, ⟨before, after, by simp⟩, hpart⟩
    · rintro ⟨part, ⟨before, after, rfl⟩, hpart⟩
      refine ⟨part ++ after, ⟨before, by simp⟩, ?_⟩
      exact Like.matches_append.mpr ⟨part, after, rfl, hpart, Like.matches_any after⟩
  | _ => cases hkind

/-- The pattern of a needle without wildcards is exact. -/
theorem matches_pattern_iff (hkind : f.kind = .patternMatch) {needle : String}
    (hplain : ∀ c ∈ needle.toList, Like.IsPlain c) :
    Like.Matches (f.pattern needle).toList text ↔ f.Holds needle.toList text := by
  rw [matches_pattern hkind]
  constructor
  · rintro ⟨part, hpart, hmatches⟩
    rw [← Like.eq_of_matches hplain hmatches]
    exact hpart
  · intro h
    exact ⟨needle.toList, h, Like.matches_self _⟩

/-- A needle with a wildcard has no exact pattern. -/
theorem no_pattern {c : Char} (hc : c ∈ needle) (hwildcard : ¬Like.IsPlain c)
    (p : List Char) : ¬∀ text, Like.Matches p text ↔ f.Holds needle text := by
  intro hexact
  obtain ⟨before, after, rfl⟩ := List.append_of_mem hc
  have hself : Like.Matches p (before ++ c :: after) := (hexact _).mpr (f.holds_self _)
  -- Neither wildcard is a letter, and a letter in its place makes another text.
  have hother := (hexact _).mp (Like.matches_replace hwildcard hself 'a')
  have heq := hother.eq_of_length (by simp)
  obtain ⟨rfl, -⟩ := List.cons.inj (List.append_cancel_left heq)
  exact hwildcard (by decide)

end Builtin

/-! ## Bound patterns -/

/-- A call that tests a text for a part of it. What is looked for is the second argument of
`startswith` and `endswith`, and the first one of `substringof`. -/
inductive Expr.IsTest (haystack needle : Expr) : Builtin → Expr → Prop
  | startsWith : IsTest haystack needle .startsWith (.call .startsWith [haystack, needle])
  | endsWith : IsTest haystack needle .endsWith (.call .endsWith [haystack, needle])
  | substringOf : IsTest haystack needle .substringOf (.call .substringOf [needle, haystack])

/-- A test is a call of a function that becomes a pattern match, with its arguments in the order of
the function. -/
theorem Expr.IsTest.eq_call {e haystack needle : Expr} {f : Builtin}
    (h : Expr.IsTest haystack needle f e) :
    ∃ first second, e = .call f [first, second] ∧ f.kind = .patternMatch ∧
      f.haystackFirst first second = (haystack, needle) := by
  cases h with
  | startsWith => exact ⟨haystack, needle, rfl, rfl, rfl⟩
  | endsWith => exact ⟨haystack, needle, rfl, rfl, rfl⟩
  | substringOf => exact ⟨needle, haystack, rfl, rfl, rfl⟩

namespace Text

/-- Bytes are read from digits alone. -/
theorem hexDigit?_of_decodeHex {cs : List Char} {bytes : List UInt8}
    (h : decodeHex cs = some bytes) : ∀ c ∈ cs, hexDigit? c ≠ none := by
  induction cs using decodeHex.induct generalizing bytes with
  | case1 => nofun
  | case2 c => cases h
  | case3 high low cs ih =>
    simp only [decodeHex, Option.bind_eq_bind, Option.bind_eq_some_iff] at h
    obtain ⟨_, hhigh, _, hlow, rest, hrest, -⟩ := h
    intro c hc
    rcases List.mem_cons.mp hc with rfl | hc
    · simp [hhigh]
    · rcases List.mem_cons.mp hc with rfl | hc
      · simp [hlow]
      · exact ih hrest c hc

end Text

/-- No text with a percent sign is read as a point in time, an identifier or bytes. -/
theorem Value.eq_string_of_ofText {text : String} {declared : EdmType} {v : Value}
    (hpercent : '%' ∈ text.toList) (h : ofText text declared = some v) : v = .string text := by
  have hinstant : Instant.ofText? text.toList = none := by
    rw [Option.eq_none_iff_forall_ne_some]
    intro t ht
    exact absurd (Instant.isMark_of_ofText? ht _ hpercent) (by decide)
  have hhex : ∀ cs, '%' ∈ cs → Text.decodeHex cs = none := by
    intro cs hmem
    rw [Option.eq_none_iff_forall_ne_some]
    intro bytes hbytes
    exact Text.hexDigit?_of_decodeHex hbytes _ hmem (by decide)
  have hguid : Guid.ofText? text.toList = none := by
    unfold Guid.ofText?
    dsimp only
    rw [hhex]
    · rfl
    · split
      · exact List.mem_filter.mpr ⟨hpercent, by decide⟩
      · exact hpercent
  unfold ofText at h
  split at h
  · rw [hinstant] at h
    cases h
  · rw [hinstant] at h
    cases h
  · rw [hguid] at h
    cases h
  · rw [hhex _ hpercent] at h
    cases h
  · cases h
    rfl

/-- Every pattern of a test has a percent sign in it. -/
theorem Builtin.percent_mem_pattern (f : Builtin) (needle : String) :
    '%' ∈ (f.pattern needle).toList := by
  unfold pattern
  split <;> simp

/-- A text literal that is looked for is bound as the pattern of the test, whatever type it is
declared with. -/
theorem Fragment.bound_pattern {c : Config} {f : Builtin} {needle : String} {ty : EdmType}
    {pattern : Scalar} {b b' : Binding}
    (h : ((literal (.string needle) ty).asPattern f).toScalar c b = .ok pattern b') :
    pattern = .parameter (b.nextName c) ∧ b' = b.push c (.string (f.pattern needle)) := by
  rcases toScalar_ok.mp h with ⟨_, heq, -⟩ | ⟨v, _, w, heq, hnormal, hpattern, hb⟩
  · cases heq
  · cases heq
    refine ⟨hpattern, ?_⟩
    rcases Value.normalize_ok hnormal with rfl | ⟨text, htext, hread⟩
    · exact hb
    · cases htext
      rw [Value.eq_string_of_ofText (f.percent_mem_pattern needle) hread] at hb
      exact hb

namespace Scope

variable {s : Scope} {f : Builtin} {e haystack : Expr} {needle : String} {ty : EdmType}
  {depth : Nat} {t t' : Session} {compiled : Compiled}

/-- A test with a text literal for its needle becomes a match of what its haystack is lowered to
with the pattern of the needle, which is bound. -/
theorem like_of_visit (htest : Expr.IsTest haystack (.constant (.string needle) ty) f e)
    (h : s.visit depth e t = .ok compiled t') :
    ∃ value name, compiled = .complete (.predicate (.like value (.parameter name))) ∧
      value.OperandOf s t' haystack ∧
      t'.parameters.get? name = some (.string (f.pattern needle)) := by
  have hdepth := lt_maxDepth_of_visit_ok h
  obtain ⟨first, second, rfl, hkind, hargs⟩ := htest.eq_call
  unfold visit at h
  rw [if_neg hdepth] at h
  simp only [visit.visitAll, bind_eq_ok, onBinding_eq_ok, pure_eq_ok] at h
  obtain ⟨_, t₁, ⟨l, t₂, hfirst, _, _, ⟨r, _, hsecond, _, _, ⟨rfl, rfl⟩, rfl, rfl⟩, rfl, rfl⟩,
    binding, hcompile, rfl⟩ := h
  -- The arguments tell of themselves by their fragments, whichever of the two is the needle.
  have hleft := (traced_visit hfirst).1.fragment.grows ((s.visit_gathers _ second).moves.ok hsecond)
  have hright := (traced_visit hsecond).1.fragment
  have htraced := f.haystackFirst_means (R := fun (e : Expr) (x : Fragment) => x.Traced s t₁ e)
    hleft hright
  rw [hargs] at htraced
  have hliteral := htraced.2.eq_literal
  cases Builtin.compile_ok hcompile with
  | function hdirect =>
    rw [hkind] at hdirect
    cases hdirect
  | pattern _ hvalue hpattern =>
    have hgrows := Session.grows_toScalar (s := s) t₁.joins hpattern
    have hhaystack := (htraced.1.toScalar hvalue).grows hgrows
    rw [hliteral] at hpattern
    obtain ⟨rfl, rfl⟩ := Fragment.bound_pattern hpattern
    exact ⟨_, _, rfl, hhaystack, Binding.get?_push _ _ _⟩
  | comparison hother =>
    rw [hkind] at hother
    cases hother
  | position hother =>
    rw [hkind] at hother
    cases hother

/-- What the pattern means that a test with a text literal for its needle is compiled to, at any
depth of an expression and in every session that goes on from there. What the haystack is lowered to
is matched with it. It matches the texts in which the function finds some text that the needle
matches when it is read as a pattern itself, and so all texts in which the function finds the
needle. For a needle without wildcards it matches no others; for a needle with a wildcard there is
no pattern at all that matches just these texts. -/
theorem bound_pattern_meaning (htest : Expr.IsTest haystack (.constant (.string needle) ty) f e)
    (h : s.visit depth e t = .ok compiled t') :
    ∃ value name pattern,
      compiled = .complete (.predicate (.like value (.parameter name))) ∧
      value.OperandOf s t' haystack ∧
      (∀ t'', ReflTransGen (Session.Adds s) t' t'' →
        t''.parameters.get? name = some (.string pattern)) ∧
      (∀ text, Like.Matches pattern.toList text ↔
        ∃ part, f.Holds part text ∧ Like.Matches needle.toList part) ∧
      (∀ text, f.Holds needle.toList text → Like.Matches pattern.toList text) ∧
      ((∀ c ∈ needle.toList, Like.IsPlain c) →
        ∀ text, Like.Matches pattern.toList text ↔ f.Holds needle.toList text) ∧
      ((∃ c ∈ needle.toList, ¬Like.IsPlain c) →
        ∀ p, ¬∀ text, Like.Matches p text ↔ f.Holds needle.toList text) := by
  obtain ⟨value, name, hlike, hhaystack, hbound⟩ := like_of_visit htest h
  obtain ⟨first, second, -, hkind, -⟩ := htest.eq_call
  refine ⟨value, name, f.pattern needle, hlike, hhaystack, ?_, ?_, ?_, ?_, ?_⟩
  · intro t'' hgrows
    exact Binding.get?_of_grows (Session.binding_grow hgrows) hbound
  · intro text
    exact Builtin.matches_pattern hkind needle
  · intro text hholds
    exact (Builtin.matches_pattern hkind needle).mpr ⟨_, hholds, Like.matches_self _⟩
  · intro hplain text
    exact Builtin.matches_pattern_iff hkind hplain
  · rintro ⟨c, hc, hwildcard⟩
    exact Builtin.no_pattern hc hwildcard

end Scope

namespace Shop

/-- The name of a customer. -/
def customerName : Expr := .property ["name"] .string

/-- The test that the name of a customer begins with a text. -/
def nameBegins (needle : String) : Expr :=
  .call .startsWith [customerName, .constant (.string needle) .string]

/-- The test that the name of a customer ends with a text. -/
def nameEnds (needle : String) : Expr :=
  .call .endsWith [customerName, .constant (.string needle) .string]

/-- The test that a text is part of the name of a customer. -/
def nameContains (needle : String) : Expr :=
  .call .substringOf [.constant (.string needle) .string, customerName]

/-- Customers whose names begin with two letters, end with them or have them inside are the ones
whose names the bound pattern matches. -/
theorem nameTests_meaning :
    (∃ (compiled : Compiled) (t' : Session) (value : Scalar) (name pattern : String),
      customers.visit 0 (nameBegins "Al") .start = .ok compiled t' ∧
      value.OperandOf customers t' customerName ∧
      t'.parameters.get? name = some (.string pattern) ∧
      ∀ text, Like.Matches pattern.toList text ↔ "Al".toList <+: text) ∧
    (∃ (compiled : Compiled) (t' : Session) (value : Scalar) (name pattern : String),
      customers.visit 0 (nameEnds "Al") .start = .ok compiled t' ∧
      value.OperandOf customers t' customerName ∧
      t'.parameters.get? name = some (.string pattern) ∧
      ∀ text, Like.Matches pattern.toList text ↔ "Al".toList <:+ text) ∧
    ∃ (compiled : Compiled) (t' : Session) (value : Scalar) (name pattern : String),
      customers.visit 0 (nameContains "Al") .start = .ok compiled t' ∧
      value.OperandOf customers t' customerName ∧
      t'.parameters.get? name = some (.string pattern) ∧
      ∀ text, Like.Matches pattern.toList text ↔ "Al".toList <:+: text := by
  have hplain : ∀ c ∈ "Al".toList, Like.IsPlain c := by simp [Like.IsPlain]
  refine ⟨?begins, ?ends, ?contains⟩
  case begins =>
    obtain ⟨compiled, t', h⟩ := exists_of_succeeds
      (show succeeds (customers.visit 0 (nameBegins "Al") .start) = true by decide +kernel)
    obtain ⟨value, name, pattern, -, hvalue, hbound, -, -, hexact, -⟩ :=
      Scope.bound_pattern_meaning .startsWith h
    exact ⟨compiled, t', value, name, pattern, h, hvalue, hbound t' .refl, hexact hplain⟩
  case ends =>
    obtain ⟨compiled, t', h⟩ := exists_of_succeeds
      (show succeeds (customers.visit 0 (nameEnds "Al") .start) = true by decide +kernel)
    obtain ⟨value, name, pattern, -, hvalue, hbound, -, -, hexact, -⟩ :=
      Scope.bound_pattern_meaning .endsWith h
    exact ⟨compiled, t', value, name, pattern, h, hvalue, hbound t' .refl, hexact hplain⟩
  case contains =>
    obtain ⟨compiled, t', h⟩ := exists_of_succeeds
      (show succeeds (customers.visit 0 (nameContains "Al") .start) = true by decide +kernel)
    obtain ⟨value, name, pattern, -, hvalue, hbound, -, -, hexact, -⟩ :=
      Scope.bound_pattern_meaning .substringOf h
    exact ⟨compiled, t', value, name, pattern, h, hvalue, hbound t' .refl, hexact hplain⟩

/-- A percent sign as a needle is bound as the pattern of two percent signs, which matches a name
that does not begin with one. -/
theorem nameBegins_percent :
    ∃ t', customers.visit 0 (nameBegins "%") .start =
        .ok (.complete (.predicate (.like (.column none "name") (.parameter "p0")))) t' ∧
      t'.parameters.get? "p0" = some (.string "%%") ∧ Like.Matches "%%".toList "Al".toList ∧
      ¬Builtin.Holds .startsWith "%".toList "Al".toList := by
  refine ⟨_, rfl, rfl, ?_, ?_⟩
  · exact Like.matches_percent.mpr ⟨[], List.nil_suffix, Like.matches_any []⟩
  · show ¬"%".toList <+: "Al".toList
    decide

end Shop

end EntityQuery
