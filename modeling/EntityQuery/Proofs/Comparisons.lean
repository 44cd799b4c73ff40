import EntityQuery.Proofs.Meaning

/-!
# Where comparisons come from

The comparisons of a predicate are not those of the expression: a waiting call takes the comparison
around it into itself, a test against `null` compares nothing, and a Boolean value is compared with
`true` where no comparison was written. `Scope.Stems` lists what a comparison of a predicate can
stem from, with the expressions that its operands were written as; an operand is tied to its
expression by the run that compiled the one to the other (`Scalar.ValueOf`, `Scalar.OperandOf`).
`Scope.NullTest` is what becomes of a comparison with the literal `null`, and `Scope.CallTest` what
becomes of one of a waiting call.

`Compiled.Traced` says of what an expression was compiled to that all of its comparisons stem from
parts of the expression. It is kept when the session grows, and each step of compilation keeps it,
so it holds of every run, together with the other direction: a comparison with `null` and one of a
waiting call are found again as their tests (`Scope.traced_visit`).
-/

open Relation (ReflTransGen)

namespace EntityQuery

/-! ## Parts and tests -/

/-- The parts of an expression, itself among them. -/
def Expr.parts : Expr → List Expr
  | .logical op left right => .logical op left right :: (left.parts ++ right.parts)
  | .arithmetic op left right => .arithmetic op left right :: (left.parts ++ right.parts)
  | .relational op left right => .relational op left right :: (left.parts ++ right.parts)
  | .unary op operand => .unary op operand :: operand.parts
  | .call f args => .call f args :: partsOfAll args
  | .property path ty => [.property path ty]
  | .constant value ty => [.constant value ty]
where
  /-- The parts of the arguments of a call. -/
  partsOfAll : List Expr → List Expr
    | [] => []
    | e :: es => e.parts ++ partsOfAll es

/-- The tests that a predicate puts together. -/
def Predicate.tests : Predicate → List Predicate
  | .and left right | .or left right => left.tests ++ right.tests
  | .not operand => operand.tests
  | test => [test]

/-- The tests of a fragment; only a predicate has some. -/
def Fragment.tests : Fragment → List Predicate
  | .predicate p => p.tests
  | _ => []

/-- The declared type of a property or of a literal. -/
def Expr.leafTy? : Expr → Option EdmType
  | .property _ ty | .constant _ ty => some ty
  | _ => none

/-- An expression may stand in an order: no type of values without one is declared for it. -/
def Expr.HasOrder (e : Expr) : Prop := ∀ ty, e.leafTy? = some ty → ty.isEqualityOnly = false

/-- An expression is a part of itself. -/
theorem Expr.self_mem_parts (e : Expr) : e ∈ e.parts := by
  cases e <;> exact List.mem_cons_self

/-- The parts of a part are parts. -/
theorem Expr.parts_subset {part e : Expr} (h : part ∈ e.parts) : part.parts ⊆ e.parts := by
  induction e using @Expr.rec _
    (fun es => part ∈ Expr.parts.partsOfAll es → part.parts ⊆ Expr.parts.partsOfAll es) with
  | logical op left right ihl ihr | arithmetic op left right ihl ihr
  | relational op left right ihl ihr =>
    rcases List.mem_cons.mp h with rfl | h
    · exact List.Subset.refl _
    · rcases List.mem_append.mp h with h | h
      · exact fun sub hsub => List.mem_cons_of_mem _ (List.mem_append_left _ (ihl h hsub))
      · exact fun sub hsub => List.mem_cons_of_mem _ (List.mem_append_right _ (ihr h hsub))
  | unary op operand ih =>
    rcases List.mem_cons.mp h with rfl | h
    · exact List.Subset.refl _
    · exact fun sub hsub => List.mem_cons_of_mem _ (ih h hsub)
  | call f args ih =>
    rcases List.mem_cons.mp h with rfl | h
    · exact List.Subset.refl _
    · exact fun sub hsub => List.mem_cons_of_mem _ (ih h hsub)
  | property | constant =>
    rw [List.mem_singleton.mp h]
    exact List.Subset.refl _
  | nil =>
    rename_i h
    exact (List.not_mem_nil h).elim
  | cons e es ihe ihes =>
    rename_i h
    rcases List.mem_append.mp h with h | h
    · exact fun sub hsub => List.mem_append_left _ (ihe h hsub)
    · exact fun sub hsub => List.mem_append_right _ (ihes h hsub)

/-- The two operands of an expression are parts of what the expression is a part of. -/
theorem Expr.operands_mem_parts {node left right e : Expr} (h : node ∈ e.parts)
    (hparts : node.parts = node :: (left.parts ++ right.parts)) :
    left ∈ e.parts ∧ right ∈ e.parts := by
  have hsub := parts_subset h
  rw [hparts] at hsub
  have hleft := List.mem_append_left right.parts left.self_mem_parts
  have hright := List.mem_append_right left.parts right.self_mem_parts
  exact ⟨hsub (List.mem_cons_of_mem _ hleft), hsub (List.mem_cons_of_mem _ hright)⟩

/-- The arguments of a call are parts of what the call is a part of. -/
theorem Expr.arguments_mem_parts {f : Builtin} {first second e : Expr}
    (h : .call f [first, second] ∈ e.parts) : first ∈ e.parts ∧ second ∈ e.parts := by
  refine operands_mem_parts h ?_
  rw [← List.append_nil second.parts]
  rfl

/-- What has no declared type is no literal. -/
theorem Expr.literal?_of_leafTy? {e : Expr} (h : e.leafTy? = none) : e.literal? = none := by
  cases e with
  | constant => cases h
  | _ => rfl

/-- A call that waits for a comparison has no declared type. -/
theorem Expr.leafTy?_of_waiting? {e : Expr} (h : e.waiting? ≠ none) : e.leafTy? = none := by
  cases e with
  | property => exact absurd rfl h
  | constant => exact absurd rfl h
  | _ => rfl

/-- A condition and its negation have the same tests. -/
theorem Predicate.tests_keepIf (p : Predicate) (keep : Bool) : (p.keepIf keep).tests = p.tests := by
  cases keep with
  | true => rfl
  | false => rfl

/-- A connective puts the tests of both sides together. -/
theorem Predicate.tests_connective (op : LogicalOp) (p q : Predicate) :
    (Scope.connective op p q).tests = p.tests ++ q.tests := by
  cases op with
  | and => rfl
  | or => rfl

section

variable (s : Scope) (t : Session)

/-! ## What stems from what -/

/-- A scalar is the value of an expression: the expression was compiled to it, and the session has
grown from there to this one. -/
def Scalar.ValueOf (e : Expr) (x : Scalar) : Prop :=
  ∃ before ty after, s.Visited e before (.complete (.value x ty)) after ∧
    ReflTransGen (Session.Adds s) after t

/-- What a scalar shows of the expression that it is the value of: a column is that of a property,
and what is neither a property nor a literal is computed. -/
def Scalar.Shows (e : Expr) : Scalar → Prop
  | .column alias? name =>
    ∃ path ty last place, e = .property path ty ∧ path.getLast? = some last ∧
      s.place? t.joins path.dropLast = some place ∧ place.alias? = alias? ∧
      s.column? place last = some name
  | .parameter _ => False
  | _ => e.leafTy? = none

/-- A scalar is what an expression is lowered to: its value, or a parameter that is bound to a
literal. -/
inductive Scalar.OperandOf (e : Expr) : Scalar → Prop
  | value {x : Scalar} (h : x.ValueOf s t e) : OperandOf e x
  | literal {v w : Value} {ty : EdmType} {name : String} (he : e = .constant v ty)
      (hw : v.normalize ty = .ok w) (hname : t.parameters.get? name = some w) :
      OperandOf e (.parameter name)

/-- What a comparison of a predicate stems from, among the expressions that were written. -/
inductive Scope.Stems (written : List Expr) : RelationalOp → Scalar → Scalar → Prop
  /-- Two values are compared as it was written. -/
  | values {op : RelationalOp} {left right : Expr} {x y : Scalar}
      (hmem : .relational op left right ∈ written) (hleft : left.isNull = false)
      (hright : right.isNull = false)
      (horder : op.isEquality = true ∨ left.HasOrder ∧ right.HasOrder)
      (hx : x.OperandOf s t left) (hy : y.OperandOf s t right) : Stems written op x y
  /-- The arguments of a comparison function are compared, when it was compared with zero. -/
  | arguments {op : RelationalOp} {f : Builtin} {left right first second : Expr} {x y : Scalar}
      (hmem : .relational op left right ∈ written)
      (hwaiting : left.waiting? = some (f, first, second)) (hf : f ≠ .indexOf)
      (hop : op.isEquality = true ∨ f = .dateTimeCompare) (hzero : right.isZero = true)
      (hx : x.OperandOf s t (first.asOperand f)) (hy : y.OperandOf s t (second.asOperand f)) :
      Stems written (if op = .ne then .eq else op) x y
  /-- The start of a text is compared with what was looked for in it. -/
  | position {op : RelationalOp} {left right first second : Expr} {args : List Scalar} {y : Scalar}
      (hmem : .relational op left right ∈ written)
      (hwaiting : left.waiting? = some (.indexOf, first, second)) (hy : y.OperandOf s t second) :
      Stems written .eq (.function .substring args) y
  /-- A Boolean value is compared with `true`. -/
  | truth {e : Expr} {x : Scalar} {name : String} (hx : x.ValueOf s t e)
      (hname : t.parameters.get? name = some (.bool true)) : Stems written .eq x (.parameter name)

/-- All comparisons of a predicate stem from what was written. -/
def Predicate.StemsFrom (written : List Expr) (p : Predicate) : Prop :=
  ∀ op x y, .compare op x y ∈ p.tests → s.Stems t written op x y

/-- What a comparison with the literal `null` is compiled to: a test of the other operand, or a
constant when both are `null`. -/
inductive Scope.NullTest (op : RelationalOp) (left right : Expr) : Predicate → Prop
  | both (hleft : left.isNull = true) (hright : right.isNull = true) :
      NullTest op left right (.const (op == .eq))
  | left {x : Scalar} (hleft : left.isNull = false) (hright : right.isNull = true)
      (hx : x.OperandOf s t left) :
      NullTest op left right (if op == .eq then .isNull x else .isNotNull x)
  | right {x : Scalar} (hleft : left.isNull = true) (hright : right.isNull = false)
      (hx : x.OperandOf s t right) :
      NullTest op left right (if op == .eq then .isNull x else .isNotNull x)

/-- What a comparison of a waiting call is compiled to: the arguments of a comparison function are
compared, and the start of a text is compared with what is looked for in it. -/
inductive Scope.CallTest (op : RelationalOp) (f : Builtin) (first second : Expr) : Predicate → Prop
  | arguments {x y : Scalar} (hf : f ≠ .indexOf) (hx : x.OperandOf s t (first.asOperand f))
      (hy : y.OperandOf s t (second.asOperand f)) :
      CallTest op f first second (.compare (if op = .ne then .eq else op) x y)
  | position {args : List Scalar} {y : Scalar} (hf : f = .indexOf) (hy : y.OperandOf s t second) :
      CallTest op f first second (.compare .eq (.function .substring args) y)

/-- What becomes of a comparison that was written: one with `null`, other than of a waiting call, is
an equality and found again as its test, and one of a waiting call is found again as well. -/
def Scope.Found (tests : List Predicate) (op : RelationalOp) (left right : Expr) : Prop :=
  (left.waiting? = none → (left.isNull = true ∨ right.isNull = true) →
    op.isEquality = true ∧ ∃ test ∈ tests, s.NullTest t op left right test) ∧
  ∀ f first second, left.waiting? = some (f, first, second) →
    ∃ test ∈ tests, s.CallTest t op f first second test

/-- All comparisons that were written are found again. -/
def Scope.AllFound (written : List Expr) (tests : List Predicate) : Prop :=
  ∀ op left right, .relational op left right ∈ written → s.Found t tests op left right

/-- What is known of an expression by the fragment that it was compiled to. -/
def Fragment.Traced (e : Expr) : Fragment → Prop
  | .predicate p => e.leafTy? = none ∧ p.StemsFrom s t e.parts
  | .value x ty => x.ValueOf s t e ∧ ∀ leafTy, e.leafTy? = some leafTy → ty = leafTy
  | .literal v ty => e = .constant v ty
  | .deferred _ => e.waiting? ≠ none

/-- What is known of an expression by what it was compiled to. -/
def Compiled.Traced (e : Expr) : Compiled → Prop
  | .complete f => e.waiting? = none ∧ f.Traced s t e
  | .pending (.indexOf _ needle) =>
    ∃ first second, e.waiting? = some (.indexOf, first, second) ∧ needle.OperandOf s t second
  | .pending (.comparison f left right) =>
    f ≠ .indexOf ∧ ∃ first second, e.waiting? = some (f, first, second) ∧
      left.OperandOf s t (first.asOperand f) ∧ right.OperandOf s t (second.asOperand f)

end

section

variable {s : Scope} {t t' : Session} {e : Expr} {written written' : List Expr}
  {found found' : List Predicate}

/-! ## Growing sessions -/

/-- The value of an expression stays its value when the session grows. -/
theorem Scalar.ValueOf.grows {x : Scalar} (h : x.ValueOf s t e)
    (hgrows : ReflTransGen (Session.Adds s) t t') : x.ValueOf s t' e := by
  obtain ⟨before, ty, after, hvisited, hafter⟩ := h
  exact ⟨before, ty, after, hvisited, hafter.trans hgrows⟩

/-- What a scalar shows of an expression it goes on to show when the session grows. -/
theorem Scalar.Shows.grows {x : Scalar} (h : x.Shows s t e)
    (hgrows : ReflTransGen (Session.Adds s) t t') : x.Shows s t' e := by
  cases x with
  | column alias? name =>
    obtain ⟨path, ty, last, place, rfl, hlast, hplace, halias, hname⟩ := h
    have hplace' := Scope.place?_of_grows (Session.joins_grow hgrows) hplace
    exact ⟨path, ty, last, place, rfl, hlast, hplace', halias, hname⟩
  | _ => exact h

/-- What an expression is lowered to stays so when the session grows. -/
theorem Scalar.OperandOf.grows {x : Scalar} (h : x.OperandOf s t e)
    (hgrows : ReflTransGen (Session.Adds s) t t') : x.OperandOf s t' e := by
  cases h with
  | value hx => exact .value (hx.grows hgrows)
  | literal he hw hname =>
    exact .literal he hw (Binding.get?_of_grows (Session.binding_grow hgrows) hname)

/-- What a comparison stems from, it stems from when more was written and the session grows. -/
theorem Scope.Stems.mono {op : RelationalOp} {x y : Scalar} (h : s.Stems t written op x y)
    (hwritten : written ⊆ written') (hgrows : ReflTransGen (Session.Adds s) t t') :
    s.Stems t' written' op x y := by
  cases h with
  | values hmem hleft hright horder hx hy =>
    exact .values (hwritten hmem) hleft hright horder (hx.grows hgrows) (hy.grows hgrows)
  | arguments hmem hwaiting hf hop hzero hx hy =>
    exact .arguments (hwritten hmem) hwaiting hf hop hzero (hx.grows hgrows) (hy.grows hgrows)
  | position hmem hwaiting hy => exact .position (hwritten hmem) hwaiting (hy.grows hgrows)
  | truth hx hname =>
    exact .truth (hx.grows hgrows) (Binding.get?_of_grows (Session.binding_grow hgrows) hname)

/-- What a predicate stems from, it stems from when more was written and the session grows. -/
theorem Predicate.StemsFrom.mono {p : Predicate} (h : p.StemsFrom s t written)
    (hwritten : written ⊆ written') (hgrows : ReflTransGen (Session.Adds s) t t') :
    p.StemsFrom s t' written' :=
  fun op x y hmem => (h op x y hmem).mono hwritten hgrows

/-- The test for a comparison with `null` stays so when the session grows. -/
theorem Scope.NullTest.grows {op : RelationalOp} {left right : Expr} {test : Predicate}
    (h : s.NullTest t op left right test) (hgrows : ReflTransGen (Session.Adds s) t t') :
    s.NullTest t' op left right test := by
  cases h with
  | both hleft hright => exact .both hleft hright
  | left hleft hright hx => exact .left hleft hright (hx.grows hgrows)
  | right hleft hright hx => exact .right hleft hright (hx.grows hgrows)

/-- The test for a comparison with `null` is a single one. -/
theorem Scope.NullTest.mem_tests {op : RelationalOp} {left right : Expr} {test : Predicate}
    (h : s.NullTest t op left right test) : test ∈ test.tests := by
  have hsingle : ∀ x : Scalar, ∀ p, p = (if op == .eq then Predicate.isNull x else .isNotNull x) →
      p ∈ p.tests := by
    intro x p hp
    rw [hp]
    split
    · exact List.mem_singleton_self _
    · exact List.mem_singleton_self _
  cases h with
  | both hleft hright => exact List.mem_singleton_self _
  | left hleft hright hx => exact hsingle _ _ rfl
  | right hleft hright hx => exact hsingle _ _ rfl

/-- What the comparison of a waiting call is compiled to stays so when the session grows. -/
theorem Scope.CallTest.grows {op : RelationalOp} {f : Builtin} {first second : Expr}
    {test : Predicate} (h : s.CallTest t op f first second test)
    (hgrows : ReflTransGen (Session.Adds s) t t') : s.CallTest t' op f first second test := by
  cases h with
  | arguments hf hx hy => exact .arguments hf (hx.grows hgrows) (hy.grows hgrows)
  | position hf hy => exact .position hf (hy.grows hgrows)

/-- A comparison that is found again is so among more tests and when the session grows. -/
theorem Scope.Found.mono {op : RelationalOp} {left right : Expr}
    (h : s.Found t found op left right) (hfound : found ⊆ found')
    (hgrows : ReflTransGen (Session.Adds s) t t') : s.Found t' found' op left right := by
  refine ⟨?_, ?_⟩
  · intro hwaiting hnull
    obtain ⟨hop, test, htest, hnullTest⟩ := h.1 hwaiting hnull
    exact ⟨hop, test, hfound htest, hnullTest.grows hgrows⟩
  · intro f first second hwaiting
    obtain ⟨test, htest, hcallTest⟩ := h.2 f first second hwaiting
    exact ⟨test, hfound htest, hcallTest.grows hgrows⟩

namespace Scope.AllFound

/-- Comparisons that are found again are so among more tests and when the session grows. -/
theorem mono (h : s.AllFound t written found) (hfound : found ⊆ found')
    (hgrows : ReflTransGen (Session.Adds s) t t') : s.AllFound t' written found' :=
  fun op left right hmem => (h op left right hmem).mono hfound hgrows

/-- Comparisons are found again when those of both lists are. -/
theorem append (h : s.AllFound t written found) (h' : s.AllFound t written' found) :
    s.AllFound t (written ++ written') found := by
  intro op left right hmem
  rcases List.mem_append.mp hmem with hmem | hmem
  · exact h op left right hmem
  · exact h' op left right hmem

/-- What is no comparison adds none. -/
theorem cons (he : ∀ op left right, e ≠ .relational op left right)
    (h : s.AllFound t written found) : s.AllFound t (e :: written) found := by
  intro op left right hmem
  rcases List.mem_cons.mp hmem with heq | hmem
  · exact absurd heq.symm (he op left right)
  · exact h op left right hmem

/-- Where there are no tests, there were no comparisons that would be found again. -/
theorem of_nil (h : s.AllFound t written []) : s.AllFound t' written found := by
  intro op left right hmem
  obtain ⟨hnull, hcall⟩ := h op left right hmem
  refine ⟨?_, ?_⟩
  · intro hwaiting hoperand
    obtain ⟨-, test, htest, -⟩ := hnull hwaiting hoperand
    exact (List.not_mem_nil htest).elim
  · intro f first second hwaiting
    obtain ⟨test, htest, -⟩ := hcall f first second hwaiting
    exact (List.not_mem_nil htest).elim

/-- Of nothing that was written, all is found again. -/
theorem nil : s.AllFound t [] found :=
  fun _ _ _ hmem => (List.not_mem_nil hmem).elim

end Scope.AllFound

/-! ## Runs of operands -/

/-- The value that an expression was compiled to shows what it was. -/
theorem Scope.Visited.shows {x : Scalar} {ty : EdmType}
    (h : s.Visited e t (.complete (.value x ty)) t') : x.Shows s t' e := by
  obtain ⟨depth, hrun⟩ := h
  -- The node alone tells it, so nothing is asked of the operands.
  refine visit_ok_induct
    (M := fun e _ compiled t' => ∀ x ty, compiled = .complete (.value x ty) → x.Shows s t' e)
    (N := fun _ _ _ _ => True)
    ?constant ?property ?call ?negate ?not ?arithmetic ?logical ?relational ?nil ?cons hrun x ty rfl
  case constant | not | logical | relational =>
    intros
    rename_i heq
    cases heq
  case property =>
    rintro path ty t column joins hcolumn - x ty' heq
    obtain ⟨last, place, name, hlast, hresolve, hname, rfl⟩ := resolveProperty_ok hcolumn
    cases heq
    exact ⟨path, ty, last, place, rfl, hlast, resolve_ok hresolve, rfl, hname⟩
  case call =>
    rintro f args t fragments t₁ compiled binding - - hcompiles - x ty rfl
    cases hcompiles with
    | function => rfl
  case negate =>
    rintro operand t compiled t₁ scalar binding - - - - x ty heq
    cases heq
    rfl
  case arithmetic =>
    rintro op left right t l t₁ r t₂ x b₁ y b₂ - - - - - - - z ty heq
    cases heq
    rfl
  case nil | cons =>
    intros
    trivial

/-- A value shows what the expression is that it is the value of. -/
theorem Scalar.ValueOf.shows {x : Scalar} (h : x.ValueOf s t e) : x.Shows s t e := by
  obtain ⟨before, ty, after, hvisited, hafter⟩ := h
  exact hvisited.shows.grows hafter

/-- What is compiled to a value is no literal. -/
theorem Scalar.ValueOf.literal? {x : Scalar} (h : x.ValueOf s t e) : e.literal? = none := by
  have hshows := h.shows
  cases x with
  | column alias? name =>
    obtain ⟨path, ty, last, place, rfl, -⟩ := hshows
    rfl
  | parameter name => exact hshows.elim
  | _ => exact Expr.literal?_of_leafTy? hshows

namespace Fragment.Traced

variable {f : Fragment}

/-- What is known by a fragment stays so when the session grows. -/
theorem grows (h : f.Traced s t e) (hgrows : ReflTransGen (Session.Adds s) t t') :
    f.Traced s t' e := by
  cases f with
  | predicate p => exact ⟨h.1, h.2.mono (List.Subset.refl _) hgrows⟩
  | value x ty => exact ⟨h.1.grows hgrows, h.2⟩
  | literal v ty => exact h
  | deferred g => exact h

/-- An expression was compiled to a literal when it is one. -/
theorem literalOf (h : f.Traced s t e) : f.LiteralOf e := by
  cases f with
  | predicate p => exact Expr.literal?_of_leafTy? h.1
  | value x ty => exact h.1.literal?
  | literal v ty => exact h
  | deferred g => exact Expr.literal?_of_waiting? h

/-- A constant was compiled to its literal. -/
theorem eq_literal {v : Value} {ty : EdmType} (h : f.Traced s t (.constant v ty)) :
    f = .literal v ty := by
  have hliteral := h.literalOf
  cases f with
  | literal w ty' =>
    cases hliteral
    rfl
  | _ => cases hliteral

/-- An expression may stand in an order when the type of its fragment has one. -/
theorem hasOrder (h : f.Traced s t e) (hty : f.ty.isEqualityOnly = false) : e.HasOrder := by
  intro leafTy hleaf
  cases f with
  | predicate p =>
    rw [h.1] at hleaf
    cases hleaf
  | value x ty =>
    rw [← h.2 leafTy hleaf]
    exact hty
  | literal v ty =>
    obtain rfl : e = .constant v ty := h
    cases hleaf
    exact hty
  | deferred g =>
    rw [Expr.leafTy?_of_waiting? h] at hleaf
    cases hleaf

/-- What is known of an argument is known of what it is compared as. -/
theorem operand (g : Builtin) (h : f.Traced s t e) :
    (g.operand f).Traced s t (e.asOperand g) := by
  rcases h.literalOf.operand g with ⟨hf, he⟩ | ⟨v, ty, hf, he⟩
  · rw [hf, he]
    exact h
  · rw [hf]
    exact he

end Fragment.Traced

/-- What is known of an expression stays so when the session grows. -/
theorem Compiled.Traced.grows {compiled : Compiled} (h : compiled.Traced s t e)
    (hgrows : ReflTransGen (Session.Adds s) t t') : compiled.Traced s t' e := by
  cases compiled with
  | complete f => exact ⟨h.1, h.2.grows hgrows⟩
  | pending pending =>
    cases pending with
    | indexOf haystack needle =>
      obtain ⟨first, second, hwaiting, hneedle⟩ := h
      exact ⟨first, second, hwaiting, hneedle.grows hgrows⟩
    | comparison f left right =>
      obtain ⟨hf, first, second, hwaiting, hleft, hright⟩ := h
      exact ⟨hf, first, second, hwaiting, hleft.grows hgrows, hright.grows hgrows⟩

/-- What is left of what an expression was compiled to tells of the expression. -/
theorem Compiled.Traced.fragment {compiled : Compiled} (h : compiled.Traced s t e) :
    compiled.fragment.Traced s t e := by
  cases compiled with
  | complete f => exact h.2
  | pending pending =>
    show e.waiting? ≠ none
    cases pending with
    | indexOf haystack needle =>
      obtain ⟨first, second, hwaiting, -⟩ := h
      rw [hwaiting]
      rintro ⟨⟩
    | comparison f left right =>
      obtain ⟨-, first, second, hwaiting, -⟩ := h
      rw [hwaiting]
      rintro ⟨⟩

/-! ## Lowering -/

variable {joins : JoinPlan} {b b' : Binding}

namespace Fragment

variable {f : Fragment}

/-- What is lowered to a scalar has no tests. -/
theorem tests_of_toScalar {c : Config} {x : Scalar} (h : f.toScalar c b = .ok x b') :
    f.tests = [] := by
  rcases toScalar_ok.mp h with ⟨ty, rfl, -⟩ | ⟨v, ty, w, rfl, -⟩
  · rfl
  · rfl

/-- A Boolean literal is not `null`. -/
theorem isNull_of_bool? {v : Bool} (h : f.bool? = some v) : f.isNull = false := by
  cases f with
  | literal w ty =>
    cases w with
    | null => cases h
    | _ => rfl
  | _ => cases h

/-- What is lowered to scalars has no tests. -/
theorem tests_of_toScalars {c : Config} {fs : List Fragment} {xs : List Scalar}
    (h : toScalars c fs b = .ok xs b') : fs.flatMap Fragment.tests = [] := by
  induction fs generalizing b xs with
  | nil => rfl
  | cons f fs ih =>
    obtain ⟨x, rest, b₁, hx, hrest, -⟩ := toScalars_cons_ok.mp h
    rw [List.flatMap_cons, tests_of_toScalar hx, ih hrest]
    rfl

/-- What is lowered to a predicate has its tests there. -/
theorem tests_of_toPredicate {c : Config} {p : Predicate} (h : f.toPredicate c b = .ok p b') :
    f.tests ⊆ p.tests := by
  rcases toPredicate_ok h with ⟨rfl, -⟩ | ⟨v, ty, rfl, -, -⟩ | ⟨x, rfl, -, -⟩
  · exact List.Subset.refl _
  · exact List.nil_subset _
  · exact List.nil_subset _

/-- A needle and its pattern have the same tests. -/
theorem tests_asPattern (g : Builtin) (f : Fragment) : (f.asPattern g).tests = f.tests := by
  unfold asPattern
  split
  · rfl
  · rfl

/-- An argument and what it is compared as have the same tests. -/
theorem tests_operand (g : Builtin) (f : Fragment) : (g.operand f).tests = f.tests := by
  unfold Builtin.operand
  split
  · unfold asInstant
    split
    · rfl
    · rfl
  · rfl

/-- A scalar is what the expression of its fragment is lowered to. -/
theorem Traced.toScalar {x : Scalar} (h : f.Traced s ⟨joins, b⟩ e)
    (hx : f.toScalar s.config b = .ok x b') : x.OperandOf s ⟨joins, b'⟩ e := by
  rcases toScalar_ok.mp hx with ⟨ty, rfl, rfl⟩ | ⟨v, ty, w, rfl, hw, rfl, rfl⟩
  · exact .value h.1
  · -- The literal was bound just now, to its normal form.
    have hbound := Binding.get?_push s.config b w
    exact .literal h hw hbound

/-- The comparisons of a predicate stem from the expression of its fragment. -/
theorem Traced.toPredicate {p : Predicate} (h : f.Traced s ⟨joins, b⟩ e)
    (hp : f.toPredicate s.config b = .ok p b') : p.StemsFrom s ⟨joins, b'⟩ e.parts := by
  have hgrows := Session.grows_toPredicate joins hp
  rcases toPredicate_ok hp with ⟨rfl, -⟩ | ⟨v, ty, rfl, rfl, -⟩ | ⟨x, rfl, rfl, rfl⟩
  · exact h.2.mono (List.Subset.refl _) hgrows
  · rintro op y z hmem
    cases List.mem_singleton.mp hmem
  · -- A Boolean value is compared with the `true` that was bound just now.
    have hbound := Binding.get?_push s.config b (.bool true)
    rintro op y z hmem
    cases List.mem_singleton.mp hmem
    exact .truth (h.1.grows hgrows) hbound

end Fragment

/-! ## Calls -/

namespace Builtin

variable {f : Builtin} {fragments : List Fragment} {compiled : Compiled}

/-- The arguments of a call that is compiled have no tests, since all are lowered. -/
theorem Compiles.tests {c : Config} (h : f.Compiles c fragments b compiled b') :
    fragments.flatMap Fragment.tests = [] := by
  cases h with
  | function hkind harity hscalars => exact Fragment.tests_of_toScalars hscalars
  | @pattern first second _ _ _ _ _ hkind hvalue hpattern =>
    have hhaystack := Fragment.tests_of_toScalar hvalue
    have hneedle := Fragment.tests_of_toScalar hpattern
    rw [Fragment.tests_asPattern] at hneedle
    have hboth := And.intro hhaystack hneedle
    show first.tests ++ (second.tests ++ []) = []
    unfold haystackFirst at hboth
    split at hboth
    · rw [hboth.1, hboth.2]
      rfl
    · rw [hboth.1, hboth.2]
      rfl
  | @comparison first second _ _ _ _ _ hkind hleft hright =>
    have hfirst := Fragment.tests_of_toScalar hleft
    have hsecond := Fragment.tests_of_toScalar hright
    rw [Fragment.tests_operand] at hfirst hsecond
    show first.tests ++ (second.tests ++ []) = []
    rw [hfirst, hsecond]
    rfl
  | @position first second _ _ _ _ _ hkind hhaystack hneedle =>
    show first.tests ++ (second.tests ++ []) = []
    rw [Fragment.tests_of_toScalar hhaystack, Fragment.tests_of_toScalar hneedle]
    rfl

/-- What a call is compiled to tells of the call what its arguments tell. -/
theorem Compiles.traced {args : List Expr}
    (h : f.Compiles s.config fragments b compiled b')
    (hargs : List.Forall₂ (Fragment.Traced s ⟨joins, b⟩) args fragments)
    (hvisited : s.Visited (.call f args) t compiled ⟨joins, b'⟩) :
    compiled.Traced s ⟨joins, b'⟩ (.call f args) := by
  cases h with
  | function hkind _ hscalars =>
    have hwaiting : (Expr.call f args).waiting? = none := by
      apply waiting?_call <;> rw [hkind] <;> intro h <;> cases h
    exact ⟨hwaiting, ⟨t, _, _, hvisited, .refl⟩, nofun⟩
  | pattern hkind hvalue hpattern =>
    have hwaiting : (Expr.call f args).waiting? = none := by
      apply waiting?_call <;> rw [hkind] <;> intro h <;> cases h
    refine ⟨hwaiting, rfl, ?_⟩
    rintro op x y hmem
    cases List.mem_singleton.mp hmem
  | comparison hkind hleft hright =>
    obtain _ | ⟨hfirst, _ | ⟨hsecond, _ | _⟩⟩ := hargs
    rename_i first second
    have hf : f ≠ .indexOf := by
      rintro rfl
      cases hkind
    have hgrows := Session.grows_toScalar (s := s) joins hleft
    have hgrows' := Session.grows_toScalar (s := s) joins hright
    have hl := ((hfirst.operand f).toScalar hleft).grows hgrows'
    have hr := ((hsecond.grows hgrows).operand f).toScalar hright
    exact ⟨hf, first, second, if_pos (.inr hkind), hl, hr⟩
  | position hkind hhaystack hneedle =>
    obtain _ | ⟨hfirst, _ | ⟨hsecond, _ | _⟩⟩ := hargs
    rename_i first second
    have hgrows := Session.grows_toScalar (s := s) joins hhaystack
    obtain rfl := eq_indexOf_of_kind hkind
    exact ⟨first, second, rfl, (hsecond.grows hgrows).toScalar hneedle⟩

end Builtin

/-! ## Comparisons -/

namespace Scope

variable {op : RelationalOp} {left right : Expr} {l : Compiled} {r : Fragment} {p : Predicate}

/-- What is compared has its tests in the comparison. -/
theorem Compares.tests_subset {c : Config} (h : Compares c op l r b p b') :
    l.fragment.tests ⊆ p.tests ∧ r.tests ⊆ p.tests := by
  have hnone : ∀ {f : Fragment} {x : Scalar} {b b' : Binding}, f.toScalar c b = .ok x b' →
      f.tests ⊆ p.tests := by
    intro f x b b' hx
    rw [Fragment.tests_of_toScalar hx]
    exact List.nil_subset _
  have hnull : ∀ {f : Fragment}, f.isNull = true → f.tests ⊆ p.tests := by
    intro f hf
    cases f with
    | literal => exact List.nil_subset _
    | _ => cases hf
  have hzeros : ∀ {f : Fragment}, f.isZero = true → f.tests ⊆ p.tests := by
    intro f hf
    cases f with
    | literal => exact List.nil_subset _
    | _ => cases hf
  have hbool : ∀ {f : Fragment} {v : Bool}, f.bool? = some v → f.tests ⊆ p.tests := by
    intro f v hf
    cases f with
    | literal => exact List.nil_subset _
    | _ => cases hf
  cases h with
  | position hop hk => exact ⟨List.nil_subset _, hnone hk⟩
  | zero hop hzero => exact ⟨List.nil_subset _, hzeros hzero⟩
  | @literal q operand v keep b hv hkeep =>
    refine ⟨?_, hbool hv⟩
    rw [Predicate.tests_keepIf]
    exact List.Subset.refl _
  | @literalLeft q operand v keep b hv hkeep =>
    refine ⟨hbool hv, ?_⟩
    rw [Predicate.tests_keepIf]
    exact List.Subset.refl _
  | nulls hleft hright hop => exact ⟨hnull hleft, hnull hright⟩
  | nullRight hleft hright hop hx => exact ⟨hnone hx, hnull hright⟩
  | nullLeft hleft hright hop hx => exact ⟨hnull hleft, hnone hx⟩
  | values hleft hright horder hx hy => exact ⟨hnone hx, hnone hy⟩

/-- Comparing is a walk of the session. -/
theorem Compares.grows (joins : JoinPlan) (h : Compares s.config op l r b p b') :
    ReflTransGen (Session.Adds s) ⟨joins, b⟩ ⟨joins, b'⟩ := by
  cases h with
  | position hop hk => exact Session.grows_toScalar joins hk
  | nullRight hleft hright hop hx => exact Session.grows_toScalar joins hx
  | nullLeft hleft hright hop hx => exact Session.grows_toScalar joins hx
  | values hleft hright horder hx hy =>
    exact (Session.grows_toScalar joins hx).trans (Session.grows_toScalar joins hy)
  | zero | literal | literalLeft | nulls => exact ReflTransGen.refl

/-- The comparisons that a comparison is compiled to stem from it and from its operands. -/
theorem Compares.stemsFrom (h : Compares s.config op l r b p b')
    (hl : l.Traced s ⟨joins, b⟩ left) (hr : r.Traced s ⟨joins, b⟩ right) :
    p.StemsFrom s ⟨joins, b'⟩ (Expr.relational op left right).parts := by
  have hself := (Expr.relational op left right).self_mem_parts
  obtain ⟨hleftPart, hrightPart⟩ := Expr.operands_mem_parts hself rfl
  have hleftParts := Expr.parts_subset hleftPart
  have hrightParts := Expr.parts_subset hrightPart
  intro op' x y hmem
  cases h with
  | position hop hk =>
    obtain ⟨first, second, hwaiting, hneedle⟩ := hl
    have hgrows := Session.grows_toScalar (s := s) joins hk
    rw [Predicate.tests_keepIf] at hmem
    cases List.mem_singleton.mp hmem
    exact .position hself hwaiting (hneedle.grows hgrows)
  | zero hop hzero =>
    obtain ⟨hf, first, second, hwaiting, hfirst, hsecond⟩ := hl
    rw [Bool.or_eq_true, beq_iff_eq] at hop
    have hright := hr.literalOf.isZero hzero
    have hstems := Scope.Stems.arguments hself hwaiting hf hop hright hfirst hsecond
    -- That the arguments differ was compiled to a negation, and a negation has the same tests.
    split at hmem
    next hne =>
      rw [beq_iff_eq] at hne
      rw [if_pos hne] at hstems
      cases List.mem_singleton.mp hmem
      exact hstems
    next hne =>
      rw [beq_iff_eq] at hne
      rw [if_neg hne] at hstems
      cases List.mem_singleton.mp hmem
      exact hstems
  | literal hbool hkeep =>
    rw [Predicate.tests_keepIf] at hmem
    exact (hl.fragment.2 op' x y hmem).mono hleftParts ReflTransGen.refl
  | literalLeft hbool hkeep =>
    rw [Predicate.tests_keepIf] at hmem
    exact (hr.2 op' x y hmem).mono hrightParts ReflTransGen.refl
  | nulls hleft hright hop => cases List.mem_singleton.mp hmem
  | nullRight hleft hright hop hx =>
    split at hmem
    all_goals cases List.mem_singleton.mp hmem
  | nullLeft hleft hright hop hx =>
    split at hmem
    all_goals cases List.mem_singleton.mp hmem
  | values hleft hright horder hx hy =>
    have hgrows := Session.grows_toScalar (s := s) joins hx
    have hgrows' := Session.grows_toScalar (s := s) joins hy
    have hleftOperand := (hl.2.toScalar hx).grows hgrows'
    have hrightOperand := (hr.grows hgrows).toScalar hy
    rw [← hl.2.literalOf.isNull] at hleft
    rw [← hr.literalOf.isNull] at hright
    cases List.mem_singleton.mp hmem
    refine .values hself hleft hright ?_ hleftOperand hrightOperand
    exact horder.imp id fun hty => ⟨hl.2.hasOrder hty.1, hr.hasOrder hty.2⟩

/-- A comparison with `null` of what does not wait is an equality and compiled to its test. -/
theorem Compares.nullTest (h : Compares s.config op l r b p b')
    (hl : l.Traced s ⟨joins, b⟩ left) (hr : r.Traced s ⟨joins, b⟩ right)
    (hwaiting : left.waiting? = none) (hnull : left.isNull = true ∨ right.isNull = true) :
    op.isEquality = true ∧ s.NullTest ⟨joins, b'⟩ op left right p := by
  have hleftNull : left.isNull = l.fragment.isNull := hl.fragment.literalOf.isNull
  have hrightNull : right.isNull = r.isNull := hr.literalOf.isNull
  -- The rules for operands of which none is `null` do not apply.
  have hnot : ¬(l.fragment.isNull = false ∧ r.isNull = false) := by
    rw [← hleftNull, ← hrightNull]
    rintro ⟨hleft, hright⟩
    rcases hnull with hnull | hnull
    · exact Bool.false_ne_true (hleft.symm.trans hnull)
    · exact Bool.false_ne_true (hright.symm.trans hnull)
  cases h with
  | position hop hk =>
    obtain ⟨first, second, hwaits, -⟩ := hl
    rw [hwaiting] at hwaits
    cases hwaits
  | zero hop hzero =>
    obtain ⟨-, first, second, hwaits, -⟩ := hl
    rw [hwaiting] at hwaits
    cases hwaits
  | literal hbool hkeep => exact absurd ⟨rfl, Fragment.isNull_of_bool? hbool⟩ hnot
  | literalLeft hbool hkeep => exact absurd ⟨Fragment.isNull_of_bool? hbool, rfl⟩ hnot
  | nulls hleft hright hop =>
    exact ⟨hop, .both (hleftNull.trans hleft) (hrightNull.trans hright)⟩
  | nullRight hleft hright hop hx =>
    exact ⟨hop, .left (hleftNull.trans hleft) (hrightNull.trans hright) (hl.2.toScalar hx)⟩
  | nullLeft hleft hright hop hx =>
    exact ⟨hop, .right (hleftNull.trans hleft) (hrightNull.trans hright) (hr.toScalar hx)⟩
  | values hleft hright horder hx hy => exact absurd ⟨hleft, hright⟩ hnot

/-- The comparison of a waiting call has its test. -/
theorem Compares.callTest {f : Builtin} {first second : Expr}
    (h : Compares s.config op l r b p b') (hl : l.Traced s ⟨joins, b⟩ left)
    (hwaiting : left.waiting? = some (f, first, second)) :
    ∃ test ∈ p.tests, s.CallTest ⟨joins, b'⟩ op f first second test := by
  -- What is complete does not wait.
  have hnot : ∀ {fragment : Fragment}, ¬(Compiled.complete fragment).Traced s ⟨joins, b⟩ left := by
    intro fragment hcomplete
    rw [hcomplete.1] at hwaiting
    cases hwaiting
  cases h with
  | position hop hk =>
    obtain ⟨first', second', hwaits, hneedle⟩ := hl
    rw [hwaiting] at hwaits
    cases hwaits
    rw [Predicate.tests_keepIf]
    have hgrows := Session.grows_toScalar (s := s) joins hk
    exact ⟨_, List.mem_singleton_self _, .position rfl (hneedle.grows hgrows)⟩
  | zero hop hzero =>
    obtain ⟨hf, first', second', hwaits, hfirst, hsecond⟩ := hl
    rw [hwaiting] at hwaits
    cases hwaits
    have htest : s.CallTest ⟨joins, b⟩ op f first second _ := .arguments hf hfirst hsecond
    refine ⟨_, ?_, htest⟩
    split
    next hne =>
      rw [beq_iff_eq] at hne
      rw [if_pos hne]
      exact List.mem_singleton_self _
    next hne =>
      rw [beq_iff_eq] at hne
      rw [if_neg hne]
      exact List.mem_singleton_self _
  | literal | literalLeft | nulls | nullRight | nullLeft | values => exact absurd hl hnot

/-- A comparison is found again in what it is compiled to. -/
theorem Compares.isFound (h : Compares s.config op l r b p b')
    (hl : l.Traced s ⟨joins, b⟩ left) (hr : r.Traced s ⟨joins, b⟩ right) :
    s.Found ⟨joins, b'⟩ p.tests op left right := by
  refine ⟨?_, fun f first second hwaiting => h.callTest hl hwaiting⟩
  intro hwaiting hnull
  obtain ⟨hop, htest⟩ := h.nullTest hl hr hwaiting hnull
  exact ⟨hop, p, htest.mem_tests, htest⟩

/-! ## Whole runs -/

/-- The comparisons of a compiled expression stem from parts of the expression, and the comparisons
with `null` and of waiting calls in the expression are found again. -/
theorem traced_visit {depth : Nat} {compiled : Compiled}
    (h : s.visit depth e t = .ok compiled t') :
    compiled.Traced s t' e ∧ s.AllFound t' e.parts compiled.fragment.tests := by
  refine visit_ok_induct
    (M := fun e _ compiled t' =>
      compiled.Traced s t' e ∧ s.AllFound t' e.parts compiled.fragment.tests)
    (N := fun es _ fragments t' => List.Forall₂ (Fragment.Traced s t') es fragments ∧
      s.AllFound t' (Expr.parts.partsOfAll es) (fragments.flatMap Fragment.tests))
    ?constant ?property ?call ?negate ?not ?arithmetic ?logical ?relational ?nil ?cons h
  case constant =>
    intro value ty t _
    exact ⟨⟨rfl, rfl⟩, AllFound.nil.cons nofun⟩
  case property =>
    intro path ty t column joins _ hvisited
    refine ⟨⟨rfl, ⟨t, ty, _, hvisited, .refl⟩, ?_⟩, ?_⟩
    · intro leafTy hleaf
      exact Option.some.inj hleaf
    · exact AllFound.nil.cons nofun
  case call =>
    intro f args t fragments t₁ compiled binding hargs _ hcompiles hvisited
    obtain ⟨htraced, hfound⟩ := hargs
    -- No argument is a predicate, so there is no comparison in any of them.
    rw [hcompiles.tests] at hfound
    exact ⟨hcompiles.traced htraced hvisited, AllFound.cons nofun hfound.of_nil⟩
  case negate =>
    intro operand t compiled t₁ scalar binding hoperand _ hscalar hvisited
    have hfound := hoperand.2
    rw [Fragment.tests_of_toScalar hscalar] at hfound
    exact ⟨⟨rfl, ⟨t, _, _, hvisited, .refl⟩, nofun⟩, AllFound.cons nofun hfound.of_nil⟩
  case not =>
    intro operand t compiled t₁ p binding hoperand _ hp _
    have hgrows := Session.grows_toPredicate (s := s) t₁.joins hp
    have hstems := hoperand.1.fragment.toPredicate hp
    have hfound := hoperand.2.mono (Fragment.tests_of_toPredicate hp) hgrows
    have hparts : operand.parts ⊆ (Expr.unary .not operand).parts := List.subset_cons_self _ _
    exact ⟨⟨rfl, rfl, hstems.mono hparts ReflTransGen.refl⟩, AllFound.cons nofun hfound⟩
  case arithmetic =>
    intro op left right t l t₁ r t₂ x b₁ y b₂ hleft _ hright hgrows hx hy hvisited
    have hl := hleft.2
    have hr := hright.2
    rw [Fragment.tests_of_toScalar hx] at hl
    rw [Fragment.tests_of_toScalar hy] at hr
    exact ⟨⟨rfl, ⟨t, _, _, hvisited, .refl⟩, nofun⟩,
      AllFound.cons nofun (hl.of_nil.append hr.of_nil)⟩
  case logical =>
    intro op left right t l t₁ p b₁ r t₂ q b₂ hleft _ hp hright hgrows hq _
    have hafter := Session.grows_toPredicate (s := s) t₂.joins hq
    have hbetween := (Session.grows_toPredicate (s := s) t₁.joins hp).trans (hgrows.trans hafter)
    -- What is known of the left side stays known until the right side is lowered.
    have hpStems :=
      (hleft.1.fragment.toPredicate hp).mono (List.Subset.refl _) (hgrows.trans hafter)
    have hqStems := hright.1.fragment.toPredicate hq
    have hstems : (connective op p q).StemsFrom s { t₂ with binding := b₂ }
        (Expr.logical op left right).parts := by
      intro op' x y hmem
      rw [Predicate.tests_connective, List.mem_append] at hmem
      rcases hmem with hmem | hmem
      · exact (hpStems op' x y hmem).mono
          (fun part hpart => List.mem_cons_of_mem _ (List.mem_append_left _ hpart)) .refl
      · exact (hqStems op' x y hmem).mono
          (fun part hpart => List.mem_cons_of_mem _ (List.mem_append_right _ hpart)) .refl
    have hp' := Fragment.tests_of_toPredicate hp
    have hq' := Fragment.tests_of_toPredicate hq
    refine ⟨⟨rfl, rfl, hstems⟩, AllFound.cons nofun ?_⟩
    show s.AllFound _ (left.parts ++ right.parts) (connective op p q).tests
    rw [Predicate.tests_connective]
    exact (hleft.2.mono (List.Subset.trans hp' (List.subset_append_left _ _)) hbetween).append
      (hright.2.mono (List.Subset.trans hq' (List.subset_append_right _ _)) hafter)
  case relational =>
    intro op left right t l t₁ r t₂ p binding hleft _ hright hgrows hcompares _
    have hafter := hcompares.grows t₂.joins
    have hl := hleft.1.grows hgrows
    have hr := hright.1.fragment
    have hstems := hcompares.stemsFrom hl hr
    obtain ⟨hleftTests, hrightTests⟩ := hcompares.tests_subset
    have hbelow := (hleft.2.mono hleftTests (hgrows.trans hafter)).append
      (hright.2.mono hrightTests hafter)
    refine ⟨⟨rfl, rfl, hstems⟩, ?_⟩
    intro op' left' right' hmem
    rcases List.mem_cons.mp hmem with heq | hmem
    · cases heq
      exact hcompares.isFound hl hr
    · exact hbelow op' left' right' hmem
  case nil =>
    intro t
    exact ⟨.nil, .nil⟩
  case cons =>
    intro e es t compiled t₁ fragments t₂ he _ hes hgrows
    refine ⟨.cons (he.1.fragment.grows hgrows) hes.1, ?_⟩
    have hfirst := he.2.mono (List.subset_append_left _ (fragments.flatMap Fragment.tests)) hgrows
    exact hfirst.append (hes.2.mono (List.subset_append_right _ _) .refl)

/-- The comparisons of a compiled condition stem from parts of the expression, and the comparisons
with `null` and of waiting calls in the expression are found again. -/
theorem traced_condition (h : s.condition e t = .ok p t') :
    p.StemsFrom s t' e.parts ∧ s.AllFound t' e.parts p.tests := by
  obtain ⟨compiled, t₁, binding, hvisit, hp, rfl⟩ := condition_ok.mp h
  obtain ⟨htraced, hfound⟩ := traced_visit hvisit
  have hgrows := Session.grows_toPredicate (s := s) t₁.joins hp
  exact ⟨htraced.fragment.toPredicate hp, hfound.mono (Fragment.tests_of_toPredicate hp) hgrows⟩

end Scope

end

end EntityQuery
