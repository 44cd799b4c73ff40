import EntityQuery.Proofs.Aliases
import EntityQuery.Proofs.Sessions

/-!
# What expressions and predicates mean

An `Interpretation` says what columns, literals and operations mean. Columns are those of a path of
navigations, so it knows nothing of aliases and parameters. A predicate is evaluated in an
`Environment`, which translates them; `Predicate.eval_extends` is that an environment that
translates more does not change what a predicate means.

An expression is evaluated directly: `Expr.value` is its value and `Expr.truth` its truth value.
The direct evaluation follows the typed tree and the rules of the notation alone: what a literal
stands for, when a comparison is a test against `null`, and how the calls are read that only make
sense inside of a comparison.
-/

open Relation (ReflTransGen)

namespace EntityQuery

/-- What columns, literals and operations mean. -/
structure Interpretation (V : Type) where
  /-- The value of a column, reached over navigations. -/
  column : List String → String → V
  /-- The value of a literal. -/
  literal : Value → V
  /-- The value of an integer that stands for no literal. -/
  constant : Int64 → V
  /-- The value of a call. -/
  call : Builtin → List V → V
  /-- The value of an arithmetic operation. -/
  arithmetic : ArithmeticOp → V → V → V
  /-- The negation of a value. -/
  negate : V → V
  /-- Whether a comparison holds. -/
  compare : RelationalOp → V → V → Bool
  /-- Whether a value matches a pattern. -/
  like : V → V → Bool
  /-- Whether a value is null. -/
  isNull : V → Bool

/-- What aliases and parameters stand for. -/
structure Environment where
  /-- The navigations to what an alias qualifies. -/
  navigation? : Option String → Option (List String)
  /-- The value of a parameter. -/
  value? : String → Option Value

/-- The environment of joins and parameters, for a root with an alias or without one. -/
def environment (root? : Option String) (joins : JoinPlan) (ps : Parameters) : Environment :=
  ⟨joins.navigation? root?, ps.get?⟩

/-- The environment of a session. -/
def Session.environment (s : Scope) (t : Session) : Environment :=
  EntityQuery.environment s.config.rootAlias? t.joins t.parameters

/-- An environment translates at least what another one does, and in the same way. -/
structure Environment.Extends (env env' : Environment) : Prop where
  /-- Aliases are translated in the same way. -/
  navigation? {alias? : Option String} {path : List String}
    (h : env.navigation? alias? = some path) : env'.navigation? alias? = some path
  /-- Parameters have the same values. -/
  value? {name : String} {value : Value} (h : env.value? name = some value) :
    env'.value? name = some value

/-- An environment translates what it translates. -/
theorem Environment.Extends.refl (env : Environment) : env.Extends env := ⟨id, id⟩

/-- What is translated goes on to be translated from one environment to the next. -/
theorem Environment.Extends.trans {env env' env'' : Environment} (h : env.Extends env')
    (h' : env'.Extends env'') : env.Extends env'' where
  navigation? hnav := h'.navigation? (h.navigation? hnav)
  value? hvalue := h'.value? (h.value? hvalue)

/-- Along a walk, the environment of a session translates more. -/
theorem Session.environment_extends {s : Scope} {t t' : Session}
    (h : ReflTransGen (Session.Adds s) t t') :
    (t.environment s).Extends (t'.environment s) where
  navigation? := JoinPlan.navigation?_of_isPrefix (Scope.steps_grow (joins_grow h))
  value? := Binding.get?_of_grows (binding_grow h)

/-! ## Predicates -/

section

variable {V : Type} (I : Interpretation V) (env : Environment)

/-- The value of a scalar, if its aliases and parameters stand for something. -/
def Scalar.eval : Scalar → Option V
  | .column alias? name => (env.navigation? alias?).map fun path => I.column path name
  | .parameter name => (env.value? name).map I.literal
  | .constant n => some (I.constant n)
  | .function f args => (evalAll args).map (I.call f)
  | .arithmetic op left right => do
    let x ← left.eval
    let y ← right.eval
    return I.arithmetic op x y
  | .negate operand => operand.eval.map I.negate
where
  /-- The values of some scalars. -/
  evalAll : List Scalar → Option (List V)
    | [] => some []
    | scalar :: scalars => do
      let x ← scalar.eval
      let xs ← evalAll scalars
      return x :: xs

/-- The truth value of a predicate, if its aliases and parameters stand for something. -/
def Predicate.eval : Predicate → Option Bool
  | .const b => some b
  | .and left right => do
    let p ← left.eval
    let q ← right.eval
    return p && q
  | .or left right => do
    let p ← left.eval
    let q ← right.eval
    return p || q
  | .not operand => operand.eval.map (!·)
  | .compare op left right => do
    let x ← left.eval I env
    let y ← right.eval I env
    return I.compare op x y
  | .like value pattern => do
    let x ← value.eval I env
    let y ← pattern.eval I env
    return I.like x y
  | .isNull operand => (operand.eval I env).map I.isNull
  | .isNotNull operand => (operand.eval I env).map fun x => !I.isNull x

end

section

variable {V : Type} {I : Interpretation V} {env env' : Environment}

/-- A scalar keeps its value in an environment that translates more. -/
theorem Scalar.eval_extends (h : env.Extends env') {scalar : Scalar} {x : V}
    (hx : scalar.eval I env = some x) : scalar.eval I env' = some x := by
  induction scalar using @Scalar.rec _
    (fun scalars => ∀ xs, Scalar.eval.evalAll I env scalars = some xs →
      Scalar.eval.evalAll I env' scalars = some xs) generalizing x with
  | column alias? name =>
    obtain ⟨path, hpath, rfl⟩ := Option.map_eq_some_iff.mp hx
    exact Option.map_eq_some_iff.mpr ⟨path, h.navigation? hpath, rfl⟩
  | parameter name =>
    obtain ⟨value, hvalue, rfl⟩ := Option.map_eq_some_iff.mp hx
    exact Option.map_eq_some_iff.mpr ⟨value, h.value? hvalue, rfl⟩
  | constant n => exact hx
  | function f args ih =>
    obtain ⟨xs, hxs, rfl⟩ := Option.map_eq_some_iff.mp hx
    exact Option.map_eq_some_iff.mpr ⟨xs, ih xs hxs, rfl⟩
  | arithmetic op left right ihl ihr =>
    simp only [Scalar.eval, Option.bind_eq_bind, Option.bind_eq_some_iff] at hx ⊢
    obtain ⟨y, hy, z, hz, hx⟩ := hx
    exact ⟨y, ihl hy, z, ihr hz, hx⟩
  | negate operand ih =>
    obtain ⟨y, hy, rfl⟩ := Option.map_eq_some_iff.mp hx
    exact Option.map_eq_some_iff.mpr ⟨y, ih hy, rfl⟩
  | nil => assumption
  | cons scalar scalars ih ihs =>
    rename_i xs hxs
    simp only [Scalar.eval.evalAll, Option.bind_eq_bind, Option.bind_eq_some_iff] at hxs ⊢
    obtain ⟨y, hy, ys, hys, hxs⟩ := hxs
    exact ⟨y, ih hy, ys, ihs _ hys, hxs⟩

/-- A predicate keeps its truth value in an environment that translates more. -/
theorem Predicate.eval_extends (h : env.Extends env') {p : Predicate} {b : Bool}
    (hb : p.eval I env = some b) : p.eval I env' = some b := by
  induction p generalizing b with
  | const => exact hb
  | and left right ihl ihr | or left right ihl ihr =>
    simp only [Predicate.eval, Option.bind_eq_bind, Option.bind_eq_some_iff] at hb ⊢
    obtain ⟨p, hp, q, hq, hb⟩ := hb
    exact ⟨p, ihl hp, q, ihr hq, hb⟩
  | not operand ih =>
    obtain ⟨p, hp, rfl⟩ := Option.map_eq_some_iff.mp hb
    exact Option.map_eq_some_iff.mpr ⟨p, ih hp, rfl⟩
  | compare _ left right | like left right =>
    simp only [Predicate.eval, Option.bind_eq_bind, Option.bind_eq_some_iff] at hb ⊢
    obtain ⟨x, hx, y, hy, hb⟩ := hb
    exact ⟨x, Scalar.eval_extends h hx, y, Scalar.eval_extends h hy, hb⟩
  | isNull operand | isNotNull operand =>
    obtain ⟨x, hx, rfl⟩ := Option.map_eq_some_iff.mp hb
    exact Option.map_eq_some_iff.mpr ⟨x, Scalar.eval_extends h hx, rfl⟩

/-- The truth value of a condition that is kept or negated. -/
theorem Predicate.eval_keepIf (p : Predicate) (keep : Bool) :
    (p.keepIf keep).eval I env = (p.eval I env).map (· == keep) := by
  unfold Predicate.keepIf
  cases keep with
  | true => simp
  | false =>
    show (p.eval I env).map (!·) = _
    simp

end

/-! ## Expressions -/

/-- The column that a property path names, at the end of the navigations before its last segment:
the column of a scalar property, and that of the key of a navigation. -/
def Scope.columnOf? (s : Scope) (path : List String) : Option String := do
  let entity ← s.metadata.walk? s.root path.dropLast
  let last ← path.getLast?
  s.column? ⟨none, entity⟩ last

namespace Expr

/-- Whether an expression is a condition: a logical operation, a comparison, or a pattern match. -/
def isCondition : Expr → Bool
  | logical .. | relational .. | unary .not _ => true
  | call f _ => f.kind == .patternMatch
  | _ => false

/-- The value of a literal as it was written, with its declared type. -/
def literal? : Expr → Option (Value × EdmType)
  | constant value ty => some (value, ty)
  | _ => none

/-- Whether an expression is the literal `null`. -/
def isNull : Expr → Bool
  | constant .null _ => true
  | _ => false

/-- Whether an expression is the literal zero. -/
def isZero : Expr → Bool
  | constant (.int32 n) _ => n == 0
  | constant (.int64 n) _ => n == 0
  | _ => false

/-- The truth value of a Boolean literal. -/
def bool? : Expr → Option Bool
  | constant (.bool b) _ => some b
  | _ => none

/-- The function and the arguments of a call that only makes sense inside of a comparison. -/
def waiting? : Expr → Option (Builtin × Expr × Expr)
  | call f [first, second] =>
    if f.kind = .indexOf ∨ f.kind = .opaqueComparison then some (f, first, second) else none
  | _ => none

/-- What a pattern match looks for: a literal text gets its wildcards. -/
def asPattern (f : Builtin) : Expr → Expr
  | constant (.string text) ty => constant (.string (f.pattern text)) ty
  | other => other

/-- What is compared by a comparison function: where points in time are compared, a text literal
is one. -/
def asOperand (f : Builtin) : Expr → Expr
  | constant (.string text) ty =>
    constant (.string text) (if f = .dateTimeCompare then .dateTime else ty)
  | other => other

section

variable {V : Type} (s : Scope) (I : Interpretation V)

/-- The value of an expression; a condition has none, and neither has a call that only makes sense
inside of a comparison. -/
def value : Expr → Option V
  | constant value ty => (value.normalize ty).toOption.map I.literal
  | property path _ => (s.columnOf? path).map fun name => I.column path.dropLast name
  | call f args => if f.kind = .directValue then (values args).map (I.call f) else none
  | unary .negate operand => operand.value.map I.negate
  | arithmetic op left right => do
    let x ← left.value
    let y ← right.value
    return I.arithmetic op x y
  | _ => none
where
  /-- The values of some expressions. -/
  values : List Expr → Option (List V)
    | [] => some []
    | e :: es => do
      let x ← e.value
      let xs ← values es
      return x :: xs

/-- The truth value of a pattern match. -/
def matching (f : Builtin) : List Expr → Option Bool
  | [first, second] => do
    let x ← (f.haystackFirst first second).1.value s I
    let y ← ((f.haystackFirst first second).2.asPattern f).value s I
    return I.like x y
  | _ => none

/-- The truth value of a comparison of two expressions that are no conditions. A position is `k`
when the first `k + 1` characters of what is searched are what is looked for, a comparison function
is compared with zero by comparing its arguments, and an equality with `null` is a test. -/
def comparison (op : RelationalOp) (left right : Expr) : Option Bool :=
  match left.waiting? with
  | some (f, first, second) =>
    if f = .indexOf then do
      let haystack ← first.value s I
      let needle ← second.value s I
      let position ← right.value s I
      let start := I.call .substring
        [haystack, I.constant 0, I.arithmetic .add position (I.constant 1)]
      op.equality? (I.compare .eq start needle)
    else if right.isZero then do
      let x ← (first.asOperand f).value s I
      let y ← (second.asOperand f).value s I
      return if op = .ne then !I.compare .eq x y else I.compare op x y
    else none
  | none =>
    match left.isNull, right.isNull with
    | true, true => op.equality? true
    | true, false => do
      let x ← right.value s I
      op.equality? (I.isNull x)
    | false, true => do
      let x ← left.value s I
      op.equality? (I.isNull x)
    | false, false => do
      let x ← left.value s I
      let y ← right.value s I
      return I.compare op x y

/-- The truth value of an expression. A condition is compared with a Boolean literal, and any other
expression than a condition and a Boolean literal is true when its value equals `true`. -/
def truth : Expr → Option Bool
  | constant value _ => value.bool?
  | logical .and left right => do
    let p ← left.truth
    let q ← right.truth
    return p && q
  | logical .or left right => do
    let p ← left.truth
    let q ← right.truth
    return p || q
  | unary .not operand => operand.truth.map (!·)
  | relational op left right =>
    if left.isCondition then do
      let p ← left.truth
      let b ← right.bool?
      op.equality? (p == b)
    else if right.isCondition then do
      let b ← left.bool?
      let p ← right.truth
      op.equality? (p == b)
    else comparison s I op left right
  | call f args =>
    if f.kind = .patternMatch then matching s I f args
    else ((call f args).value s I).map fun x => I.compare .eq x (I.literal (.bool true))
  | e => (e.value s I).map fun x => I.compare .eq x (I.literal (.bool true))

end

end Expr

end EntityQuery
