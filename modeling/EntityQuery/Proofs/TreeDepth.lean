import EntityQuery.Proofs.Parsing
import EntityQuery.Proofs.Spelling
import Mathlib.Data.List.Forall2
import Mathlib.Tactic.Ring

/-!
# The depth of parsed trees

A limit on the nesting bounds the depth of a tree only together with the length of its runs. A run
is a row of operators of one level that stand side by side; such operators group to the left, so a
run is as deep as it is long, and nothing in it is nested. At one nesting a tree goes down one run
of each of the five levels and one operand (`Derives.fits`). Texts have runs of every length, so
there are trees of every depth under every limit (`Parser.depth_bounded_by_runs`).
-/

namespace EntityQuery

deriving instance DecidableEq for Level

namespace Tree

/-- The depth of a tree; a leaf has depth one. -/
def depth : Tree → Nat
  | binary _ left right => 1 + max left.depth right.depth
  | unary _ operand => 1 + operand.depth
  | call _ args => 1 + depths args
  | path _ | literal _ => 1
where
  /-- The greatest depth of some trees, zero when there are none. -/
  depths : List Tree → Nat
    | [] => 0
    | e :: es => max e.depth (depths es)

/-- The length of the run of a level that a tree ends with: its operators of the level, down the
left operands. -/
def run (level : Level) : Tree → Nat
  | binary op left _ => if op.level = level then left.run level + 1 else 0
  | _ => 0

/-- The length of the longest run in a tree. -/
def longestRun : Tree → Nat
  | binary op left right => max (left.run op.level + 1) (max left.longestRun right.longestRun)
  | unary _ operand => operand.longestRun
  | call _ args => longestRuns args
  | path _ | literal _ => 0
where
  /-- The length of the longest run in some trees. -/
  longestRuns : List Tree → Nat
    | [] => 0
    | e :: es => max e.longestRun (longestRuns es)

/-- No run is longer than the longest one. -/
theorem run_le_longestRun (level : Level) (e : Tree) : e.run level ≤ e.longestRun := by
  cases e with
  | binary op left right =>
    unfold run longestRun
    split
    next hlevel =>
      subst hlevel
      exact Nat.le_max_left _ _
    next => exact Nat.zero_le _
  | _ => exact Nat.zero_le _

end Tree

/-! ## Derivations -/

/-- How deep the trees of a category are, at a nesting and with runs of some length: one operand at
each nesting, and on the way to it one run of each level. -/
def Category.depthBound (c : Category) (longest nesting : Nat) : Nat :=
  (5 - c.rank) * longest + nesting * (5 * longest + 1) + 1

namespace Category

/-- A level adds a run to what its operands have. -/
theorem depthBound_operations (level : Level) (longest nesting : Nat) :
    (operations level).depthBound longest nesting =
      level.operands.depthBound longest nesting + longest := by
  have hlevels : (5 - level.rank) * longest = (5 - (level.rank + 1)) * longest + longest := by
    cases level <;> simp only [Level.rank] <;> omega
  unfold depthBound
  rw [Level.rank_operands, rank, hlevels]
  omega

/-- Trees that are nested deeper may be deeper. -/
theorem depthBound_mono (c : Category) (longest : Nat) {m n : Nat} (h : m ≤ n) :
    c.depthBound longest m ≤ c.depthBound longest n := by
  have hnested := Nat.mul_le_mul_right (5 * longest + 1) h
  unfold depthBound
  omega

/-- An operand that holds an expression has room for it, and for a node, at the next nesting. -/
theorem depthBound_expression (longest nesting : Nat) :
    1 + expression.depthBound longest nesting = primary.depthBound longest (nesting + 1) := by
  have hnested := Nat.add_one_mul nesting (5 * longest + 1)
  simp only [depthBound, rank, Level.rank]
  omega

/-- A prefix operator has room for a node at the next nesting. -/
theorem depthBound_prefixed (longest nesting : Nat) :
    1 + prefixed.depthBound longest nesting ≤ prefixed.depthBound longest (nesting + 1) := by
  have hnested := Nat.add_one_mul nesting (5 * longest + 1)
  simp only [depthBound, rank]
  omega

end Category

/-- A tree of operations is as deep as its operands may be and the run of its level is long; any
tree is within the bound of its category. -/
def Tree.Fits (longest : Nat) (c : Category) (e : Tree) (nesting : Nat) : Prop :=
  e.depth ≤ c.depthBound longest nesting ∧ ∀ level, c = .operations level →
    e.depth ≤ level.operands.depthBound longest nesting + e.run level

/-- Operations whose depth is that of the operands and of their run are within their bound. -/
theorem Tree.Fits.of_run {longest nesting : Nat} {level : Level} {e : Tree}
    (hlongest : e.longestRun ≤ longest)
    (h : e.depth ≤ level.operands.depthBound longest nesting + e.run level) :
    e.Fits longest (.operations level) nesting := by
  refine ⟨?_, ?_⟩
  · have hrun := e.run_le_longestRun level
    rw [Category.depthBound_operations]
    omega
  · rintro _ ⟨⟩
    exact h

/-- What is no operation has only to be within its bound. -/
theorem Tree.Fits.of_le {longest nesting : Nat} {c : Category} {e : Tree}
    (hc : ∀ level, c ≠ .operations level) (h : e.depth ≤ c.depthBound longest nesting) :
    e.Fits longest c nesting :=
  ⟨h, fun level hlevel => absurd hlevel (hc level)⟩

/-- A tree that derives with runs of some length is within the bound of its category. -/
theorem Derives.fits {c : Category} {ts : List Token} {e : Tree} {n longest : Nat}
    (h : Derives c ts e n) (hlongest : e.longestRun ≤ longest) : e.Fits longest c n := by
  induction h using @Derives.rec _
    (fun _ args n _ => Tree.longestRun.longestRuns args ≤ longest →
      Tree.depth.depths args ≤ Category.expression.depthBound longest n) with
  | operand _ ih => exact .of_run hlongest (Nat.le_add_right_of_le (ih hlongest).1)
  | @operation op ts us left right m n _ _ ihl ihr =>
    unfold Tree.longestRun at hlongest
    obtain ⟨hrun, hparts⟩ := Nat.max_le.mp hlongest
    obtain ⟨hl, hr⟩ := Nat.max_le.mp hparts
    have hleft := (ihl hl).2 op.level rfl
    have hright := (ihr hr).1
    have hm := op.level.operands.depthBound_mono longest (Nat.le_max_left m n)
    have hn := op.level.operands.depthBound_mono longest (Nat.le_max_right m n)
    -- The operator makes the run of its left operand longer by one.
    refine .of_run (Nat.max_le.mpr ⟨hrun, hparts⟩) ?_
    rw [Tree.depth, Tree.run, if_pos rfl]
    omega
  | @unary op ts e n _ ih =>
    refine .of_le nofun ?_
    have he : e.depth ≤ _ := (ih hlongest).1
    have hnode := Category.depthBound_prefixed longest n
    rw [Tree.depth]
    omega
  | primary _ ih => exact .of_le nofun (ih hlongest).1
  | literal value | path first more => exact .of_le nofun (Nat.le_add_left 1 _)
  | emptyCall name => exact .of_le nofun (Nat.le_add_left 1 _)
  | @call name ts args n _ ih =>
    -- Calls and groups are the only operands that hold operations, at the next nesting.
    refine .of_le nofun ?_
    have hargs := ih hlongest
    rw [← Category.depthBound_expression, Tree.depth]
    omega
  | @group ts e n _ ih =>
    refine .of_le nofun ?_
    have he := (ih hlongest).1
    rw [← Category.depthBound_expression]
    omega
  | @last ts e n _ ih =>
    rename_i hlongest
    have he := (ih (Nat.max_le.mp hlongest).1).1
    exact Nat.max_le.mpr ⟨he, Nat.zero_le _⟩
  | @more ts us e es m n _ _ ih ihmore =>
    rename_i hlongest
    obtain ⟨he, hes⟩ := Nat.max_le.mp hlongest
    have hm := Category.expression.depthBound_mono longest (Nat.le_max_left m n)
    have hn := Category.expression.depthBound_mono longest (Nat.le_max_right m n)
    exact Nat.max_le.mpr ⟨Nat.le_trans (ih he).1 hm, Nat.le_trans (ihmore hes) hn⟩

/-- An operand with nothing beside it is an operation of every level. -/
theorem Derives.operations {ts : List Token} {e : Tree} {n : Nat} (h : Derives .prefixed ts e n)
    (level : Level) : Derives (.operations level) ts e n := by
  have hmultiplicative : Derives (.operations .multiplicative) ts e n := .operand h
  have hadditive : Derives (.operations .additive) ts e n := .operand hmultiplicative
  have hrelational : Derives (.operations .relational) ts e n := .operand hadditive
  have hand : Derives (.operations .and) ts e n := .operand hrelational
  cases level with
  | or => exact .operand hand
  | and | relational | additive | multiplicative => assumption

/-! ## Runs of every length -/

/-- Names with `or` between them, one more than some number of operators. -/
def disjunction : Nat → Tree
  | 0 => .path ["a"]
  | n + 1 => .binary (.logical .or) (disjunction n) (.path ["a"])

/-- The words of a disjunction. -/
def disjunctionWords : Nat → List String
  | 0 => ["a"]
  | n + 1 => disjunctionWords n ++ ["or", "a"]

/-- The text of a disjunction. -/
def disjunctionText (n : Nat) : String := " ".intercalate (disjunctionWords n)

/-- A disjunction is as deep as it has names. -/
theorem depth_disjunction (n : Nat) : (disjunction n).depth = n + 1 := by
  induction n with
  | zero => rfl
  | succ n ih =>
    show 1 + max (disjunction n).depth 1 = n + 2
    omega

/-- A disjunction derives from its words without any nesting. -/
theorem exists_disjunction_tokens (n : Nat) :
    ∃ ts, List.Forall₂ Token.Spells ts (disjunctionWords n) ∧
      Derives .expression ts (disjunction n) 0 := by
  have hkeyword : ∀ k : Keyword, k.spelling ≠ "a" := by
    intro k hk
    have hspelling := k.ofSpelling?_spelling
    rw [hk] at hspelling
    cases hspelling
  have hword : Token.Spells (.ident "a") "a" := .ident (by decide) hkeyword
  have hname : Derives .primary [.ident "a"] (.path ["a"]) 0 := .path "a" []
  induction n with
  | zero => exact ⟨_, .cons hword .nil, hname.primary.operations .or⟩
  | succ n ih =>
    obtain ⟨ts, hspells, hd⟩ := ih
    refine ⟨ts ++ [.keyword (.logical .or), .ident "a"], ?_, ?_⟩
    · exact List.rel_append hspells (.cons (.keyword (.logical .or)) (.cons hword .nil))
    · have hleft : Derives (.operations (BinaryOp.logical .or).level) ts (disjunction n) 0 := hd
      exact hleft.operation (hname.primary.operations .and)

namespace Parser

/-- The text of a disjunction is accepted under every limit. -/
theorem parseFilter_disjunction (limit n : Nat) :
    ∃ e, Syntax.parseFilter (disjunctionText n) limit = .ok e ∧ e.tree.depth = n + 1 := by
  obtain ⟨ts, hspells, hd⟩ := exists_disjunction_tokens n
  have hreads := Lexeme.reads_spellings hspells 0
  have htext : (disjunctionText n).toList =
      [' '].intercalate ((disjunctionWords n).map String.toList) := String.toList_intercalate
  rw [← htext] at hreads
  obtain ⟨tokens, htokens, rfl⟩ := mapM_token_eq_ok.mpr hreads
  obtain ⟨e, he, htree⟩ := (parseFilter_iff _ limit _).mpr
    ⟨tokens, 0, htokens, hd, Nat.zero_le limit⟩
  exact ⟨e, he, htree ▸ depth_disjunction n⟩

/-- The depth of what is parsed is bounded by the limit and the longest run together. Where no two
operators of one level stand side by side, it is within eight levels for each nesting that the limit
allows, and eight more. Under every limit there are texts of every depth. -/
theorem depth_bounded_by_runs (source : String) (limit : Nat) :
    (∀ e, Syntax.parseFilter source limit = .ok e →
      e.tree.depth ≤ (5 * e.tree.longestRun + 1) * (limit + 1) ∧
        (e.tree.longestRun ≤ 1 → e.tree.depth ≤ 8 * (limit + 1))) ∧
    ∀ n, ∃ e, Syntax.parseFilter (disjunctionText n) limit = .ok e ∧ e.tree.depth = n + 1 := by
  refine ⟨fun e he => ?_, parseFilter_disjunction limit⟩
  obtain ⟨tokens, n, -, hd, hn⟩ := (parseFilter_iff source limit e.tree).mp ⟨e, he, rfl⟩
  have hbound : e.tree.depth ≤ (5 * e.tree.longestRun + 1) * (limit + 1) :=
    calc e.tree.depth
        ≤ Category.expression.depthBound e.tree.longestRun n := (hd.fits (Nat.le_refl _)).1
      _ ≤ Category.expression.depthBound e.tree.longestRun limit :=
          Category.depthBound_mono _ _ hn
      _ = (5 * e.tree.longestRun + 1) * (limit + 1) := by
          simp only [Category.depthBound, Category.rank, Level.rank]
          ring
  refine ⟨hbound, fun hrun => ?_⟩
  calc e.tree.depth
      ≤ (5 * e.tree.longestRun + 1) * (limit + 1) := hbound
    _ ≤ 8 * (limit + 1) := Nat.mul_le_mul_right _ (by omega)

/-- A condition whose operators stand alone is within eight levels for each of its nesting, and
eight more. -/
theorem negation_depth_bounded :
    ∃ e, Syntax.parseFilter "not (a or b) and c" 2 = .ok e ∧ e.tree.longestRun ≤ 1 ∧
      e.tree.depth ≤ (5 * e.tree.longestRun + 1) * (2 + 1) ∧ e.tree.depth ≤ 8 * (2 + 1) := by
  have hparse : ∃ e, Syntax.parseFilter "not (a or b) and c" 2 = .ok e ∧
      e.tree.longestRun ≤ 1 := by
    have hruns : (Syntax.parseFilter "not (a or b) and c" 2).toOption.any
        (·.tree.longestRun ≤ 1) = true := by decide +kernel
    cases he : Syntax.parseFilter "not (a or b) and c" 2 with
    | ok e =>
      rw [he] at hruns
      exact ⟨e, rfl, of_decide_eq_true hruns⟩
    | error e =>
      rw [he] at hruns
      cases hruns
  obtain ⟨e, he, hrun⟩ := hparse
  obtain ⟨hbound, hshort⟩ := (depth_bounded_by_runs "not (a or b) and c" 2).1 e he
  exact ⟨e, he, hrun, hbound, hshort hrun⟩

/-- Seventeen names with `or` between them are accepted under a limit of one, as a tree that is
deeper than eight levels for each of its nesting. -/
theorem disjunction_deeper_than_limit :
    ∃ e, Syntax.parseFilter
      "a or a or a or a or a or a or a or a or a or a or a or a or a or a or a or a or a" 1 =
        .ok e ∧ 8 * (1 + 1) < e.tree.depth := by
  obtain ⟨e, he, hdepth⟩ := parseFilter_disjunction 1 16
  have htext : disjunctionText 16 =
    "a or a or a or a or a or a or a or a or a or a or a or a or a or a or a or a or a" := by rfl
  rw [htext] at he
  exact ⟨e, he, by omega⟩

end Parser

end EntityQuery
