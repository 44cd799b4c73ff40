import EntityQuery.Proofs.Binding
import EntityQuery.Sample.Orders
import EntityQuery.Statement.Recording

/-!
# What recordings keep

Applying a plan hands its parts to a builder one after the other. The recording builder keeps all of
them: `QueryPlan.applied_loses_nothing` reads the whole statement and the whole log off the plan.

Values and conditions cost no call. The recording builder gives back the trees that it is driven
with and leaves the recording alone (`Scalar.build_recording`, `Predicate.build_recording`). Each
other part is handed over by calls of one kind, and `Recording.Records` says of a computation which
kinds those are and how the statement changes. A loop over the items of a part records like a single
call, since the log keeps calls of one kind that follow each other once (`log_log`, `records_forM`).
The parts come in the order of `BuilderCall.all` and no kind comes twice, so the log is that order
without the kinds that the plan has nothing for (`foldl_logged`).
-/

namespace EntityQuery

/-! ## What statements and logs ought to hold -/

/-- The join of a statement that a join of a plan becomes. -/
def Join.clause (j : Join) : JoinClause := ⟨j.parent?, j.property, j.aliasName⟩

/-- What a statement selects for a projection; of an expansion only its alias counts. -/
def Projection.selection : Projection → Selection Scalar
  | all => .all
  | columns scalars => .columns scalars
  | expand items => .entities (items.map (·.aliasName))

/-- The statement on a root that holds the parts of a plan. -/
def QueryPlan.statementOn (plan : QueryPlan) (root : String) (rootAlias? : Option String) :
    Statement where
  root := root
  rootAlias? := rootAlias?
  joins := plan.joins.steps.map Join.clause
  parameters := plan.parameters
  condition? := plan.predicate?
  orderBy := plan.orderBy
  firstResult? := plan.firstResult?
  maxResults? := plan.maxResults?
  selection := plan.projection.selection

/-- Every kind of call, in the order in which the parts of a plan are handed over. -/
def BuilderCall.all : List BuilderCall :=
  [addJoin, bindParameter, restrict, orderBy, setFirstResult, setMaxResults, select]

/-- Whether a plan has something to hand over by calls of a kind; it always selects something. -/
def QueryPlan.has (plan : QueryPlan) : BuilderCall → Bool
  | .addJoin => !plan.joins.steps.isEmpty
  | .bindParameter => !plan.parameters.entries.isEmpty
  | .restrict => plan.predicate?.isSome
  | .orderBy => !plan.orderBy.isEmpty
  | .setFirstResult => plan.firstResult?.isSome
  | .setMaxResults => plan.maxResults?.isSome
  | .select => true

/-! ## Values and conditions -/

/-- The recording builder gives a value back as it is, and records nothing. -/
theorem Scalar.build_recording (x : Scalar) : x.build Recording.builder = pure x := by
  induction x using @Scalar.rec _
    (fun xs => Scalar.build.buildAll Recording.builder xs = pure xs) with
  | column | parameter | constant => rfl
  | function f args ih =>
    rw [Scalar.build, ih]
    rfl
  | arithmetic op left right ihl ihr =>
    rw [Scalar.build, ihl, ihr]
    rfl
  | negate operand ih =>
    rw [Scalar.build, ih]
    rfl
  | nil => rfl
  | cons x xs ih ihs =>
    rw [Scalar.build.buildAll, ih, ihs]
    rfl

/-- The recording builder gives values back as they are, and records nothing. -/
theorem Scalar.buildAll_recording (xs : List Scalar) :
    Scalar.build.buildAll Recording.builder xs = pure xs := by
  induction xs with
  | nil => rfl
  | cons x xs ih =>
    rw [Scalar.build.buildAll, x.build_recording, ih]
    rfl

/-- The recording builder gives a condition back as it is, and records nothing. -/
theorem Predicate.build_recording (p : Predicate) : p.build Recording.builder = pure p := by
  induction p with
  | const => rfl
  | and left right ihl ihr | or left right ihl ihr =>
    rw [Predicate.build, ihl, ihr]
    rfl
  | not operand ih =>
    rw [Predicate.build, ih]
    rfl
  | compare op left right =>
    rw [Predicate.build, left.build_recording, right.build_recording]
    rfl
  | like value pattern =>
    rw [Predicate.build, value.build_recording, pattern.build_recording]
    rfl
  | isNull operand | isNotNull operand =>
    rw [Predicate.build, operand.build_recording]
    rfl

/-- The recording builder is given the selection of a projection. -/
theorem Projection.build_recording (p : Projection) :
    p.build Recording.builder = pure p.selection := by
  cases p with
  | all => rfl
  | columns scalars =>
    rw [Projection.build, Scalar.buildAll_recording]
    rfl
  | expand items => rfl

namespace Recording

/-! ## The log -/

/-- The log after calls of one kind, if there are any. -/
def logged (any : Bool) (calls : List BuilderCall) (call : BuilderCall) : List BuilderCall :=
  if any then log calls call else calls

/-- A second call of one kind in a row leaves the log as it is. -/
theorem log_log (calls : List BuilderCall) (call : BuilderCall) :
    log (log calls call) call = log calls call := by
  have hlast : (log calls call).getLast? = some call := by
    unfold log
    split
    next h => exact h
    next => simp
  rw [log, if_pos hlast]

/-- A call of a kind that is not in the log is added to it. -/
theorem log_of_not_mem {calls : List BuilderCall} {call : BuilderCall} (h : call ∉ calls) :
    log calls call = calls ++ [call] := by
  have hlast : calls.getLast? ≠ some call := fun hlast => h (List.mem_of_getLast? hlast)
  rw [log, if_neg hlast]

/-- When no kind comes twice, the log keeps every kind that there are calls of. -/
theorem foldl_logged (has : BuilderCall → Bool) (kinds calls : List BuilderCall)
    (h : (calls ++ kinds).Nodup) :
    kinds.foldl (fun calls kind => logged (has kind) calls kind) calls =
      calls ++ kinds.filter has := by
  induction kinds generalizing calls with
  | nil => simp
  | cons kind kinds ih =>
    rw [List.foldl_cons]
    cases hkind : has kind with
    | false =>
      have hrest : (calls ++ kinds).Nodup := h.sublist (by simp)
      rw [List.filter_cons_of_neg (by simp [hkind])]
      exact ih calls hrest
    | true =>
      have hmem : kind ∉ calls := by
        intro hmem
        exact List.disjoint_of_nodup_append h hmem List.mem_cons_self
      have hrest : ((calls ++ [kind]) ++ kinds).Nodup := by simpa using h
      have hlogged : logged true calls kind = calls ++ [kind] := log_of_not_mem hmem
      rw [List.filter_cons_of_pos hkind, hlogged, ih _ hrest]
      simp

/-! ## Calls that change the statement -/

/-- A computation makes calls of some kinds, each of them if there is something to hand over, and
changes the statement. -/
def Records (has : BuilderCall → Bool) (kinds : List BuilderCall)
    (change : Statement → Statement) (x : StateM Recording Unit) : Prop :=
  ∀ r, x r = ((), ⟨change r.statement,
    kinds.foldl (fun calls kind => logged (has kind) calls kind) r.calls⟩)

/-- A sequence makes the calls of its parts one after the other, and changes the statement by one
part after the other. -/
theorem Records.bind {has : BuilderCall → Bool} {kinds kinds' : List BuilderCall}
    {change change' : Statement → Statement} {x y : StateM Recording Unit}
    (hx : Records has kinds change x) (hy : Records has kinds' change' y) :
    Records has (kinds ++ kinds') (fun s => change' (change s)) (x >>= fun _ => y) := by
  intro r
  show (let (_, r') := x r; y r') = _
  rw [hx r]
  show y _ = _
  rw [hy, List.foldl_append]

/-- A single call records its change. -/
theorem records_record (has : BuilderCall → Bool) (kind : BuilderCall)
    (change : Statement → Statement) (h : has kind = true) :
    Records has [kind] change (record kind change) := by
  intro r
  show ((), (⟨change r.statement, log r.calls kind⟩ : Recording)) =
    ((), ⟨change r.statement, logged (has kind) r.calls kind⟩)
  rw [h]
  rfl

/-- A call for an optional item records its change, if the item is there. -/
theorem records_optional {α : Type} (has : BuilderCall → Bool) (kind : BuilderCall)
    (put : Option α → Statement → Statement) (item? : Option α)
    (hnone : ∀ s, put none s = s) (h : has kind = item?.isSome) :
    Records has [kind] (put item?) (item?.forM fun a => record kind (put (some a))) := by
  intro r
  rw [List.foldl_cons, List.foldl_nil, h]
  cases item? with
  | none =>
    rw [hnone]
    rfl
  | some a => rfl

/-- Calls for the items of a list record what the items add together, when each item is added behind
those before it. -/
theorem records_forM {α : Type} (has : BuilderCall → Bool) (kind : BuilderCall)
    (put : List α → Statement → Statement) (items : List α) (hnil : ∀ s, put [] s = s)
    (hcons : ∀ a items s, put (a :: items) s = put items (put [a] s))
    (h : has kind = !items.isEmpty) :
    Records has [kind] (put items) (items.forM fun a => record kind (put [a])) := by
  intro r
  rw [List.foldl_cons, List.foldl_nil, h]
  clear h
  induction items generalizing r with
  | nil =>
    rw [hnil]
    rfl
  | cons a items ih =>
    -- The calls after the first one find a call of their kind at the end of the log.
    have hlog : logged (!items.isEmpty) (log r.calls kind) kind = log r.calls kind := by
      unfold logged
      split
      next => exact log_log _ _
      next => rfl
    show (items.forM fun a => record kind (put [a])) ⟨put [a] r.statement, log r.calls kind⟩ = _
    rw [ih, hlog, hcons a items]
    rfl

end Recording

/-! ## Whole plans -/

/-- Parameters that are bound one after the other, under names that differ, are all kept. -/
theorem Parameters.foldl_insert (entries : List (String × Value)) (ps : Parameters)
    (h : (ps.names ++ entries.map (·.1)).Nodup) :
    entries.foldl (fun ps entry => ps.insert entry.1 entry.2) ps = ⟨ps.entries ++ entries⟩ := by
  induction entries generalizing ps with
  | nil => simp
  | cons entry entries ih =>
    have hname : entry.1 ∉ ps.names := by
      intro hmem
      exact List.disjoint_of_nodup_append h hmem List.mem_cons_self
    have hentries : (ps.insert entry.1 entry.2).entries = ps.entries ++ [entry] :=
      entries_insert hname
    have hnames : (ps.insert entry.1 entry.2).names = ps.names ++ [entry.1] := by
      simp [names, hentries]
    have hrest : ((ps.insert entry.1 entry.2).names ++ entries.map (·.1)).Nodup := by
      rw [hnames]
      simpa using h
    rw [List.foldl_cons, ih _ hrest]
    simp [hentries]

namespace QueryPlan

open Recording

/-- A statement with the parts of a plan added to it. -/
def addTo (plan : QueryPlan) (s : Statement) : Statement where
  root := s.root
  rootAlias? := s.rootAlias?
  joins := s.joins ++ plan.joins.steps.map Join.clause
  parameters :=
    plan.parameters.entries.foldl (fun ps entry => ps.insert entry.1 entry.2) s.parameters
  condition? := plan.predicate?.or s.condition?
  orderBy := s.orderBy ++ plan.orderBy
  firstResult? := plan.firstResult?.or s.firstResult?
  maxResults? := plan.maxResults?.or s.maxResults?
  selection := plan.projection.selection

/-- Applying a plan makes calls of every kind that it has something to hand over by, and adds its
parts to the statement. -/
theorem records_apply (plan : QueryPlan) :
    Records plan.has BuilderCall.all plan.addTo (plan.apply Recording.builder) := by
  have hjoins := records_forM plan.has .addJoin
    (fun steps s => { s with joins := s.joins ++ steps.map Join.clause }) plan.joins.steps
    (by simp) (by simp) rfl
  have hparameters := records_forM plan.has .bindParameter
    (fun entries s => { s with
      parameters := entries.foldl (fun ps entry => ps.insert entry.1 entry.2) s.parameters })
    plan.parameters.entries (by simp) (by simp) rfl
  have hpredicate := records_optional plan.has .restrict
    (fun p? s => { s with condition? := p?.or s.condition? }) plan.predicate? (by simp) rfl
  have horderBy := records_forM plan.has .orderBy
    (fun keys s => { s with orderBy := s.orderBy ++ keys }) plan.orderBy (by simp) (by simp) rfl
  have hfirst := records_optional plan.has .setFirstResult
    (fun n? s => { s with firstResult? := n?.or s.firstResult? }) plan.firstResult? (by simp) rfl
  have hmax := records_optional plan.has .setMaxResults
    (fun n? s => { s with maxResults? := n?.or s.maxResults? }) plan.maxResults? (by simp) rfl
  have hselect := records_record plan.has .select
    (fun s => { s with selection := plan.projection.selection }) rfl
  unfold apply
  simp only [Predicate.build_recording, Scalar.build_recording, Projection.build_recording,
    pure_bind]
  exact hjoins.bind (hparameters.bind (hpredicate.bind (horderBy.bind (hfirst.bind
    (hmax.bind hselect)))))

/-- The parts of a plan, added to an empty statement, make the statement of the plan. -/
theorem addTo_empty (plan : QueryPlan) (h : plan.parameters.names.Nodup) (root : String)
    (rootAlias? : Option String) :
    plan.addTo (.empty root rootAlias?) = plan.statementOn root rootAlias? := by
  have hparameters : plan.parameters.entries.foldl (fun ps entry => ps.insert entry.1 entry.2)
      .empty = plan.parameters := Parameters.foldl_insert plan.parameters.entries .empty h
  simp [addTo, statementOn, Statement.empty, hparameters]

/-- The recording of a plan holds everything that the plan holds. On a root with an alias or without
one, its statement has the joins, the parameters, the condition, the sort keys, the numbers of
results and the selection of the plan, all in order, and its log has each kind of call that the plan
has something to hand over by, in the order of handing over. Making a value or a condition alone
gives it back as it is and records nothing. -/
theorem applied_loses_nothing (plan : QueryPlan) (h : plan.parameters.names.Nodup) :
    (∀ root rootAlias?, plan.apply Recording.builder (.start root rootAlias?) =
      ((), ⟨plan.statementOn root rootAlias?, BuilderCall.all.filter plan.has⟩)) ∧
    (∀ (p : Predicate) (r : Recording), p.build Recording.builder r = (p, r)) ∧
    ∀ (x : Scalar) (r : Recording), x.build Recording.builder r = (x, r) := by
  refine ⟨?_, ?_, ?_⟩
  · intro root rootAlias?
    have hcalls := foldl_logged plan.has BuilderCall.all [] (by decide)
    rw [plan.records_apply]
    show ((), (⟨plan.addTo (.empty root rootAlias?), BuilderCall.all.foldl
      (fun calls kind => logged (plan.has kind) calls kind) []⟩ : Recording)) = _
    rw [plan.addTo_empty h, hcalls]
    rfl
  · intro p r
    rw [p.build_recording]
    rfl
  · intro x r
    rw [x.build_recording]
    rfl

end QueryPlan

/-- The plan of the sample query is recorded as it is: with calls of every kind but those of paging,
and on another root as on its own. -/
theorem Shop.largeOrders_loses_nothing :
    ∃ plan, planner.assemble "Customer" largeOrders = .ok plan ∧ plan.parameters.names.Nodup ∧
      plan.recording = ⟨plan.statementOn plan.root plan.rootAlias?,
        [.addJoin, .bindParameter, .restrict, .orderBy, .select]⟩ ∧
      (plan.apply Recording.builder (.start "Client" (some "c"))).2.statement =
        plan.statementOn "Client" (some "c") ∧
      ∀ (p : Predicate) (r : Recording), p.build Recording.builder r = (p, r) := by
  obtain ⟨plan, h⟩ := exists_of_isOk
    (show (planner.assemble "Customer" largeOrders).isOk = true by decide +kernel)
  have hplan : (planner.assemble "Customer" largeOrders).toOption.all (fun plan =>
      decide (plan.parameters.names.Nodup ∧ BuilderCall.all.filter plan.has =
        [.addJoin, .bindParameter, .restrict, .orderBy, .select])) = true := by decide +kernel
  rw [h] at hplan
  obtain ⟨hnames, hcalls⟩ := of_decide_eq_true hplan
  obtain ⟨happly, hbuild, -⟩ := plan.applied_loses_nothing hnames
  refine ⟨plan, h, hnames, ?_, ?_, hbuild⟩
  · rw [QueryPlan.recording, happly, hcalls]
  · rw [happly]

end EntityQuery
