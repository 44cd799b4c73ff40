import EntityQuery.Proofs.Resumption

/-!
# The names of parameters

Parameters are named in the order of the candidates. `unreserved` lists the candidates before a
number that are not reserved, and the names of a binding that `IsInOrder` are such a list. Binding
one more value keeps them one (`IsInOrder.push`): the number of its name is the least free one, so
that all candidates from the end of the list up to it are reserved.

A `Request` to bind is met or refused, and `bindAll` makes requests one after the other. Requests
may be cut into pieces, each of which goes on from the parameters of the piece before it and
searches for names from zero again (`bindPieces`). This comes to the same as making them all in one
piece (`bindPieces_eq`), so names do not depend on the cuts (`names_in_order`).
-/

namespace EntityQuery.Binding

variable {c : Config} {b b' : Binding}

/-! ## Order -/

/-- The candidates before a number that are not reserved: before four, and without `p1`, these are
`p0`, `p2` and `p3`. -/
def unreserved (c : Config) (n : Nat) : List String :=
  ((List.range n).map (name c)).filter (· ∉ c.reservedParameters)

/-- A candidate stands before a number when its own number is less. -/
theorem name_mem_unreserved {m n : Nat} :
    name c m ∈ unreserved c n ↔ m < n ∧ name c m ∉ c.reservedParameters := by
  unfold unreserved
  rw [List.mem_filter, List.mem_map_of_injective (name_injective c), List.mem_range,
    decide_eq_true_iff]

/-- A candidate that is not reserved comes last before the next number. -/
theorem unreserved_succ {n : Nat} (h : name c n ∉ c.reservedParameters) :
    unreserved c (n + 1) = unreserved c n ++ [name c n] := by
  unfold unreserved
  rw [List.range_succ, List.map_append, List.filter_append]
  congr 1
  exact List.filter_cons_of_pos (decide_eq_true h)

/-- Reserved candidates do not count. -/
theorem unreserved_eq_of_reserved {m n : Nat} (hle : m ≤ n)
    (h : ∀ i, m ≤ i → i < n → name c i ∈ c.reservedParameters) :
    unreserved c n = unreserved c m := by
  induction n, hle using Nat.le_induction with
  | base => rfl
  | succ n hle ih =>
    rw [← ih fun i hi hlt => h i hi (Nat.lt_succ_of_lt hlt)]
    unfold unreserved
    rw [List.range_succ, List.map_append, List.filter_append]
    have hlast : name c n ∈ c.reservedParameters := h n hle (Nat.lt_succ_self n)
    simp [hlast]

/-- Parameters are named in the order of the candidates, and the next name is searched for from a
number that leaves none of them out. -/
structure IsInOrder (c : Config) (b : Binding) : Prop where
  /-- The search leaves no free candidate out. -/
  tight : b.IsTight c
  /-- The names are the first candidates that are not reserved. -/
  names : ∃ n, b.parameters.names = unreserved c n

/-- No parameters are in order. -/
theorem isInOrder_start (c : Config) : start.IsInOrder c where
  tight := isTight_resume c _
  names := ⟨0, rfl⟩

/-- Parameters stay in order when one more value is bound. -/
theorem IsInOrder.push (h : b.IsInOrder c) (value : Value) : (b.push c value).IsInOrder c := by
  refine ⟨h.tight.push value, b.nextNumber c + 1, ?_⟩
  obtain ⟨n, hn⟩ := h.names
  have hfree : name c (b.nextNumber c) ∉ c.reservedParameters := nextName_not_reserved c b
  have hnew : name c (b.nextNumber c) ∉ unreserved c n := hn ▸ nextName_not_mem c b
  -- The number of the next name is none of those before `n`, whose names are given.
  have hle : n ≤ b.nextNumber c := by
    by_contra! hlt
    exact hnew (name_mem_unreserved.mpr ⟨hlt, hfree⟩)
  -- The search passes over numbers from `n` on only when their names are reserved.
  have hpassed : ∀ i, n ≤ i → i < b.nextNumber c → name c i ∈ c.reservedParameters := by
    intro i hi hlt
    rcases isTaken_iff.mp (h.tight.isTaken_of_lt hlt) with hreserved | hbound
    · exact hreserved
    · rw [hn, name_mem_unreserved] at hbound
      omega
  calc (b.push c value).parameters.names
      = b.parameters.names ++ [name c (b.nextNumber c)] := names_push c b value
    _ = unreserved c n ++ [name c (b.nextNumber c)] := by rw [hn]
    _ = unreserved c (b.nextNumber c) ++ [name c (b.nextNumber c)] := by
      rw [unreserved_eq_of_reserved hle hpassed]
    _ = unreserved c (b.nextNumber c + 1) := (unreserved_succ hfree).symm

/-- Names in order differ, and none of them is reserved. -/
theorem IsInOrder.nodup_names (h : b.IsInOrder c) :
    b.parameters.names.Nodup ∧ ∀ name ∈ b.parameters.names, name ∉ c.reservedParameters := by
  obtain ⟨n, hn⟩ := h.names
  rw [hn]
  refine ⟨(List.nodup_range.map (name_injective c)).filter _, fun name hmem => ?_⟩
  exact of_decide_eq_true (List.mem_filter.mp hmem).2

/-! ## Requests -/

/-- A request to bind a value. -/
inductive Request
  /-- As it is. -/
  | value (v : Value)
  /-- In the form that a declared type asks for. -/
  | literal (v : Value) (ty : EdmType)

/-- Meets a request, or refuses it. -/
def Request.run (c : Config) : Request → Run Scalar
  | value v => bindValue c v
  | literal v ty => bind c v ty

/-- Makes requests one after the other, also when some are refused, and lists what each of them
came to. -/
def bindAll (c : Config) : List Request → Binding → List (Except PlanError Scalar) × Binding
  | [], b => ([], b)
  | r :: rs, b =>
    let (results, b') := bindAll c rs (finalState (r.run c b))
    (outcome (r.run c b) :: results, b')

/-- Makes requests in pieces. Each piece goes on from the parameters that the one before it has
left, and searches for names from zero. -/
def bindPieces (c : Config) :
    List (List Request) → Parameters → List (Except PlanError Scalar) × Parameters
  | [], ps => ([], ps)
  | piece :: pieces, ps =>
    let (results, b) := bindAll c piece (resume ps)
    let (others, ps) := bindPieces c pieces b.parameters
    (results ++ others, ps)

/-- A request is met under the next name, or refused without a change. -/
theorem Request.run_cases (c : Config) (r : Request) (b : Binding) :
    (∃ value, r.run c b = .ok (.parameter (b.nextName c)) (b.push c value)) ∨
      ∃ e, r.run c b = .error e b := by
  cases r with
  | value v => exact .inl ⟨v, bindValue_ok.mpr ⟨rfl, rfl⟩⟩
  | literal v ty =>
    cases h : bind c v ty b with
    | ok scalar b' =>
      obtain ⟨value, -, rfl, rfl⟩ := bind_ok.mp h
      exact .inl ⟨value, h⟩
    | error e b' =>
      obtain ⟨-, rfl⟩ := bind_error h
      exact .inr ⟨e, h⟩

/-- Requests leave parameters in order, with one more name for each that is met. -/
theorem IsInOrder.bindAll (h : b.IsInOrder c) (rs : List Request) :
    (bindAll c rs b).2.IsInOrder c ∧
      (bindAll c rs b).2.parameters.names.map Scalar.parameter =
        b.parameters.names.map Scalar.parameter ++
          (bindAll c rs b).1.filterMap Except.toOption := by
  induction rs generalizing b with
  | nil => exact ⟨h, (List.append_nil _).symm⟩
  | cons r rs ih =>
    unfold Binding.bindAll
    rcases r.run_cases c b with ⟨value, hrun⟩ | ⟨e, hrun⟩
    · rw [hrun]
      obtain ⟨horder, hnames⟩ := ih (h.push value)
      rw [names_push, List.map_append, List.append_assoc] at hnames
      exact ⟨horder, hnames⟩
    · rw [hrun]
      exact ih h

/-! ## Pieces -/

/-- Requests come to the same in bindings that give the same names. -/
theorem Continues.bindAll (h : b.Continues c b') (rs : List Request) :
    (bindAll c rs b).1 = (bindAll c rs b').1 ∧
      (bindAll c rs b).2.Continues c (bindAll c rs b').2 := by
  induction rs generalizing b b' with
  | nil => exact ⟨rfl, h⟩
  | cons r rs ih =>
    have hmirrors : Mirrors (Continues c) (r.run c) := by
      cases r with
      | value v => exact Binds.mirrors (.part (.bindValue v))
      | literal v ty => exact (bind_binds c v ty).mirrors
    have hresult := hmirrors b b' h
    unfold Binding.bindAll
    generalize r.run c b = left at hresult
    generalize r.run c b' = right at hresult
    cases hresult with
    | ok scalar h =>
      obtain ⟨hresults, hafter⟩ := ih h
      exact ⟨congrArg (List.cons (.ok scalar)) hresults, hafter⟩
    | error e h =>
      obtain ⟨hresults, hafter⟩ := ih h
      exact ⟨congrArg (List.cons (.error e)) hresults, hafter⟩

/-- Requests that follow others are made in the binding that these leave. -/
theorem bindAll_append (c : Config) (rs rs' : List Request) (b : Binding) :
    bindAll c (rs ++ rs') b =
      ((bindAll c rs b).1 ++ (bindAll c rs' (bindAll c rs b).2).1,
        (bindAll c rs' (bindAll c rs b).2).2) := by
  induction rs generalizing b with
  | nil => rfl
  | cons r rs ih => simp only [List.cons_append, bindAll, ih]

/-- Requests that are cut into pieces come to what they come to in one piece. -/
theorem bindPieces_eq (pieces : List (List Request)) (h : b.IsTight c) :
    bindPieces c pieces b.parameters =
      ((bindAll c pieces.flatten b).1, (bindAll c pieces.flatten b).2.parameters) := by
  induction pieces generalizing b with
  | nil => rfl
  | cons piece pieces ih =>
    -- A search from zero gives the names that the search in one piece goes on to give.
    have hresume : (resume b.parameters).Continues c b := ⟨rfl, isTight_resume c _, h⟩
    obtain ⟨hresults, hafter⟩ := hresume.bindAll piece
    rw [List.flatten_cons, bindAll_append]
    unfold bindPieces
    dsimp only
    rw [hresults, hafter.parameters, ih hafter.right]

/-- However requests are cut into pieces, the names are, in order, the first candidates that are not
reserved, one for each request that is met: they differ, none is reserved, and what the requests
come to does not depend on the cuts. -/
theorem names_in_order (c : Config) (pieces : List (List Request)) :
    (∃ n, (bindPieces c pieces .empty).2.names = unreserved c n) ∧
    (bindPieces c pieces .empty).1.filterMap Except.toOption =
      (bindPieces c pieces .empty).2.names.map Scalar.parameter ∧
    (bindPieces c pieces .empty).2.names.Nodup ∧
    (∀ name ∈ (bindPieces c pieces .empty).2.names, name ∉ c.reservedParameters) ∧
    bindPieces c pieces .empty =
      ((bindAll c pieces.flatten .start).1, (bindAll c pieces.flatten .start).2.parameters) := by
  have hpieces := bindPieces_eq pieces (isInOrder_start c).tight
  obtain ⟨horder, hnames⟩ := (isInOrder_start c).bindAll pieces.flatten
  obtain ⟨hnodup, hreserved⟩ := horder.nodup_names
  have hstart : start.parameters = Parameters.empty := rfl
  rw [hstart] at hpieces hnames
  rw [hpieces]
  exact ⟨horder.names, hnames.symm, hnodup, hreserved, rfl⟩

end EntityQuery.Binding
