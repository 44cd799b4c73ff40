import EntityQuery.Filter.Lookahead
import EntityQuery.Proofs.Coverage

/-!
# Lookahead is transparent

A lexer with lookahead keeps an item back when it is looked at, so the items that are still to come
from it are those of the lexer behind, with what was looked at in front (`Lookahead.Awaits`). In
three states it is faithful to them: nothing was looked at, an item was, or the end was, and then
the lexer behind has come to its end as well. A call answers with the first item to come, and only a
call that takes something leaves less to come (`Lookahead.Awaits.call`).

So whatever the calls are, those that take something are answered by the items in order, and by
nothing once these have come to an end (`Lookahead.Awaits.taken`), and a call that looks ahead is
answered like all calls behind it up to the next one that takes something
(`Lookahead.Awaits.peeks`).
-/

namespace EntityQuery

namespace Lookahead

/-! ## Calls -/

/-- What can be asked of a lexer with lookahead. -/
inductive Call
  | peek
  | next
  | iterate
deriving DecidableEq

/-- Whether a call takes what it answers. -/
def Call.takes : Call → Bool
  | peek => false
  | next | iterate => true

/-- The answer to a call, and the lexer after it. -/
def call (l : Lookahead) : Call → Option Lexer.Item × Lookahead
  | .peek => l.peek
  | .next => l.next
  | .iterate => l.iterate

/-- The answers to some calls, one after the other. -/
def answers (l : Lookahead) : List Call → List (Option Lexer.Item)
  | [] => []
  | c :: cs => (l.call c).1 :: answers (l.call c).2 cs

/-- The lexer after some calls. -/
def after (l : Lookahead) : List Call → Lookahead
  | [] => l
  | c :: cs => after (l.call c).2 cs

/-- The answers to those calls that take something. -/
def taken (l : Lookahead) (calls : List Call) : List (Option Lexer.Item) :=
  ((calls.zip (l.answers calls)).filter fun answer => answer.1.takes).map fun answer => answer.2

variable {l : Lookahead} {c : Call} {calls : List Call}

/-- Every call is answered. -/
theorem length_answers (l : Lookahead) (calls : List Call) :
    (l.answers calls).length = calls.length := by
  induction calls generalizing l with
  | nil => rfl
  | cons c calls ih => exact congrArg (· + 1) (ih (l.call c).2)

/-- Later calls are asked of the lexer after the earlier ones. -/
theorem answers_append (l : Lookahead) (before calls : List Call) :
    l.answers (before ++ calls) = l.answers before ++ (l.after before).answers calls := by
  induction before generalizing l with
  | nil => rfl
  | cons c before ih => exact congrArg _ (ih (l.call c).2)

/-- A call that takes nothing adds nothing to what is taken. -/
theorem taken_cons_of_not_takes (h : c.takes = false) :
    l.taken (c :: calls) = (l.call c).2.taken calls := by
  simp [taken, answers, h]

/-- What a call takes comes before what the later calls take. -/
theorem taken_cons_of_takes (h : c.takes = true) :
    l.taken (c :: calls) = (l.call c).1 :: (l.call c).2.taken calls := by
  simp [taken, answers, h]

/-- Without calls that look ahead, everything is taken. -/
theorem taken_eq_answers (l : Lookahead) (h : ∀ c ∈ calls, c.takes = true) :
    l.taken calls = l.answers calls := by
  induction calls generalizing l with
  | nil => rfl
  | cons c calls ih =>
    obtain ⟨hc, hcalls⟩ := List.forall_mem_cons.mp h
    rw [taken_cons_of_takes hc, ih _ hcalls]
    rfl

/-! ## Items to come -/

/-- The items that are still to come from a lexer with lookahead. -/
inductive Awaits : Lookahead → List Lexer.Item → Prop
  /-- Nothing was looked at: they are those of the lexer behind. -/
  | unseen (lexer : Lexer) : Awaits ⟨lexer, none⟩ (lexer.rest.map Lexeme.token)
  /-- An item was looked at: it comes before those of the lexer behind. -/
  | item (lexer : Lexer) (item : Lexer.Item) :
      Awaits ⟨lexer, some (some item)⟩ (item :: lexer.rest.map Lexeme.token)
  /-- The end was looked at: the lexer behind has no items either. -/
  | ended (lexer : Lexer) (h : lexer.rest = []) : Awaits ⟨lexer, some none⟩ []

/-- From the start of a text its lexemes are to come. -/
theorem awaits_ofSource (source : String) :
    (ofSource source).Awaits ((Lexeme.all source).map Lexeme.token) :=
  .unseen (Lexer.ofSource source)

variable {items : List Lexer.Item}

namespace Awaits

/-- A look ahead shows the first item to come, and leaves all of them to come. -/
theorem peek (h : l.Awaits items) : l.peek.1 = items.head? ∧ l.peek.2.Awaits items := by
  cases h with
  | unseen lexer =>
    obtain ⟨source, rest⟩ := lexer
    cases rest with
    | nil => exact ⟨rfl, .ended ⟨source, []⟩ rfl⟩
    | cons first rest => exact ⟨rfl, .item ⟨source, rest⟩ first.token⟩
  | item lexer item => exact ⟨rfl, .item lexer item⟩
  | ended lexer hrest => exact ⟨rfl, .ended lexer hrest⟩

/-- The first item to come is taken, and the others are left to come. At the end nothing is taken,
and the end is left. -/
theorem next (h : l.Awaits items) : l.next.1 = items.head? ∧ l.next.2.Awaits items.tail := by
  cases h with
  | unseen lexer =>
    obtain ⟨source, rest⟩ := lexer
    cases rest with
    | nil => exact ⟨rfl, .unseen ⟨source, []⟩⟩
    | cons first rest => exact ⟨rfl, .unseen ⟨source, rest⟩⟩
  | item lexer item => exact ⟨rfl, .unseen lexer⟩
  | ended lexer hrest =>
    obtain ⟨source, rest⟩ := lexer
    cases hrest
    exact ⟨rfl, .unseen ⟨source, []⟩⟩

/-- Every call is answered by the first item to come, and takes it or leaves it. -/
theorem call (h : l.Awaits items) (c : Call) :
    (l.call c).1 = items.head? ∧
      (l.call c).2.Awaits (if c.takes then items.tail else items) := by
  cases c with
  | peek => exact h.peek
  | next | iterate => exact h.next

/-- After any calls there are again some items to come. -/
theorem after (h : l.Awaits items) (calls : List Call) :
    ∃ items', (l.after calls).Awaits items' := by
  induction calls generalizing l items with
  | nil => exact ⟨items, h⟩
  | cons c calls ih => exact ih (h.call c).2

/-- The calls that take something are answered by the items in order, and then by the end. -/
theorem taken (h : l.Awaits items) (calls : List Call) :
    let n := calls.countP Call.takes
    l.taken calls = (items.take n).map some ++ List.replicate (n - items.length) none := by
  induction calls generalizing l items with
  | nil => simp [Lookahead.taken]
  | cons c calls ih =>
    obtain ⟨hanswer, hmore⟩ := h.call c
    have hrest := ih hmore
    dsimp only at hrest ⊢
    cases hc : c.takes with
    | false =>
      rw [hc] at hrest
      rw [taken_cons_of_not_takes hc, hrest, List.countP_cons_of_neg (by simp [hc])]
      rfl
    | true =>
      rw [hc] at hrest
      rw [taken_cons_of_takes hc, hanswer, hrest, List.countP_cons_of_pos hc]
      -- At the end the tail is as empty as the items are, so one more end is answered.
      cases items with
      | nil => simp [List.replicate_succ]
      | cons first items => simp

/-- Calls that look ahead, and the one behind them whatever it is, have the same answer. -/
theorem peeks (h : l.Awaits items) {peeks : List Call} (hpeeks : ∀ p ∈ peeks, p = .peek) (c : Call)
    (calls : List Call) :
    (l.answers (peeks ++ c :: calls)).take (peeks.length + 1) =
      List.replicate (peeks.length + 1) items.head? := by
  induction peeks generalizing l with
  | nil =>
    have hanswer := (h.call c).1
    exact congrArg (fun answer => [answer]) hanswer
  | cons p peeks ih =>
    obtain ⟨rfl, hmore⟩ := List.forall_mem_cons.mp hpeeks
    obtain ⟨hanswer, hleft⟩ := h.peek
    have hrest := ih hleft hmore
    rw [List.length_cons, List.replicate_succ, ← hrest, ← hanswer]
    rfl

end Awaits

/-- Looking ahead changes nothing but what is seen early. A lexer that is asked only to take returns
the tokens and the errors of the text in order, as many as it is asked for, and then the end as
often as it is asked. However calls that look ahead are mixed in, the calls that take something have
the same answers. Calls that look ahead, however often, are answered like the call behind them, by a
token, by an error or by the end. -/
theorem lookahead_transparent (source : String) (calls : List Call) :
    let l := ofSource source
    l.taken calls = l.answers (calls.filter Call.takes) ∧
    (∃ items, (Lexer.ofSource source).Drains items ∧
      let n := calls.countP Call.takes
      l.answers (calls.filter Call.takes) =
        (items.take n).map some ++ List.replicate (n - items.length) none) ∧
    ∀ before peeks c later, calls = before ++ (peeks ++ c :: later) → (∀ p ∈ peeks, p = .peek) →
      ∃ item?, (l.answers calls)[before.length + peeks.length]? = some item? ∧
        ((l.answers calls).drop before.length).take peeks.length =
          List.replicate peeks.length item? := by
  intro l
  have hstart := awaits_ofSource source
  have htakes : ∀ c ∈ calls.filter Call.takes, c.takes = true := fun c hc =>
    List.of_mem_filter hc
  have hcount : (calls.filter Call.takes).countP Call.takes = calls.countP Call.takes := by
    rw [List.countP_eq_length_filter, List.countP_eq_length_filter, List.filter_filter]
    simp
  -- What is taken depends on the items to come and on how many calls take something.
  have hwithout := hstart.taken (calls.filter Call.takes)
  rw [taken_eq_answers _ htakes, hcount] at hwithout
  refine ⟨(hstart.taken calls).trans hwithout.symm, ⟨_, Lexer.drains_iff.mpr rfl, hwithout⟩, ?_⟩
  rintro before peeks c later rfl hpeeks
  obtain ⟨items, hitems⟩ := hstart.after before
  have hsame := hitems.peeks hpeeks c later
  have hbefore := length_answers l before
  refine ⟨items.head?, ?_, ?_⟩
  · rw [answers_append, List.getElem?_append_right (by omega), hbefore, Nat.add_sub_cancel_left]
    have hat := congrArg (fun answers => answers[peeks.length]?) hsame
    simpa using hat
  · rw [answers_append, ← hbefore, List.drop_left]
    have hpart := congrArg (List.take peeks.length) hsame
    simpa [List.take_take] using hpart

/-- Calls that look at a name, at a piece that is no token and at the end of a text, the first and
the last of them twice. -/
def doubled : List Call := [.peek, .peek, .next, .peek, .iterate, .peek, .peek, .next]

/-- A name and a piece that is no token are taken as if nobody had looked at them, and the end is
seen by both calls that look at it and by the one that takes it. -/
theorem doubled_transparent :
    let l := ofSource "a="
    l.taken doubled = l.answers [.next, .iterate, .next] ∧
      (l.answers doubled).map (Option.map Lexer.spanOf) =
        [some ⟨0, 1⟩, some ⟨0, 1⟩, some ⟨0, 1⟩, some ⟨1, 2⟩, some ⟨1, 2⟩, none, none, none] ∧
      doubled = [.peek, .peek, .next, .peek, .iterate] ++ ([.peek, .peek] ++ [.next]) ∧
      (∀ p ∈ [Call.peek, .peek], p = .peek) ∧
      ∃ item?, (l.answers doubled)[7]? = some item? ∧
        ((l.answers doubled).drop 5).take 2 = [item?, item?] := by
  obtain ⟨htaken, -, hpeeks⟩ := lookahead_transparent "a=" doubled
  have hcalls : doubled = [.peek, .peek, .next, .peek, .iterate] ++ ([.peek, .peek] ++ [.next]) :=
    rfl
  have hlook : ∀ p ∈ [Call.peek, .peek], p = .peek := by simp
  exact ⟨htaken, by decide +kernel, hcalls, hlook, hpeeks _ _ _ _ hcalls hlook⟩

end Lookahead

end EntityQuery
