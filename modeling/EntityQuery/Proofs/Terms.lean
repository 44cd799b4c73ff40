import EntityQuery.Proofs.Spelling

/-!
# Terms read off the front of a text

A term is a word, or a head with arguments in parentheses. Its words are plain when they have no
parentheses and no commas in them. Then a word ends where one of these follows, and a term is read
off the front of a longer text in one way (`Term.chars_append_inj`): by induction on the term, whose
arguments are read one behind the other up to the closing parenthesis (`Term.args_append_inj`).
-/

namespace EntityQuery

/-- A term: a word, or a head with arguments. -/
inductive Term
  | leaf (word : List Char)
  | node (head : List Char) (args : List Term)

namespace Term

/-- The text of a term. -/
def chars : Term → List Char
  | leaf word => word
  | node head args => head ++ '(' :: ([',', ' '].intercalate (charsOfAll args) ++ [')'])
where
  /-- The texts of some terms. -/
  charsOfAll : List Term → List (List Char)
    | [] => []
    | t :: ts => t.chars :: charsOfAll ts

/-- A character that does not take part in the form of a term. -/
def isPlain (c : Char) : Bool := c != '(' && c != ',' && c != ')'

/-- A word of a term: one or more plain characters. -/
def IsWord (w : List Char) : Prop := w ≠ [] ∧ ∀ c ∈ w, isPlain c = true

/-- All words of a term are plain. -/
inductive IsPlain : Term → Prop
  | leaf {word : List Char} (h : IsWord word) : IsPlain (.leaf word)
  | node {head : List Char} {args : List Term} (h : IsWord head)
      (hargs : ∀ t ∈ args, t.IsPlain) : IsPlain (.node head args)

/-- A text has ended, or goes on behind a term. -/
def Ends (rest : List Char) : Prop := ∀ c ∈ rest.head?, c = ',' ∨ c = ')'

/-- What a word is followed by is not plain. -/
def Breaks (rest : List Char) : Prop := ∀ c ∈ rest.head?, isPlain c = false

/-- A word breaks where a term ends. -/
theorem Ends.breaks {rest : List Char} (h : Ends rest) : Breaks rest := by
  intro c hc
  rcases h c hc with rfl | rfl
  all_goals rfl

/-- A word is read off the front of a text in one way. -/
theorem IsWord.append_inj {w w' rest rest' : List Char} (hw : IsWord w) (hw' : IsWord w')
    (hrest : Breaks rest) (hrest' : Breaks rest') (h : w ++ rest = w' ++ rest') :
    w = w' ∧ rest = rest' := by
  have hwords : w = w' := by
    calc w = (w ++ rest).takeWhile isPlain := (Lexeme.takeWhile_append hw.2 hrest).symm
      _ = (w' ++ rest').takeWhile isPlain := congrArg _ h
      _ = w' := Lexeme.takeWhile_append hw'.2 hrest'
  subst hwords
  exact ⟨rfl, List.append_cancel_left h⟩

/-- A term begins with a plain character. -/
theorem IsPlain.exists_cons {t : Term} (h : t.IsPlain) :
    ∃ c more, t.chars = c :: more ∧ isPlain c = true := by
  cases h with
  | leaf h =>
    obtain ⟨c, more, rfl⟩ := List.exists_cons_of_ne_nil h.1
    exact ⟨c, more, rfl, h.2 c List.mem_cons_self⟩
  | @node head args h _ =>
    obtain ⟨c, more, rfl⟩ := List.exists_cons_of_ne_nil h.1
    exact ⟨c, _, List.cons_append, h.2 c List.mem_cons_self⟩

/-- What stands behind the first argument: the others, each with a comma and a blank before it. -/
def more (ts : List Term) : List Char := ts.flatMap fun t => ',' :: ' ' :: t.chars

/-- Arguments are the first one and what stands behind it. -/
theorem intercalate_cons (t : Term) (ts : List Term) :
    [',', ' '].intercalate (chars.charsOfAll (t :: ts)) = t.chars ++ more ts := by
  induction ts generalizing t with
  | nil => simp [chars.charsOfAll, more]
  | cons u ts ih =>
    calc [',', ' '].intercalate (chars.charsOfAll (t :: u :: ts))
      _ = t.chars ++ [',', ' '] ++ [',', ' '].intercalate (chars.charsOfAll (u :: ts)) :=
        List.intercalate_cons_cons
      _ = t.chars ++ more (u :: ts) := by
        rw [ih]
        simp [more]

/-- A term ends where further arguments or the closing parenthesis follow. -/
theorem ends_more (ts : List Term) (rest : List Char) : Ends (more ts ++ ')' :: rest) := by
  intro c hc
  cases ts with
  | nil => exact .inr (Option.some.inj hc).symm
  | cons t ts => exact .inl (Option.some.inj hc).symm

/-- A term is read off the front of a text in one way. -/
def ReadsUniquely (t : Term) : Prop :=
  ∀ u : Term, u.IsPlain → ∀ rest rest' : List Char, Ends rest → Ends rest' →
    t.chars ++ rest = u.chars ++ rest' → t = u ∧ rest = rest'

/-- Further arguments are read in one way if each of them is. -/
theorem more_append_inj {ts us : List Term} {rest rest' : List Char}
    (hts : ∀ t ∈ ts, t.ReadsUniquely) (hus : ∀ u ∈ us, u.IsPlain)
    (h : more ts ++ ')' :: rest = more us ++ ')' :: rest') : ts = us ∧ rest = rest' := by
  induction ts generalizing us with
  | nil =>
    cases us with
    | nil => exact ⟨rfl, (List.cons.inj h).2⟩
    | cons u us =>
      obtain ⟨hc, -⟩ := List.cons.inj h
      cases hc
  | cons t ts ih =>
    cases us with
    | nil =>
      obtain ⟨hc, -⟩ := List.cons.inj h
      cases hc
    | cons u us =>
      obtain ⟨ht, hts'⟩ := List.forall_mem_cons.mp hts
      obtain ⟨hu, hus'⟩ := List.forall_mem_cons.mp hus
      have hfirst : t.chars ++ (more ts ++ ')' :: rest) = u.chars ++ (more us ++ ')' :: rest') := by
        simpa [more] using h
      obtain ⟨rfl, hmore⟩ := ht u hu _ _ (ends_more ts rest) (ends_more us rest') hfirst
      obtain ⟨rfl, hrest⟩ := ih hts' hus' hmore
      exact ⟨rfl, hrest⟩

/-- Arguments are read in one way if each of them is. -/
theorem args_append_inj {ts us : List Term} {rest rest' : List Char}
    (hplain : ∀ t ∈ ts, t.IsPlain) (hts : ∀ t ∈ ts, t.ReadsUniquely) (hus : ∀ u ∈ us, u.IsPlain)
    (h : [',', ' '].intercalate (chars.charsOfAll ts) ++ ')' :: rest =
      [',', ' '].intercalate (chars.charsOfAll us) ++ ')' :: rest') : ts = us ∧ rest = rest' := by
  -- An argument does not begin with a closing parenthesis.
  have hclose : ∀ {t : Term} {rest rest' : List Char}, t.IsPlain →
      t.chars ++ rest ≠ ')' :: rest' := by
    intro t rest rest' ht heq
    obtain ⟨c, more, hchars, hc⟩ := ht.exists_cons
    rw [hchars] at heq
    cases heq
    cases hc
  cases ts with
  | nil =>
    cases us with
    | nil => exact ⟨rfl, (List.cons.inj h).2⟩
    | cons u us =>
      rw [intercalate_cons, List.append_assoc] at h
      exact absurd h.symm (hclose (hus u List.mem_cons_self))
  | cons t ts =>
    cases us with
    | nil =>
      rw [intercalate_cons, List.append_assoc] at h
      exact absurd h (hclose (hplain t List.mem_cons_self))
    | cons u us =>
      rw [intercalate_cons, intercalate_cons, List.append_assoc, List.append_assoc] at h
      obtain ⟨ht, hts'⟩ := List.forall_mem_cons.mp hts
      obtain ⟨hu, hus'⟩ := List.forall_mem_cons.mp hus
      obtain ⟨rfl, hmore⟩ := ht u hu _ _ (ends_more ts rest) (ends_more us rest') h
      obtain ⟨rfl, hrest⟩ := more_append_inj hts' hus' hmore
      exact ⟨rfl, hrest⟩

/-- The text of a node is its head, a parenthesis, and its arguments up to another one. -/
theorem chars_node_append (head : List Char) (args : List Term) (rest : List Char) :
    (node head args).chars ++ rest =
      head ++ '(' :: ([',', ' '].intercalate (chars.charsOfAll args) ++ ')' :: rest) := by
  simp [chars]

/-- A term of plain words is read off the front of a text in one way: the term and what is left are
determined. -/
theorem chars_append_inj {t : Term} (h : t.IsPlain) : t.ReadsUniquely := by
  -- After its word, a leaf ends and a node goes on with a parenthesis.
  have hopen : ∀ rest, Breaks ('(' :: rest) := fun _ _ hc => Option.some.inj hc ▸ rfl
  have hnot : ∀ {rest rest' : List Char}, Ends rest → rest ≠ '(' :: rest' := by
    rintro rest rest' hrest rfl
    have hc := hrest '(' rfl
    simp at hc
  induction h with
  | @leaf word hword =>
    intro u hu rest rest' hrest hrest' heq
    cases hu with
    | leaf hword' =>
      obtain ⟨rfl, rfl⟩ := hword.append_inj hword' hrest.breaks hrest'.breaks heq
      exact ⟨rfl, rfl⟩
    | node hword' =>
      rw [chars_node_append] at heq
      obtain ⟨-, hparenthesis⟩ := hword.append_inj hword' hrest.breaks (hopen _) heq
      exact absurd hparenthesis (hnot hrest)
  | @node head args hword hplain ih =>
    intro u hu rest rest' hrest hrest' heq
    cases hu with
    | leaf hword' =>
      rw [chars_node_append] at heq
      obtain ⟨-, hparenthesis⟩ := hword.append_inj hword' (hopen _) hrest'.breaks heq
      exact absurd hparenthesis.symm (hnot hrest')
    | node hword' hplain' =>
      rw [chars_node_append, chars_node_append] at heq
      obtain ⟨rfl, hparenthesis⟩ := hword.append_inj hword' (hopen _) (hopen _) heq
      obtain ⟨rfl, rfl⟩ := args_append_inj hplain ih hplain' (List.cons.inj hparenthesis).2
      exact ⟨rfl, rfl⟩

/-- Terms of plain words are determined by their texts. -/
theorem eq_of_chars_eq {t u : Term} (ht : t.IsPlain) (hu : u.IsPlain) (h : t.chars = u.chars) :
    t = u :=
  (chars_append_inj ht u hu [] [] nofun nofun (congrArg (· ++ []) h)).1

end Term

end EntityQuery
