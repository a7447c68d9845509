/-
  Storyboard.Proofs.Parse.Reading

  What a run of a parser does to what is left to read, and the rules to work it
  out from the parts of the parser.

  `Cursor.Passes c w d` says that the items `w` stand between two cursors and
  that none of them is an end of input. `Reads p R` says that every run of `p`,
  whether it succeeds or fails, only moves forward over such items and only adds
  errors; that a success satisfies `R`, a relation between the items passed, the
  item reached, the errors added and the result; and that a failure is explained
  by the token at which it happened. All of it is for cursors whose last item is
  an end of input, as the cursor of every token list is.

  There is one rule for each way to put parsers together, so the parsers of the
  grammar are never run in a proof: `bind`, `peek_bind`, `advance_bind`,
  `expect_bind`, `accept_bind` and `many`.
-/
import Storyboard.Parse.Stmt

namespace Storyboard.Parse

-- ============================================================================
-- Cursors
-- ============================================================================

namespace Cursor

/-- The last of all items is an end of input. -/
def Closed (c : Cursor) : Prop :=
  ∃ last, c.items.getLast? = some last ∧ last.token.kind = .endOfInput

/-- The items between two cursors, none of which is an end of input. -/
structure Passes (c : Cursor) (w : List Item) (d : Cursor) : Prop where
  items_eq : c.items = w ++ d.items
  index_eq : d.index = c.index + w.length
  inside : ∀ item ∈ w, item.token.kind ≠ .endOfInput

/-- Staying in place passes nothing. -/
theorem Passes.refl (c : Cursor) : c.Passes [] c :=
  ⟨rfl, rfl, by simp⟩

/-- Two moves one after the other. -/
theorem Passes.trans {c d e : Cursor} {w₁ w₂ : List Item} (h₁ : c.Passes w₁ d)
    (h₂ : d.Passes w₂ e) : c.Passes (w₁ ++ w₂) e := by
  refine ⟨?_, ?_, ?_⟩
  · rw [h₁.items_eq, h₂.items_eq, List.append_assoc]
  · rw [h₂.index_eq, h₁.index_eq, List.length_append, Nat.add_assoc]
  · intro item hitem
    rcases List.mem_append.mp hitem with h | h
    · exact h₁.inside item h
    · exact h₂.inside item h

/-- The item at which a move begins is the first passed or, if none is passed, the one reached. -/
theorem Passes.headD_eq {c d : Cursor} {w : List Item} (h : c.Passes w d) :
    w.headD d.current = c.current := by
  have hitems := h.items_eq
  cases w with
  | nil =>
    simp only [items, List.nil_append, List.cons.injEq] at hitems
    exact hitems.1.symm
  | cons item w =>
    simp only [items, List.cons_append, List.cons.injEq] at hitems
    exact hitems.1.symm

/-- A cursor is closed if it is reached from a closed one. -/
theorem Passes.closed {c d : Cursor} {w : List Item} (h : c.Passes w d) (hc : c.Closed) :
    d.Closed := by
  obtain ⟨last, hlast, hend⟩ := hc
  refine ⟨last, ?_, hend⟩
  rw [h.items_eq, List.getLast?_append] at hlast
  simpa [items, List.getLast?_cons] using hlast

/-- Passing something leaves less to read. -/
theorem Passes.remaining_lt {c d : Cursor} {w : List Item} (h : c.Passes w d) (hw : w ≠ []) :
    d.remaining < c.remaining := by
  have hlen := congrArg List.length h.items_eq
  have hpos := List.length_pos_iff.mpr hw
  simp only [items, List.length_cons, List.length_append] at hlen
  simp only [remaining]
  omega

/-- A cursor that has not moved has passed nothing. -/
theorem Passes.eq_nil {c d : Cursor} {w : List Item} (h : c.Passes w d)
    (hindex : d.index = c.index) : w = [] := by
  have hlen := h.index_eq
  exact List.length_eq_zero_iff.mp (by omega)

/-- Moving on from an item that is not the end of input passes just that item. -/
theorem Closed.passes_advance {c : Cursor} (hc : c.Closed) (hkind : c.kind ≠ .endOfInput) :
    c.Passes [c.current] c.advance := by
  obtain ⟨current, upcoming, index⟩ := c
  cases upcoming with
  | nil =>
    obtain ⟨last, hlast, hend⟩ := hc
    have hcurrent : current = last := by simpa [items] using hlast
    exact absurd (hcurrent ▸ hend) hkind
  | cons item upcoming =>
    refine ⟨rfl, rfl, ?_⟩
    intro passed hpassed
    rw [List.mem_singleton.mp hpassed]
    exact hkind

/-- Seeking passes no end of input if it stops at one. -/
theorem Closed.passes_seek {c : Cursor} {stops : Item → Bool}
    (hstops : ∀ item, item.token.kind = .endOfInput → stops item = true) :
    ∃ w, c.Passes w (c.seek stops) := by
  obtain ⟨current, upcoming, index⟩ := c
  simp only [seek]
  induction upcoming generalizing current index with
  | nil => exact ⟨[], Passes.refl _⟩
  | cons item upcoming ih =>
    unfold seekFrom
    split
    · exact ⟨[], Passes.refl _⟩
    · rename_i hgo
      obtain ⟨w, hw⟩ := ih item (index + 1)
      have hstep : (Cursor.mk current (item :: upcoming) index).Passes [current]
          ⟨item, upcoming, index + 1⟩ := by
        refine ⟨rfl, rfl, ?_⟩
        intro passed hpassed hend
        rw [List.mem_singleton.mp hpassed] at hend
        exact hgo (hstops current hend)
      exact ⟨[current] ++ w, hstep.trans hw⟩

/-- What `closeAfter` leaves behind an item ends with an end of input. -/
theorem closed_closeAfter (item : Item) (others : List Item) (index : Nat) :
    (Cursor.mk item (closeAfter item others) index).Closed := by
  induction others generalizing item index with
  | nil =>
    unfold closeAfter
    split
    · rename_i hend
      exact ⟨item, rfl, hend⟩
    · exact ⟨endItem item.token.location, rfl, rfl⟩
  | cons next others ih =>
    obtain ⟨last, hlast, hend⟩ := ih next 0
    refine ⟨last, ?_, hend⟩
    simp only [items, closeAfter, List.getLast?_cons_cons] at hlast ⊢
    exact hlast

/-- The cursor of a list of tokens is closed. -/
theorem closed_ofTokens (tokens : List Token) : (ofTokens tokens).Closed := by
  unfold ofTokens ofItems
  split
  · exact ⟨endItem .start, rfl, rfl⟩
  · exact closed_closeAfter _ _ _

/-- The cursor of a list of tokens begins at its first item. -/
theorem index_ofTokens (tokens : List Token) : (ofTokens tokens).index = 0 := by
  unfold ofTokens ofItems
  split <;> rfl

end Cursor

-- ============================================================================
-- Reading
-- ============================================================================

/-- A relation between the items passed, the item reached, the errors added and a result. -/
abbrev Post (α : Type) := List Item → Item → List SyntaxError → α → Prop

/-- A failure at a cursor behind the given items: a problem at the place of the current token, or
    a number token among the items that holds no number. -/
inductive Failure.Explained (w : List Item) (c : Cursor) : Failure → Prop where
  | rejected (problem : SyntaxProblem) : Explained w c (.rejected ⟨problem, c.location⟩)
  | notNumber {item : Item} : item ∈ w → item.token.kind = .number →
      Numeral.read? item.token.text = none → Explained w c (.notNumber item.token.text)

/-- A failure behind some items is one behind more items. -/
theorem Failure.Explained.append_left {w : List Item} {c : Cursor} {f : Failure}
    (before : List Item) (h : f.Explained w c) : f.Explained (before ++ w) c := by
  cases h with
  | rejected problem => exact .rejected problem
  | notNumber hmem hkind hread => exact .notNumber (List.mem_append_right before hmem) hkind hread

/-- The judgement `Reads` for the runs that begin at a given item. -/
structure ReadsAt {α : Type} (start : Item) (p : Parser α) (R : Post α) : Prop where
  ok : ∀ {s t : State} {a : α}, s.cursor.Closed → s.cursor.current = start → p s = .ok a t →
    ∃ w new, s.cursor.Passes w t.cursor ∧ t.errors = s.errors ++ new ∧
      R w t.cursor.current new a
  error : ∀ {s t : State} {f : Failure}, s.cursor.Closed → s.cursor.current = start →
    p s = .error f t →
    ∃ w new, s.cursor.Passes w t.cursor ∧ t.errors = s.errors ++ new ∧ f.Explained w t.cursor

/-- Every run only moves forward and only adds errors, a success satisfies `R`, and a failure is
    explained by the tokens. -/
def Reads {α : Type} (p : Parser α) (R : Post α) : Prop := ∀ start, ReadsAt start p R

/-- The relation of a parser that adds no errors. -/
def quietly {α : Type} (G : List Item → α → Prop) : Post α := fun w _ new a => new = [] ∧ G w a

section Rules

variable {α β : Type} {start : Item}

/-- A weaker relation, which may use the item at which the run begins. -/
theorem ReadsAt.weaken {p : Parser α} {R Q : Post α} (h : ReadsAt start p R)
    (hRQ : ∀ {w next new a}, w.headD next = start → R w next new a → Q w next new a) :
    ReadsAt start p Q := by
  refine ⟨?_, h.error⟩
  intro s t a hc hstart hrun
  obtain ⟨w, new, hpass, herr, hR⟩ := h.ok hc hstart hrun
  exact ⟨w, new, hpass, herr, hRQ (hpass.headD_eq.trans hstart) hR⟩

/-- A weaker relation. -/
theorem Reads.weaken {p : Parser α} {R Q : Post α} (h : Reads p R)
    (hRQ : ∀ {w next new a}, R w next new a → Q w next new a) : Reads p Q :=
  fun start => (h start).weaken fun _ => hRQ

/-- A parser that gives a value reads nothing. -/
theorem ReadsAt.pure (a : α) :
    ReadsAt start (pure a : Parser α) fun w next new b =>
      w = [] ∧ next = start ∧ new = [] ∧ b = a := by
  constructor
  · intro s t b _ hstart hrun
    cases hrun
    exact ⟨[], [], .refl _, (List.append_nil _).symm, rfl, hstart, rfl, rfl⟩
  · intro s t f _ _ hrun
    cases hrun

/-- A parser that gives a value reads nothing, wherever it begins. -/
theorem Reads.pure (a : α) :
    Reads (pure a : Parser α) fun w _ new b => w = [] ∧ new = [] ∧ b = a :=
  fun _ => (ReadsAt.pure a).weaken fun _ ⟨hw, _, hnew, hb⟩ => ⟨hw, hnew, hb⟩

/-- Rejecting the current token reads nothing and never succeeds. -/
theorem Reads.reject (problem : SyntaxProblem) (R : Post α) :
    Reads (reject problem : Parser α) R := by
  intro start
  constructor
  · intro s t a _ _ hrun
    cases hrun
  · intro s t f _ _ hrun
    cases hrun
    exact ⟨[], [], .refl _, (List.append_nil _).symm, .rejected problem⟩

/-- A token that cannot begin anything is rejected. -/
theorem Reads.unexpected (R : Post α) : Reads (unexpected : Parser α) R := by
  intro start
  constructor
  · intro s t a _ _ hrun
    cases hrun
  · intro s t f hc hs hrun
    exact (Reads.reject (.ofToken s.cursor.current.token) R start).error hc hs hrun

/-- A parser that reads if what it looks at first is known. -/
theorem Reads.peek_bind {f : Item → Parser β} {R : Post β}
    (hf : ∀ item, ReadsAt item (f item) R) : Reads (peek >>= f) R := by
  intro start
  constructor
  · intro s t b hc hstart hrun
    exact (hf s.cursor.current).ok hc rfl hrun
  · intro s t failure hc hstart hrun
    exact (hf s.cursor.current).error hc rfl hrun

/-- What a bind does that succeeds: both of its parts succeed. -/
theorem bind_eq_ok {p : Parser α} {f : α → Parser β} {s u : State} {b : β}
    (h : (p >>= f) s = .ok b u) : ∃ a t, p s = .ok a t ∧ f a t = .ok b u := by
  change EStateM.bind p f s = _ at h
  unfold EStateM.bind at h
  split at h
  · rename_i a t hp
    exact ⟨a, t, hp, h⟩
  · cases h

/-- What a bind does that fails: its first part fails, or its second does after it. -/
theorem bind_eq_error {p : Parser α} {f : α → Parser β} {s u : State} {failure : Failure}
    (h : (p >>= f) s = .error failure u) :
    p s = .error failure u ∨ ∃ a t, p s = .ok a t ∧ f a t = .error failure u := by
  change EStateM.bind p f s = _ at h
  unfold EStateM.bind at h
  split at h
  · rename_i a t hp
    exact .inr ⟨a, t, hp, h⟩
  · rename_i failure' t hp
    cases h
    exact .inl hp

/-- A bind whose first part succeeds goes on as its second part. -/
theorem bind_of_ok {p : Parser α} {f : α → Parser β} {s t : State} {a : α} (h : p s = .ok a t) :
    (p >>= f) s = f a t := by
  change EStateM.bind p f s = _
  rw [EStateM.bind, h]

/-- A bind whose first part fails fails with it. -/
theorem bind_of_error {p : Parser α} {f : α → Parser β} {s t : State} {failure : Failure}
    (h : p s = .error failure t) : (p >>= f) s = .error failure t := by
  change EStateM.bind p f s = _
  rw [EStateM.bind, h]

/-- Two parsers one after the other: what they pass and the errors they add are put together, and
    the first reaches what the second begins with. -/
theorem ReadsAt.bind {p : Parser α} {f : α → Parser β} {R : Post α} {Q : α → Post β}
    (hp : ReadsAt start p R) (hf : ∀ a, Reads (f a) (Q a)) :
    ReadsAt start (p >>= f) fun w next new b => ∃ w₁ w₂ new₁ new₂ a,
      w = w₁ ++ w₂ ∧ new = new₁ ++ new₂ ∧ R w₁ (w₂.headD next) new₁ a ∧ Q a w₂ next new₂ b := by
  constructor
  · intro s u b hc hstart hrun
    obtain ⟨a, t, hrun₁, hrun₂⟩ := bind_eq_ok hrun
    obtain ⟨w₁, new₁, hpass₁, herr₁, hR⟩ := hp.ok hc hstart hrun₁
    obtain ⟨w₂, new₂, hpass₂, herr₂, hQ⟩ := (hf a _).ok (hpass₁.closed hc) rfl hrun₂
    refine ⟨w₁ ++ w₂, new₁ ++ new₂, hpass₁.trans hpass₂, ?_, ?_⟩
    · rw [herr₂, herr₁, List.append_assoc]
    · rw [← hpass₂.headD_eq] at hR
      exact ⟨w₁, w₂, new₁, new₂, a, rfl, rfl, hR, hQ⟩
  · intro s u failure hc hstart hrun
    rcases bind_eq_error hrun with hrun₁ | ⟨a, t, hrun₁, hrun₂⟩
    · exact hp.error hc hstart hrun₁
    · obtain ⟨w₁, new₁, hpass₁, herr₁, _⟩ := hp.ok hc hstart hrun₁
      obtain ⟨w₂, new₂, hpass₂, herr₂, hwhy⟩ := (hf a _).error (hpass₁.closed hc) rfl hrun₂
      refine ⟨w₁ ++ w₂, new₁ ++ new₂, hpass₁.trans hpass₂, ?_, hwhy.append_left w₁⟩
      rw [herr₂, herr₁, List.append_assoc]

/-- `ReadsAt.bind` for a first parser that adds no errors. -/
theorem ReadsAt.bind_quiet {p : Parser α} {f : α → Parser β} {G : List Item → α → Prop}
    {Q : α → Post β} (hp : ReadsAt start p (quietly G)) (hf : ∀ a, Reads (f a) (Q a)) :
    ReadsAt start (p >>= f) fun w next new b => ∃ w₁ w₂ a,
      w = w₁ ++ w₂ ∧ G w₁ a ∧ Q a w₂ next new b := by
  refine (hp.bind hf).weaken ?_
  rintro w next new b - ⟨w₁, w₂, new₁, new₂, a, hw, hnew, ⟨hquiet, hG⟩, hQ⟩
  rw [hquiet, List.nil_append] at hnew
  exact ⟨w₁, w₂, a, hw, hG, hnew ▸ hQ⟩

/-- `ReadsAt.bind_quiet` wherever the run begins. -/
theorem Reads.bind_quiet {p : Parser α} {f : α → Parser β} {G : List Item → α → Prop}
    {Q : α → Post β} (hp : Reads p (quietly G)) (hf : ∀ a, Reads (f a) (Q a)) :
    Reads (p >>= f) fun w next new b => ∃ w₁ w₂ a, w = w₁ ++ w₂ ∧ G w₁ a ∧ Q a w₂ next new b :=
  fun start => (hp start).bind_quiet hf

/-- `ReadsAt.bind` wherever the run begins. -/
theorem Reads.bind {p : Parser α} {f : α → Parser β} {R : Post α} {Q : α → Post β}
    (hp : Reads p R) (hf : ∀ a, Reads (f a) (Q a)) :
    Reads (p >>= f) fun w next new b => ∃ w₁ w₂ new₁ new₂ a,
      w = w₁ ++ w₂ ∧ new = new₁ ++ new₂ ∧ R w₁ (w₂.headD next) new₁ a ∧ Q a w₂ next new₂ b :=
  fun start => (hp start).bind hf

/-- Moving past an item that is not the end of input passes it. -/
theorem ReadsAt.advance (hstart : start.token.kind ≠ .endOfInput) :
    ReadsAt start advance (quietly fun w token => w = [start] ∧ token = start.token) := by
  constructor
  · intro s t token hc hs hrun
    cases hrun
    have hpass := hc.passes_advance (by rw [Cursor.kind, hs]; exact hstart)
    rw [hs] at hpass
    exact ⟨[start], [], hpass, (List.append_nil _).symm, rfl, rfl, congrArg Item.token hs⟩
  · intro s t f _ _ hrun
    cases hrun

/-- Moving past an item that is not the end of input, and then more. -/
theorem ReadsAt.advance_bind {f : Token → Parser β} {Q : Post β}
    (hstart : start.token.kind ≠ .endOfInput) (hf : Reads (f start.token) Q) :
    ReadsAt start (Parse.advance >>= f) fun w next new b =>
      ∃ w', w = start :: w' ∧ Q w' next new b := by
  constructor
  · intro s u b hc hs hrun
    obtain ⟨token, t, hrun₁, hrun₂⟩ := bind_eq_ok hrun
    obtain ⟨w₁, new₁, hpass₁, herr₁, rfl, rfl, rfl⟩ := (ReadsAt.advance hstart).ok hc hs hrun₁
    obtain ⟨w₂, new₂, hpass₂, herr₂, hQ⟩ := (hf _).ok (hpass₁.closed hc) rfl hrun₂
    refine ⟨start :: w₂, new₂, hpass₁.trans hpass₂, ?_, w₂, rfl, hQ⟩
    rw [herr₂, herr₁, List.append_nil]
  · intro s u failure hc hs hrun
    rcases bind_eq_error hrun with hrun₁ | ⟨token, t, hrun₁, hrun₂⟩
    · exact (ReadsAt.advance hstart).error hc hs hrun₁
    · obtain ⟨w₁, new₁, hpass₁, herr₁, rfl, rfl, rfl⟩ := (ReadsAt.advance hstart).ok hc hs hrun₁
      obtain ⟨w₂, new₂, hpass₂, herr₂, hwhy⟩ := (hf _).error (hpass₁.closed hc) rfl hrun₂
      refine ⟨start :: w₂, new₂, hpass₁.trans hpass₂, ?_, hwhy.append_left [start]⟩
      rw [herr₂, herr₁, List.append_nil]

/-- A token of a kind that has to come next. -/
theorem Reads.expect {kind : Kind} (hkind : kind ≠ .endOfInput) (text : String)
    (hint : Option String) :
    Reads (expect kind text hint)
      (quietly fun w token => ∃ item, w = [item] ∧ item.token.kind = kind ∧ token = item.token) := by
  intro start
  constructor
  · intro s t token hc hs hrun
    unfold Parse.expect at hrun
    split at hrun
    · rename_i hs'
      have hne : start.token.kind ≠ .endOfInput := by
        rw [← hs]
        exact fun h => hkind (hs' ▸ h)
      obtain ⟨w, new, hpass, herr, hnew, hw, htoken⟩ := (ReadsAt.advance hne).ok hc hs hrun
      refine ⟨w, new, hpass, herr, hnew, start, hw, ?_, htoken⟩
      rw [← hs]
      exact hs'
    · cases hrun
  · intro s t f hc hs hrun
    unfold Parse.expect at hrun
    split at hrun
    · cases hrun
    · exact (Reads.reject (.missing text hint) fun _ _ _ _ => True) start |>.error hc hs hrun

/-- A token of a kind that has to come next, and then more. -/
theorem Reads.expect_bind {kind : Kind} (hkind : kind ≠ .endOfInput) {text : String}
    {hint : Option String} {f : Token → Parser β} {Q : Token → Post β}
    (hf : ∀ token, Reads (f token) (Q token)) :
    Reads (Parse.expect kind text hint >>= f) fun w next new b =>
      ∃ item w', w = item :: w' ∧ item.token.kind = kind ∧ Q item.token w' next new b := by
  refine ((Reads.expect hkind text hint).bind_quiet hf).weaken ?_
  rintro w next new b ⟨w₁, w₂, token, rfl, ⟨item, rfl, hitem, rfl⟩, hQ⟩
  exact ⟨item, w₂, rfl, hitem, hQ⟩

/-- A token that may come next: it is passed if it is wanted, and else stays. -/
theorem Reads.accept {wanted : Kind → Bool} (hwanted : wanted .endOfInput = false) :
    Reads (accept wanted) fun w next new found =>
      new = [] ∧ match found with
        | some token => ∃ item, w = [item] ∧ wanted item.token.kind = true ∧ token = item.token
        | none => w = [] ∧ wanted next.token.kind = false := by
  intro start
  constructor
  · intro s t found hc hs hrun
    unfold Parse.accept at hrun
    split at hrun
    · rename_i hs'
      have hne : start.token.kind ≠ .endOfInput := by
        intro hend
        have hkind : s.cursor.kind = .endOfInput := (congrArg (·.token.kind) hs).trans hend
        exact Bool.false_ne_true (hwanted.symm.trans (hkind ▸ hs'))
      cases hrun
      obtain ⟨w, new, hpass, herr, hnew, hw, _⟩ := (ReadsAt.advance hne).ok hc hs rfl
      refine ⟨w, new, hpass, herr, hnew, start, hw, ?_, congrArg Item.token hs⟩
      rw [← hs]
      exact hs'
    · rename_i hs'
      cases hrun
      exact ⟨[], [], .refl _, (List.append_nil _).symm, rfl, rfl, Bool.eq_false_iff.mpr hs'⟩
  · intro s t f _ _ hrun
    unfold Parse.accept at hrun
    split at hrun <;> cases hrun

/-- A token that may come next, and then one parser or another. -/
theorem Reads.accept_bind {wanted : Kind → Bool} {f : Option Token → Parser β}
    {Q : Token → Post β} {Q' : Post β} (hwanted : wanted .endOfInput = false)
    (hsome : ∀ token, Reads (f (some token)) (Q token)) (hnone : Reads (f none) Q') :
    Reads (Parse.accept wanted >>= f) fun w next new b =>
      (∃ item w', w = item :: w' ∧ wanted item.token.kind = true ∧ Q item.token w' next new b) ∨
        wanted (w.headD next).token.kind = false ∧ Q' w next new b := by
  have hf : ∀ found, Reads (f found) (match found with | some token => Q token | none => Q') := by
    intro found
    cases found with
    | none => exact hnone
    | some token => exact hsome token
  refine ((Reads.accept hwanted).bind hf).weaken ?_
  rintro w next new b ⟨w₁, w₂, new₁, new₂, found, rfl, rfl, ⟨rfl, hfound⟩, hQ⟩
  cases found with
  | none =>
    obtain ⟨rfl, hno⟩ := hfound
    exact .inr ⟨hno, hQ⟩
  | some token =>
    obtain ⟨item, rfl, hitem, rfl⟩ := hfound
    exact .inl ⟨item, w₂, rfl, hitem, hQ⟩

/-- The relation of a repetition: results of its parser one after the other, and nothing at the
    end. -/
inductive Repeats (R : Post (Option α)) : Post (List α) where
  | stop {w : List Item} {next : Item} {new : List SyntaxError} :
      R w next new none → Repeats R w next new []
  | step {w₁ w₂ : List Item} {next : Item} {new₁ new₂ : List SyntaxError} {a : α} {as : List α} :
      R w₁ (w₂.headD next) new₁ (some a) → Repeats R w₂ next new₂ as →
      Repeats R (w₁ ++ w₂) next (new₁ ++ new₂) (a :: as)

/-- A repetition of a parser that passes something whenever it gives a result. -/
theorem Reads.many {item : Parser (Option α)} {R : Post (Option α)} (h : Reads item R)
    (hprogress : ∀ {w next new a}, R w next new (some a) → w ≠ []) :
    Reads (many item) (Repeats R) := by
  intro start
  constructor
  · intro s u as hc hstart hrun
    clear hstart
    fun_induction Parse.many item s generalizing as u with
    | case1 s failure t hitem => cases hrun
    | case2 s t hitem =>
      cases hrun
      obtain ⟨w, new, hpass, herr, hR⟩ := (h _).ok hc rfl hitem
      exact ⟨w, new, hpass, herr, .stop hR⟩
    | case3 s a t hitem hlt as' u' hmany ih =>
      cases hrun
      obtain ⟨w₁, new₁, hpass₁, herr₁, hR⟩ := (h _).ok hc rfl hitem
      obtain ⟨w₂, new₂, hpass₂, herr₂, hRs⟩ := ih (hpass₁.closed hc) hmany
      refine ⟨w₁ ++ w₂, new₁ ++ new₂, hpass₁.trans hpass₂, ?_, ?_⟩
      · rw [herr₂, herr₁, List.append_assoc]
      · rw [← hpass₂.headD_eq] at hR
        exact .step hR hRs
    | case4 s a t hitem hlt failure u' hmany ih => cases hrun
    | case5 s a t hitem hge =>
      -- The parser gave a result, so it passed something, and less is left than before.
      obtain ⟨w, new, hpass, _, hR⟩ := (h _).ok hc rfl hitem
      exact absurd (hpass.remaining_lt (hprogress hR)) hge
  · intro s u failure hc hstart hrun
    clear hstart
    fun_induction Parse.many item s generalizing u with
    | case1 s failure' t hitem =>
      cases hrun
      exact (h _).error hc rfl hitem
    | case2 s t hitem => cases hrun
    | case3 s a t hitem hlt as' u' hmany ih => cases hrun
    | case4 s a t hitem hlt failure' u' hmany ih =>
      cases hrun
      obtain ⟨w₁, new₁, hpass₁, herr₁, hR⟩ := (h _).ok hc rfl hitem
      obtain ⟨w₂, new₂, hpass₂, herr₂, hwhy⟩ := ih (hpass₁.closed hc) hmany
      refine ⟨w₁ ++ w₂, new₁ ++ new₂, hpass₁.trans hpass₂, ?_, hwhy.append_left w₁⟩
      rw [herr₂, herr₁, List.append_assoc]
    | case5 s a t hitem hge => cases hrun

end Rules

/-- One run of the repetition in a list between commas. -/
def commaStep {α : Type} (item : Parser α) : Parser (Option α) := do
  match ← accept (· = .comma) with
  | some _ => some <$> item
  | none => return none

/-- A list between commas is an item and then such runs, unless it is empty. -/
theorem separated_eq {α : Type} (item : Parser α) : separated item = (do
    if (← peek).token.kind = .rightParen then return []
    let first ← item
    let others ← many (commaStep item)
    return first :: others) := rfl

end Storyboard.Parse
