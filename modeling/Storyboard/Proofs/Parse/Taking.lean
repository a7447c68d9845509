/-
  Storyboard.Proofs.Parse.Taking

  What a parser does with items that were written for it, and the rules to work
  it out from the parts of the parser.

  `Takes kept roomy w stop p good` says that a run of `p` which finds the items
  `w`, and behind them an item that satisfies `stop`, takes exactly `w`, adds no
  error and gives a result that satisfies `good`. The only thing that can go
  wrong is that the levels of nesting run out, which they do not if `roomy`: then
  the parser fails for that reason, or, if `kept` is true, has met that failure
  inside a statement and kept it among the errors.

  The second half of a sequence runs on a state of which only its first half says
  what it is. So where the first half may have kept an error, the rules ask that
  both only ever add errors, which is what `Reads` says of every parser.
-/
import Storyboard.Proofs.Parse.Reading

namespace Storyboard.Parse

-- ============================================================================
-- The limit of nesting
-- ============================================================================

/-- The failure of a parser with no level of nesting left. -/
def Failure.Deep (failure : Failure) : Prop := ∃ place, failure = .rejected ⟨.tooDeep, place⟩

/-- The failure of a parser with no level of nesting left is among the errors. -/
def State.Deep (s : State) : Prop := ∃ error ∈ s.errors, error.problem = .tooDeep

/-- A run for which the levels of nesting ran out. -/
def Overflows {α : Type} (kept : Bool) : EStateM.Result Failure State α → Prop
  | .ok _ t => kept = true ∧ t.Deep
  | .error failure t => failure.Deep ∨ (kept = true ∧ t.Deep)

/-- A change of the result does not matter. -/
theorem Overflows.map {α β : Type} {kept : Bool} {p : Parser α} {s : State} (g : α → β)
    (h : Overflows kept (p s)) : Overflows kept ((g <$> p) s) := by
  change Overflows kept (EStateM.map g p s)
  rw [EStateM.map]
  cases hrun : p s with
  | ok a t => rwa [hrun] at h
  | error failure t => rwa [hrun] at h

/-- Errors that are kept stay if more are added. -/
theorem State.Deep.append {s t : State} {new : List SyntaxError} (h : s.Deep)
    (herr : t.errors = s.errors ++ new) : t.Deep := by
  obtain ⟨error, hmem, hdeep⟩ := h
  exact ⟨error, by rw [herr]; exact List.mem_append_left new hmem, hdeep⟩

/-- A parser that only adds errors keeps those there are. -/
theorem Reads.overflows {α : Type} {p : Parser α} {R : Post α} (h : Reads p R) {s : State}
    (hc : s.cursor.Closed) (hs : s.Deep) : Overflows true (p s) := by
  cases hrun : p s with
  | ok a t =>
    obtain ⟨w, new, _, herr, _⟩ := (h _).ok hc rfl hrun
    exact ⟨rfl, hs.append herr⟩
  | error failure t =>
    obtain ⟨w, new, _, herr, _⟩ := (h _).error hc rfl hrun
    exact .inr ⟨rfl, hs.append herr⟩

-- ============================================================================
-- Taking
-- ============================================================================

/-- Whether a cursor is closed is decided by the last of its items. -/
theorem Cursor.Closed.of_items {c d : Cursor} {w₁ w₂ later : List Item} {next : Item}
    (hc : c.Closed) (hitems : c.items = w₁ ++ next :: later)
    (hitems' : d.items = w₂ ++ next :: later) : d.Closed := by
  obtain ⟨last, hlast, hend⟩ := hc
  refine ⟨last, ?_, hend⟩
  have hsome : (next :: later).getLast? = some last := by
    rw [hitems, List.getLast?_append] at hlast
    simpa [List.getLast?_cons] using hlast
  rw [hitems', List.getLast?_append, hsome, Option.some_or]

/-- Runs that find the items `w` and an item to stop at behind them take exactly `w`. -/
def Takes {α : Type} (kept : Bool) (roomy : Prop) (w : List Item) (stop : Item → Prop)
    (p : Parser α) (good : α → Prop) : Prop :=
  ∀ (s : State) (next : Item) (later : List Item), s.cursor.Closed →
    s.cursor.items = w ++ next :: later → stop next →
    (∃ a t, p s = .ok a t ∧ t.cursor.items = next :: later ∧ t.errors = s.errors ∧ good a) ∨
      (¬ roomy ∧ Overflows kept (p s))

/-- Where any item may stand. -/
def anywhere : Item → Prop := fun _ => True

namespace Takes

variable {α β : Type} {kept : Bool} {roomy roomy' : Prop} {w w₁ w₂ : List Item} {item : Item}
  {stop stop₁ : Item → Prop} {good : β → Prop} {good₁ : α → Prop}

/-- Fewer places to stop, a stronger condition on the room, and a weaker result. -/
theorem mono {p : Parser β} {good' : β → Prop} (h : Takes kept roomy w stop p good)
    (hroomy : roomy' → roomy) (hstop : ∀ {next}, stop₁ next → stop next)
    (hgood : ∀ {b}, good b → good' b) : Takes kept roomy' w stop₁ p good' := by
  intro s next later hc hitems hnext
  obtain ⟨b, t, hrun, ht, herr, hb⟩ | ⟨hno, hover⟩ := h s next later hc hitems (hstop hnext)
  · exact .inl ⟨b, t, hrun, ht, herr, hgood hb⟩
  · exact .inr ⟨fun hroom => hno (hroomy hroom), hover⟩

/-- A run of a parser that goes on as a run of another one, on some of the items. -/
theorem step {p q : Parser β} (hq : Takes kept roomy w₂ stop q good)
    (hstep : ∀ (s : State) (next : Item) (later : List Item), s.cursor.items = w₁ ++ next :: later →
      stop next → ∃ t : State, p s = q t ∧ t.cursor.items = w₂ ++ next :: later ∧
        t.errors = s.errors) : Takes kept roomy w₁ stop p good := by
  intro s next later hc hitems hnext
  obtain ⟨t, heq, ht, herr⟩ := hstep s next later hitems hnext
  obtain hgood | hover := hq t next later (hc.of_items hitems ht) ht hnext
  · obtain ⟨b, u, hrun, hu, herr', hb⟩ := hgood
    exact .inl ⟨b, u, heq.trans hrun, hu, herr'.trans herr, hb⟩
  · exact .inr (heq ▸ hover)

/-- Behind some items stands the first of those that follow, if there are any. -/
theorem headD_cons_tail (w : List Item) (next : Item) (later : List Item) :
    w.headD next :: (w ++ next :: later).tail = w ++ next :: later := by
  cases w with
  | nil => rfl
  | cons item w => rfl

/-- A parser takes its items where there are more of them for another parser. -/
theorem first {p : Parser β} (hp : Takes kept roomy w₁ stop₁ p good)
    (hstop : ∀ next, stop next → stop₁ (w₂.headD next)) {s : State} {next : Item}
    {later : List Item} (hc : s.cursor.Closed) (hitems : s.cursor.items = w₁ ++ w₂ ++ next :: later)
    (hnext : stop next) :
    (∃ b t, p s = .ok b t ∧ t.cursor.Closed ∧ t.cursor.items = w₂ ++ next :: later ∧
        t.errors = s.errors ∧ good b) ∨
      (¬ roomy ∧ Overflows kept (p s)) := by
  have hback := headD_cons_tail w₂ next later
  obtain ⟨b, t, hrun, ht, herr, hb⟩ | hover :=
    hp s _ (w₂ ++ next :: later).tail hc (by rw [hback, hitems, List.append_assoc])
      (hstop next hnext)
  · rw [hback] at ht
    exact .inl ⟨b, t, hrun, hc.of_items hitems ht, ht, herr, hb⟩
  · exact .inr hover

/-- A parser that gives a value takes nothing. -/
protected theorem pure {b : β} (hb : good b) :
    Takes kept roomy [] stop (pure b : Parser β) good :=
  fun s _ _ _ hitems _ => .inl ⟨b, s, rfl, hitems, rfl, hb⟩

/-- With no level of nesting left a parser fails. -/
protected theorem tooDeep (hroom : ¬ roomy) :
    Takes kept roomy w stop (tooDeep : Parser β) good := by
  intro s next later _ _ _
  exact .inr ⟨hroom, .inl ⟨s.cursor.location, rfl⟩⟩

/-- Two parsers one after the other. If the first may keep an error, so may both together, and
    then both have to read on properly. -/
theorem bind_of {kept₁ : Bool} {p : Parser α} {f : α → Parser β}
    (hp : Takes kept₁ roomy w₁ stop₁ p good₁)
    (hf : ∀ a, good₁ a → Takes kept roomy w₂ stop (f a) good)
    (hstop : ∀ next, stop next → stop₁ (w₂.headD next))
    (hkept : kept₁ = true → kept = true ∧ (∃ R, Reads p R) ∧ ∀ a, ∃ Q, Reads (f a) Q) :
    Takes kept roomy (w₁ ++ w₂) stop (p >>= f) good := by
  intro s next later hc hitems hnext
  obtain ⟨a, t, hrun, hclosed, ht, herr, ha⟩ | ⟨hno, hover⟩ := hp.first hstop hc hitems hnext
  · rw [bind_of_ok hrun]
    obtain ⟨b, u, hrun', hu, herr', hb⟩ | hover := hf a ha t next later hclosed ht hnext
    · exact .inl ⟨b, u, hrun', hu, herr'.trans herr, hb⟩
    · exact .inr hover
  · refine .inr ⟨hno, ?_⟩
    cases hrun : p s with
    | ok a t =>
      rw [hrun] at hover
      obtain ⟨rfl, ⟨R, hR⟩, hQ⟩ := hkept hover.1
      obtain ⟨w, new, hpass, _, _⟩ := (hR _).ok hc rfl hrun
      rw [bind_of_ok hrun]
      exact (hQ a).choose_spec.overflows (hpass.closed hc) hover.2
    | error failure t =>
      rw [hrun] at hover
      rw [bind_of_error hrun]
      obtain hdeep | ⟨hk, hdeep⟩ := hover
      · exact .inl hdeep
      · exact .inr ⟨(hkept hk).1, hdeep⟩

/-- Two parsers one after the other, the first of which keeps no error. -/
protected theorem bind {p : Parser α} {f : α → Parser β}
    (hp : Takes false roomy w₁ stop₁ p good₁)
    (hf : ∀ a, good₁ a → Takes kept roomy w₂ stop (f a) good)
    (hstop : ∀ next, stop next → stop₁ (w₂.headD next)) :
    Takes kept roomy (w₁ ++ w₂) stop (p >>= f) good :=
  bind_of hp hf hstop (fun h => absurd h Bool.false_ne_true)

/-- Two parsers one after the other, the first of which may keep an error. -/
theorem bind_kept {p : Parser α} {f : α → Parser β} {R : Post α} {Q : α → Post β}
    (hp : Takes true roomy w₁ stop₁ p good₁)
    (hf : ∀ a, good₁ a → Takes true roomy w₂ stop (f a) good)
    (hstop : ∀ next, stop next → stop₁ (w₂.headD next))
    (hpReads : Reads p R) (hfReads : ∀ a, Reads (f a) (Q a)) :
    Takes true roomy (w₁ ++ w₂) stop (p >>= f) good :=
  bind_of hp hf hstop fun _ => ⟨rfl, ⟨R, hpReads⟩, fun a => ⟨Q a, hfReads a⟩⟩

/-- Two parsers one after the other, the second of which takes nothing. -/
theorem bind_nil {p : Parser α} {f : α → Parser β} (hp : Takes false roomy w stop p good₁)
    (hf : ∀ a, good₁ a → Takes kept roomy [] stop (f a) good) :
    Takes kept roomy w stop (p >>= f) good := by
  have h := hp.bind hf fun _ hnext => hnext
  rwa [List.append_nil] at h

/-- The result of a parser, changed by a function. -/
protected theorem map {p : Parser α} {g : α → β} (hp : Takes kept roomy w stop p good₁)
    (hg : ∀ a, good₁ a → good (g a)) :
    Takes kept roomy w stop (p >>= fun a => pure (g a)) good := by
  intro s next later hc hitems hnext
  obtain ⟨a, t, hrun, ht, herr, ha⟩ | ⟨hno, hover⟩ := hp s next later hc hitems hnext
  · exact .inl ⟨g a, t, bind_of_ok hrun, ht, herr, hg a ha⟩
  · rw [bind_pure_comp]
    exact .inr ⟨hno, hover.map g⟩

-- Single items.

/-- Looking at the first item. -/
theorem peek_bind {f : Item → Parser β} (hf : Takes kept roomy (item :: w) stop (f item) good) :
    Takes kept roomy (item :: w) stop (peek >>= f) good := by
  refine hf.step fun s next later hitems _ => ⟨s, ?_, hitems, rfl⟩
  have hcurrent : s.cursor.current = item := (List.cons.inj hitems).1
  rw [bind_of_ok (show peek s = .ok item s from hcurrent ▸ rfl)]

/-- Looking at the item behind, where there is nothing to take. -/
theorem peek_bind_next {f : Item → Parser β}
    (hf : ∀ next, stop next → Takes kept roomy [] (· = next) (f next) good) :
    Takes kept roomy [] stop (peek >>= f) good := by
  intro s next later hc hitems hnext
  have hcurrent : s.cursor.current = next := (List.cons.inj hitems).1
  rw [bind_of_ok (show peek s = .ok next s from hcurrent ▸ rfl)]
  exact hf next hnext s next later hc hitems rfl

/-- Moving past an item leaves the items behind it. -/
theorem advance_of_items {s : State} {later : List Item} {next : Item}
    (hitems : s.cursor.items = item :: (w ++ next :: later)) :
    ∃ t : State, advance s = .ok item.token t ∧ t.cursor.items = w ++ next :: later ∧
      t.errors = s.errors := by
  refine ⟨{ s with cursor := s.cursor.advance }, ?_, ?_, rfl⟩
  · have hcurrent : s.cursor.current = item := (List.cons.inj hitems).1
    rw [← hcurrent]
    rfl
  · have hupcoming : s.cursor.upcoming = w ++ next :: later := (List.cons.inj hitems).2
    rw [← hupcoming, Cursor.advance]
    split
    · rename_i hnil
      rw [hnil] at hupcoming
      exact absurd hupcoming.symm (by simp)
    · rename_i hcons
      rw [hcons]
      rfl

/-- Moving past the first item. -/
theorem advance_bind {f : Token → Parser β} (hf : Takes kept roomy w stop (f item.token) good) :
    Takes kept roomy (item :: w) stop (advance >>= f) good := by
  refine hf.step fun s next later hitems _ => ?_
  obtain ⟨t, hrun, ht, herr⟩ := advance_of_items hitems
  exact ⟨t, bind_of_ok hrun, ht, herr⟩

/-- Expecting the first item. -/
theorem expect_bind {kind : Kind} {text : String} {hint : Option String} {f : Token → Parser β}
    (hkind : item.token.kind = kind) (hf : Takes kept roomy w stop (f item.token) good) :
    Takes kept roomy (item :: w) stop (expect kind text hint >>= f) good := by
  refine hf.step fun s next later hitems _ => ?_
  obtain ⟨t, hrun, ht, herr⟩ := advance_of_items hitems
  refine ⟨t, bind_of_ok ?_, ht, herr⟩
  have hcurrent : s.cursor.current = item := (List.cons.inj hitems).1
  rw [expect_apply, if_pos (by rw [Cursor.kind, hcurrent, hkind]), hrun]

/-- Accepting the first item. -/
theorem accept_bind_some {wanted : Kind → Bool} {f : Option Token → Parser β}
    (hwanted : wanted item.token.kind = true)
    (hf : Takes kept roomy w stop (f (some item.token)) good) :
    Takes kept roomy (item :: w) stop (accept wanted >>= f) good := by
  refine hf.step fun s next later hitems _ => ?_
  obtain ⟨t, hrun, ht, herr⟩ := advance_of_items hitems
  refine ⟨t, bind_of_ok ?_, ht, herr⟩
  have hcurrent : s.cursor.current = item := (List.cons.inj hitems).1
  rw [accept_apply, if_pos (by rw [Cursor.kind, hcurrent, hwanted])]
  change EStateM.map some advance s = _
  rw [EStateM.map, hrun]

/-- Not accepting what comes next. -/
theorem accept_bind_none {wanted : Kind → Bool} {f : Option Token → Parser β}
    (hwanted : ∀ next, stop next → wanted (w.headD next).token.kind = false)
    (hf : Takes kept roomy w stop (f none) good) :
    Takes kept roomy w stop (accept wanted >>= f) good := by
  refine hf.step fun s next later hitems hnext => ⟨s, bind_of_ok ?_, hitems, rfl⟩
  rw [← headD_cons_tail] at hitems
  have hcurrent : s.cursor.current = w.headD next := (List.cons.inj hitems).1
  rw [accept_apply,
    if_neg (by rw [Cursor.kind, hcurrent, hwanted next hnext]; exact Bool.false_ne_true)]

-- Repetition.

/-- A repetition with nothing to take. -/
theorem many_nil {one : Parser (Option β)} (hone : Takes false roomy [] stop one (· = none)) :
    Takes kept roomy [] stop (many one) (· = []) := by
  intro s next later hc hitems hnext
  obtain ⟨b, t, hrun, ht, herr, rfl⟩ | ⟨hno, hover⟩ := hone s next later hc hitems hnext
  · refine .inl ⟨[], t, ?_, ht, herr, rfl⟩
    rw [many_apply, hrun]
  · refine .inr ⟨hno, ?_⟩
    cases hrun : one s with
    | ok b t =>
      rw [hrun] at hover
      exact absurd hover.1 Bool.false_ne_true
    | error failure t =>
      rw [hrun] at hover
      rw [many_apply, hrun]
      exact .inl (hover.resolve_right fun h => Bool.false_ne_true h.1)

/-- A repetition goes on after a result for which something was taken. -/
theorem many_of_some {one : Parser (Option α)} {s t : State} {a : α}
    (hrun : one s = .ok (some a) t) (hless : t.cursor.remaining < s.cursor.remaining) :
    many one s = ((a :: ·) <$> many one) t := by
  change _ = EStateM.map (a :: ·) (many one) t
  rw [many_apply, hrun, EStateM.map]
  dsimp only
  rw [if_pos hless]
  cases many one t with
  | ok others u => rfl
  | error failure u => rfl

/-- A repetition that takes one more: the parser it repeats, and then the repetition. -/
theorem many_cons {one : Parser (Option α)} {goods : List α → Prop}
    (hone : Takes kept roomy w₁ stop₁ one fun a? => ∃ a, a? = some a ∧ good₁ a) (hw₁ : w₁ ≠ [])
    (hmany : Takes kept roomy w₂ stop (many one) goods)
    (hstop : ∀ next, stop next → stop₁ (w₂.headD next))
    (hkept : kept = true → ∃ R, Reads one R ∧ ∃ Q, Reads (many one) Q) :
    Takes kept roomy (w₁ ++ w₂) stop (many one) fun as =>
      ∃ a others, as = a :: others ∧ good₁ a ∧ goods others := by
  intro s next later hc hitems hnext
  obtain ⟨_, t, hrun, hclosed, ht, herr, a, rfl, ha⟩ | ⟨hno, hover⟩ :=
    hone.first hstop hc hitems hnext
  · -- The first one is taken, and as it is not empty the loop goes on.
    have hless : t.cursor.remaining < s.cursor.remaining := by
      have hlen : s.cursor.items.length = w₁.length + t.cursor.items.length := by
        rw [hitems, ht, List.append_assoc, List.length_append]
      have hpos := List.length_pos_iff.mpr hw₁
      simp only [Cursor.items, List.length_cons] at hlen
      simp only [Cursor.remaining]
      omega
    rw [many_of_some hrun hless]
    obtain ⟨others, u, hrun', hu, herr', hothers⟩ | ⟨hno, hover⟩ :=
      hmany t next later hclosed ht hnext
    · refine .inl ⟨a :: others, u, ?_, hu, herr'.trans herr, a, others, rfl, ha, hothers⟩
      change EStateM.map (a :: ·) (many one) t = _
      rw [EStateM.map, hrun']
    · exact .inr ⟨hno, hover.map (a :: ·)⟩
  · -- The levels ran out in the first one. That ends the loop, or it is an error that is kept and
    -- then stays, whatever the rest of the loop does.
    refine .inr ⟨hno, ?_⟩
    cases hrun : one s with
    | error failure t =>
      rw [hrun] at hover
      rw [many_apply, hrun]
      exact hover
    | ok a? t =>
      rw [hrun] at hover
      obtain ⟨R, hR, Q, hQ⟩ := hkept hover.1
      rw [hover.1]
      obtain ⟨w, new, hpass, _, _⟩ := (hR _).ok hc rfl hrun
      have hrest := hQ.overflows (hpass.closed hc) hover.2
      cases a? with
      | none =>
        rw [many_apply, hrun]
        exact ⟨rfl, hover.2⟩
      | some a =>
        by_cases hless : t.cursor.remaining < s.cursor.remaining
        · rw [many_of_some hrun hless]
          exact hrest.map (a :: ·)
        · rw [many_apply, hrun]
          dsimp only
          rw [if_neg hless]
          exact ⟨rfl, hover.2⟩

end Takes

end Storyboard.Parse
