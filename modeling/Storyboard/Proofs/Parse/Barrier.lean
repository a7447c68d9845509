/-
  Storyboard.Proofs.Parse.Barrier

  Runs of a parser over the same items in front of different barriers.

  A barrier is an item that no expression and no unfinished statement goes past: the
  end of input, a closing brace, or the keyword of a statement at the start of a line.
  What a parser does with the items before a barrier hardly depends on which barrier
  it is. `Uniform K w p` says that the run of `p` over the items `w` is the same in
  front of every barrier of the class `K`: it gives the same value, or fails in the
  same way, it leaves the same items, and it adds the same errors. Only an error about
  the next token, when all items have been read, is about the barrier; such an error
  is pending (`OpenError`).

  Blocks are the exception. A block that is still open at a barrier goes on past the
  keyword of a statement and fails at the end of input. `Local` therefore lets a run
  get stuck at the end of input (`Stuck`), if there is an opening brace among the
  items, or was one before them, and if not all barriers of the class are ends of
  input.
-/
import Storyboard.Proofs.Parse.Taking

namespace Storyboard

-- ============================================================================
-- Errors of a text that may go on
-- ============================================================================

namespace Parse

/-- What is wrong with a token, whichever it is. -/
inductive Complaint where
  | missing (text : String) (hint : Option String)
  | unexpected
  | tooDeep
  deriving DecidableEq, Inhabited

/-- The error that a complaint is when it is about a token. -/
def Complaint.about (token : Token) : Complaint → SyntaxError
  | .missing text hint => ⟨.missing text hint, token.location⟩
  | .unexpected => ⟨.ofToken token, token.location⟩
  | .tooDeep => ⟨.tooDeep, token.location⟩

/-- An error in a text that may go on: it is about a token of the text, or it will be about the
    token that comes next. -/
inductive OpenError where
  | settled (error : SyntaxError)
  | pending (complaint : Complaint)
  deriving DecidableEq, Inhabited

/-- The error, once the next token is known. -/
def OpenError.close (next : Token) : OpenError → SyntaxError
  | .settled error => error
  | .pending complaint => complaint.about next

/-- A complaint about the first of the items, or about what comes next if there is none. -/
def Complaint.within (complaint : Complaint) : List Item → OpenError
  | [] => .pending complaint
  | item :: _ => .settled (complaint.about item.token)

/-- A complaint about the first item is one about it once the next token is known. -/
theorem Complaint.close_within (complaint : Complaint) (w : List Item) (item : Item) :
    (complaint.within w).close item.token = complaint.about (w.headD item).token := by
  cases w <;> rfl

/-- Why a run fails: a complaint about the next token, or a number token without a number. -/
inductive Trouble where
  | blames (complaint : Complaint)
  | notNumber (text : String)

/-- The failure of a run at a token. -/
def Trouble.failure (next : Token) : Trouble → Failure
  | .blames complaint => .rejected (complaint.about next)
  | .notNumber text => .notNumber text

-- ============================================================================
-- Barriers
-- ============================================================================

/-- The kinds of barriers. -/
def bars (kind : Kind) : Bool :=
  kind = .endOfInput || kind = .rightBrace || kind.opensStatement

/-- A class of barriers. A `return` in front of one has no value. -/
structure Barrier where
  stops : Item → Prop
  bars : ∀ {item : Item}, stops item → Parse.bars item.token.kind = true
  endsReturn : ∀ {item : Item}, stops item →
    item.token.kind = .rightBrace ∨ item.token.kind = .endOfInput ∨ item.startsLine = true

/-- All barriers of the class are ends of input. -/
def Barrier.Ends (K : Barrier) : Prop := ∀ item, K.stops item → item.token.kind = .endOfInput

/-- A barrier with what stands behind it, and how many items stand before it. -/
structure Ending where
  item : Item
  later : List Item
  index : Nat

/-- A state in which the given items are left to read before a barrier. -/
structure State.Before (K : Barrier) (s : State) (w : List Item) (e : Ending) : Prop where
  stops : K.stops e.item
  items_eq : s.cursor.items = w ++ e.item :: e.later
  index_eq : s.cursor.index + w.length = e.index

variable {K : Barrier} {α β : Type}

namespace State.Before

variable {s t : State} {w w' : List Item} {e : Ending} {x : Item}

/-- The current item is the first of those left, or the barrier. -/
theorem current_eq (h : s.Before K w e) : s.cursor.current = w.headD e.item := by
  have hitems := h.items_eq
  cases w with
  | nil => exact (List.cons.inj hitems).1
  | cons x w => exact (List.cons.inj hitems).1

/-- Moving on leaves one item less. -/
theorem advance (h : s.Before K (x :: w) e) :
    State.Before K { s with cursor := s.cursor.advance } w e := by
  have hupcoming : s.cursor.upcoming = w ++ e.item :: e.later := (List.cons.inj h.items_eq).2
  have hindex := h.index_eq
  rw [List.length_cons] at hindex
  obtain ⟨next, others, hnext⟩ : ∃ next others, w ++ e.item :: e.later = next :: others := by
    cases w with
    | nil => exact ⟨_, _, rfl⟩
    | cons y w => exact ⟨_, _, rfl⟩
  refine ⟨h.stops, ?_, ?_⟩
  · simp only [Cursor.advance, hupcoming, hnext, Cursor.items]
  · simp only [Cursor.advance, hupcoming, hnext]
    omega

/-- How much is left to read. -/
theorem remaining_eq (h : s.Before K w e) :
    s.cursor.remaining = w.length + e.later.length := by
  have hlength := congrArg List.length h.items_eq
  simp only [Cursor.items, List.length_cons, List.length_append] at hlength
  simp only [Cursor.remaining]
  omega

/-- Two cursors are at the same place if as much is left to read. -/
theorem index_eq_iff (hs : s.Before K w e) (ht : t.Before K w' e) :
    t.cursor.index = s.cursor.index ↔ w'.length = w.length := by
  have hindex := hs.index_eq
  have hindex' := ht.index_eq
  omega

/-- Other errors change nothing about what is left to read. -/
theorem record (h : s.Before K w e) (error : SyntaxError) : (s.record error).Before K w e :=
  ⟨h.stops, h.items_eq, h.index_eq⟩

/-- Seeking an item at which the barrier counts too stops within the items or at the barrier. -/
theorem seek {stops : Item → Bool} (hstops : stops e.item = true) (h : s.Before K w e) :
    State.Before K { s with cursor := s.cursor.seek stops } (w.dropWhile fun x => !stops x) e := by
  obtain ⟨⟨current, upcoming, index⟩, errors⟩ := s
  have hcurrent : current = w.headD e.item := h.current_eq
  induction w generalizing current upcoming index with
  | nil =>
    have hseek : (Cursor.mk current upcoming index).seek stops = ⟨current, upcoming, index⟩ := by
      obtain rfl : current = e.item := hcurrent
      cases upcoming with
      | nil => rfl
      | cons y upcoming => rw [Cursor.seek, Cursor.seekFrom, if_pos hstops]
    rw [List.dropWhile_nil]
    refine ⟨h.stops, ?_, ?_⟩
    · rw [hseek]
      exact h.items_eq
    · rw [hseek]
      exact h.index_eq
  | cons x w ih =>
    obtain rfl : current = x := hcurrent
    have hnext := h.advance
    -- There is always one more item, be it only the barrier, so seeking can go on.
    obtain ⟨next, others, hupcoming⟩ : ∃ next others, upcoming = next :: others := by
      obtain rfl : upcoming = w ++ e.item :: e.later := (List.cons.inj h.items_eq).2
      cases w with
      | nil => exact ⟨_, _, rfl⟩
      | cons y w => exact ⟨_, _, rfl⟩
    subst hupcoming
    by_cases hx : stops current = true
    · have hseek : (Cursor.mk current (next :: others) index).seek stops =
          ⟨current, next :: others, index⟩ := by
        rw [Cursor.seek, Cursor.seekFrom, if_pos hx]
      rw [List.dropWhile_cons_of_neg (by simp [hx])]
      refine ⟨h.stops, ?_, ?_⟩
      · rw [hseek]
        exact h.items_eq
      · rw [hseek]
        exact h.index_eq
    · have hseek : (Cursor.mk current (next :: others) index).seek stops =
          (Cursor.mk next others (index + 1)).seek stops := by
        rw [Cursor.seek, Cursor.seekFrom, if_neg hx]
        rfl
      rw [List.dropWhile_cons_of_pos (by simp [hx]), hseek]
      exact ih next others (index + 1) hnext hnext.current_eq

end State.Before

-- ============================================================================
-- Uniform runs
-- ============================================================================

/-- In front of every barrier, a run over the items gives the value and leaves the rest, with the
    new errors. -/
structure Gives (K : Barrier) (w : List Item) (p : Parser α) (a : α) (rest : List Item)
    (new : List OpenError) : Prop where
  suffix : rest <:+ w
  run : ∀ {s : State} {e : Ending}, s.Before K w e → ∃ t, p s = .ok a t ∧ t.Before K rest e ∧
    t.errors = s.errors ++ new.map (OpenError.close e.item.token)

/-- In front of every barrier, a run over the items fails at the first item of the rest, or at the
    barrier, with the new errors. -/
structure Breaks (K : Barrier) (w : List Item) (p : Parser α) (trouble : Trouble)
    (rest : List Item) (new : List OpenError) : Prop where
  suffix : rest <:+ w
  run : ∀ {s : State} {e : Ending}, s.Before K w e →
    ∃ t, p s = .error (trouble.failure (rest.headD e.item).token) t ∧ t.Before K rest e ∧
      t.errors = s.errors ++ new.map (OpenError.close e.item.token)

/-- The run over the items is the same in front of every barrier. -/
inductive Uniform (K : Barrier) (w : List Item) (p : Parser α) : Prop where
  | gives {a : α} {rest : List Item} {new : List OpenError} : Gives K w p a rest new → Uniform K w p
  | breaks {trouble : Trouble} {rest : List Item} {new : List OpenError} :
      Breaks K w p trouble rest new → Uniform K w p

section Runs

variable {w w' w'' : List Item} {p : Parser α} {f : α → Parser β} {a : α} {b : β}
  {new new' : List OpenError} {trouble : Trouble}

/-- What a parser does over the items is all that counts. -/
theorem Uniform.congr {q : Parser α} (hq : Uniform K w q)
    (h : ∀ {s : State} {e : Ending}, s.Before K w e → p s = q s) : Uniform K w p := by
  cases hq with
  | @gives a rest new hq =>
    have hp : Gives K w p a rest new := ⟨hq.suffix, fun hs => by rw [h hs]; exact hq.run hs⟩
    exact .gives hp
  | @breaks trouble rest new hq =>
    have hp : Breaks K w p trouble rest new := ⟨hq.suffix, fun hs => by rw [h hs]; exact hq.run hs⟩
    exact .breaks hp

theorem Gives.pure (K : Barrier) (w : List Item) (a : α) :
    Gives K w (pure a : Parser α) a w [] :=
  ⟨List.suffix_refl w, fun {s _} hs => ⟨s, rfl, hs, (List.append_nil _).symm⟩⟩

/-- Two runs one after the other. -/
theorem Gives.bind (hp : Gives K w p a w' new) (hf : Gives K w' (f a) b w'' new') :
    Gives K w (p >>= f) b w'' (new ++ new') := by
  refine ⟨hf.suffix.trans hp.suffix, fun {s e} hs => ?_⟩
  obtain ⟨t, hrun, ht, herrors⟩ := hp.run hs
  obtain ⟨u, hrun', hu, herrors'⟩ := hf.run ht
  refine ⟨u, (bind_of_ok hrun).trans hrun', hu, ?_⟩
  rw [herrors', herrors, List.map_append, List.append_assoc]

/-- A run after one without errors. -/
theorem Gives.quiet_bind (hp : Gives K w p a w' []) (hf : Gives K w' (f a) b w'' new) :
    Gives K w (p >>= f) b w'' new := hp.bind hf

/-- A run that fails after another one. -/
theorem Gives.bind_breaks (hp : Gives K w p a w' new) (hf : Breaks K w' (f a) trouble w'' new') :
    Breaks K w (p >>= f) trouble w'' (new ++ new') := by
  refine ⟨hf.suffix.trans hp.suffix, fun {s e} hs => ?_⟩
  obtain ⟨t, hrun, ht, herrors⟩ := hp.run hs
  obtain ⟨u, hrun', hu, herrors'⟩ := hf.run ht
  refine ⟨u, (bind_of_ok hrun).trans hrun', hu, ?_⟩
  rw [herrors', herrors, List.map_append, List.append_assoc]

/-- Nothing is run after a failure. -/
theorem Breaks.bind (hp : Breaks K w p trouble w' new) (f : α → Parser β) :
    Breaks K w (p >>= f) trouble w' new := by
  refine ⟨hp.suffix, fun {s e} hs => ?_⟩
  obtain ⟨t, hrun, ht, herrors⟩ := hp.run hs
  exact ⟨t, bind_of_error hrun, ht, herrors⟩

theorem Gives.bind_uniform (hp : Gives K w p a w' new) (hf : Uniform K w' (f a)) :
    Uniform K w (p >>= f) := by
  cases hf with
  | gives hf => exact .gives (hp.bind hf)
  | breaks hf => exact .breaks (hp.bind_breaks hf)

/-- A complaint about the current token. -/
theorem Breaks.reject (complaint : Complaint) {p : Parser α}
    (h : ∀ s, p s = .error (.rejected (complaint.about s.cursor.current.token)) s) (K : Barrier)
    (w : List Item) : Breaks K w p (.blames complaint) w [] := by
  refine ⟨List.suffix_refl w, fun {s e} hs => ⟨s, ?_, hs, (List.append_nil _).symm⟩⟩
  rw [h, hs.current_eq]
  rfl

theorem Uniform.tooDeep (K : Barrier) (w : List Item) : Uniform K w (tooDeep : Parser α) :=
  .breaks (Breaks.reject .tooDeep (fun _ => rfl) K w)

theorem Uniform.unexpected (K : Barrier) (w : List Item) : Uniform K w (unexpected : Parser α) :=
  .breaks (Breaks.reject .unexpected (fun _ => rfl) K w)

/-- Moving past an item. -/
theorem Gives.advance (K : Barrier) (x : Item) (w : List Item) :
    Gives K (x :: w) advance x.token w [] := by
  refine ⟨List.suffix_cons x w, fun {s e} hs => ⟨_, ?_, hs.advance, (List.append_nil _).symm⟩⟩
  rw [advance_apply, hs.current_eq]
  rfl

/-- A token that has to come next and does. -/
theorem Gives.expect {x : Item} {kind : Kind} (hx : x.token.kind = kind) (text : String)
    (hint : Option String) (K : Barrier) (w : List Item) :
    Gives K (x :: w) (expect kind text hint) x.token w [] := by
  refine ⟨List.suffix_cons x w, fun {s e} hs => ?_⟩
  rw [expect_apply, Cursor.kind, hs.current_eq, List.headD_cons, if_pos hx]
  exact (Gives.advance K x w).run hs

/-- A token that has to come next and does not, whatever the barrier is. -/
theorem Breaks.expect {kind : Kind}
    (hno : ∀ e : Ending, K.stops e.item → (w.headD e.item).token.kind ≠ kind) (text : String)
    (hint : Option String) :
    Breaks K w (expect kind text hint) (.blames (.missing text hint)) w [] := by
  refine ⟨List.suffix_refl w, fun {s e} hs => ⟨s, ?_, hs, (List.append_nil _).symm⟩⟩
  rw [expect_apply, Cursor.kind, hs.current_eq, if_neg (hno e hs.stops), reject_apply,
    Cursor.location, hs.current_eq]
  rfl

theorem Breaks.expect_nil {kind : Kind} (hkind : bars kind = false) (text : String)
    (hint : Option String) (K : Barrier) :
    Breaks K [] (Parse.expect kind text hint) (.blames (.missing text hint)) [] [] := by
  refine Breaks.expect (fun e he => ?_) text hint
  rintro rfl
  rw [List.headD_nil, K.bars he] at hkind
  cases hkind

theorem Breaks.expect_cons {x : Item} {kind : Kind} (hx : x.token.kind ≠ kind) (text : String)
    (hint : Option String) (K : Barrier) (w : List Item) :
    Breaks K (x :: w) (Parse.expect kind text hint) (.blames (.missing text hint)) (x :: w) [] :=
  Breaks.expect (w := x :: w) (fun _ _ => hx) text hint

/-- A token that has to come next, of a kind that no barrier has. -/
theorem Uniform.expect {kind : Kind} (hkind : bars kind = false) (text : String)
    (hint : Option String) (K : Barrier) (w : List Item) : Uniform K w (expect kind text hint) := by
  cases w with
  | nil => exact .breaks (.expect_nil hkind text hint K)
  | cons x w =>
    by_cases hx : x.token.kind = kind
    · exact .gives (.expect hx text hint K w)
    · exact .breaks (.expect_cons hx text hint K w)

/-- A token that may come next and does. -/
theorem Gives.accept_some {x : Item} {wanted : Kind → Bool} (hx : wanted x.token.kind = true)
    (K : Barrier) (w : List Item) : Gives K (x :: w) (accept wanted) (some x.token) w [] := by
  refine ⟨List.suffix_cons x w, fun {s e} hs => ?_⟩
  obtain ⟨t, hrun, ht, herrors⟩ := (Gives.advance K x w).run hs
  refine ⟨t, ?_, ht, herrors⟩
  rw [accept_apply, Cursor.kind, hs.current_eq, List.headD_cons, if_pos hx]
  exact bind_of_ok (f := fun token => Pure.pure (some token)) hrun

/-- A token that may come next and does not, whatever the barrier is. -/
theorem Gives.accept_none {wanted : Kind → Bool}
    (hno : ∀ e : Ending, K.stops e.item → wanted (w.headD e.item).token.kind = false) :
    Gives K w (accept wanted) none w [] := by
  refine ⟨List.suffix_refl w, fun {s e} hs => ⟨s, ?_, hs, (List.append_nil _).symm⟩⟩
  rw [accept_apply, Cursor.kind, hs.current_eq, hno e hs.stops]
  rfl

/-- A token that may come next, of kinds that no barrier has. -/
theorem Uniform.accept {wanted : Kind → Bool}
    (hwanted : ∀ kind, bars kind = true → wanted kind = false) (K : Barrier) (w : List Item) :
    Uniform K w (accept wanted) := by
  cases w with
  | nil => exact .gives (.accept_none fun e he => hwanted _ (K.bars he))
  | cons x w =>
    by_cases hx : wanted x.token.kind = true
    · exact .gives (.accept_some hx K w)
    · exact .gives (.accept_none fun _ _ => by simpa using hx)

theorem peek_eq (s : State) : peek s = .ok s.cursor.current s := rfl

/-- Looking at the first of the items. -/
theorem Gives.peek (K : Barrier) (x : Item) (w : List Item) :
    Gives K (x :: w) peek x (x :: w) [] := by
  refine ⟨List.suffix_refl _, fun {s e} hs => ⟨s, ?_, hs, (List.append_nil _).symm⟩⟩
  rw [peek_apply, hs.current_eq]
  rfl

/-- Looking at a barrier and doing the same at each of them. -/
theorem Uniform.peek_bind_nil {f : Item → Parser β} {g : Parser β}
    (hf : ∀ item, K.stops item → f item = g) (hg : Uniform K [] g) : Uniform K [] (peek >>= f) := by
  have hpeek : ∀ {s : State} {e : Ending}, s.Before K [] e → (Parse.peek >>= f) s = g s := by
    intro s e hs
    rw [bind_of_ok (peek_eq s), hs.current_eq]
    exact congrFun (hf e.item hs.stops) s
  exact hg.congr hpeek

end Runs

-- ============================================================================
-- Local parsers
-- ============================================================================

/-- When a run may get stuck at the end of input: never, if a block is opened among the items, or
    since one was opened before them. -/
inductive Escape where
  | never
  | braced
  | opened

/-- Whether a run over the items may get stuck. No run does if all barriers are ends of input. -/
def Escape.Allowed (K : Barrier) (w : List Item) : Escape → Prop
  | .never => False
  | .braced => ¬ K.Ends ∧ ∃ item ∈ w, item.token.kind = .leftBrace
  | .opened => ¬ K.Ends

/-- More items allow more. -/
theorem Escape.Allowed.of_suffix {w w' : List Item} {m : Escape} (hw : w' <:+ w)
    (h : m.Allowed K w') : m.Allowed K w := by
  cases m with
  | never => exact h
  | braced =>
    obtain ⟨hends, item, hitem, hbrace⟩ := h
    exact ⟨hends, item, hw.subset hitem, hbrace⟩
  | opened => exact h

/-- Nothing gets stuck if all barriers are ends of input. -/
theorem Escape.Allowed.not_ends {w : List Item} {m : Escape} (h : m.Allowed K w) : ¬ K.Ends := by
  cases m with
  | never => exact h.elim
  | braced => exact h.1
  | opened => exact h

/-- In front of an end of input, a run over the items is rejected there. -/
def Stuck (K : Barrier) (w : List Item) (p : Parser α) : Prop :=
  ∀ {s : State} {e : Ending}, s.Before K w e → e.item.token.kind = .endOfInput →
    ∃ error t, p s = .error (.rejected error) t ∧ t.Before K [] e ∧
      s.errors.length ≤ t.errors.length

/-- In front of an end of input, a run over the items gets there, with so many new errors at
    least. -/
def RunsOut (K : Barrier) (w : List Item) (p : Parser α) (count : Nat) : Prop :=
  ∀ {s : State} {e : Ending}, s.Before K w e → e.item.token.kind = .endOfInput →
    ∃ a t, p s = .ok a t ∧ t.Before K [] e ∧ s.errors.length + count ≤ t.errors.length

/-- The run over the items is uniform, or it runs out where that is allowed. -/
def RunsOn (K : Barrier) (m : Escape) (count : Nat) (w : List Item) (p : Parser α) : Prop :=
  Uniform K w p ∨ m.Allowed K w ∧ RunsOut K w p count

/-- The run over the items is uniform, or it gets stuck where that is allowed. -/
def LocalOn (K : Barrier) (m : Escape) (w : List Item) (p : Parser α) : Prop :=
  Uniform K w p ∨ m.Allowed K w ∧ Stuck K w p

/-- All runs are uniform, or get stuck where that is allowed. -/
def Local (K : Barrier) (m : Escape) (p : Parser α) : Prop := ∀ w, LocalOn K m w p

section Rules

variable {m : Escape} {w w' : List Item} {p : Parser α} {f : α → Parser β} {a : α}
  {new : List OpenError}

/-- What never gets stuck is uniform. -/
theorem Local.uniform (h : Local K .never p) (w : List Item) : Uniform K w p :=
  (h w).resolve_right And.left

theorem Local.of_uniform (h : ∀ w, Uniform K w p) : Local K m p := fun w => .inl (h w)

/-- What never gets stuck does not where that is allowed. -/
theorem Local.of_never (h : Local K .never p) : Local K m p := .of_uniform h.uniform

/-- A parser after a uniform run. -/
theorem Gives.bind_local (hp : Gives K w p a w' new) (hf : LocalOn K m w' (f a)) :
    LocalOn K m w (p >>= f) := by
  obtain hf | ⟨hallowed, hstuck⟩ := hf
  · exact .inl (hp.bind_uniform hf)
  · refine .inr ⟨hallowed.of_suffix hp.suffix, fun {s e} hs hend => ?_⟩
    obtain ⟨t, hrun, ht, herrors⟩ := hp.run hs
    obtain ⟨error, u, hrun', hu, hlength⟩ := hstuck ht hend
    refine ⟨error, u, (bind_of_ok hrun).trans hrun', hu, Nat.le_trans ?_ hlength⟩
    rw [herrors, List.length_append]
    exact Nat.le_add_right _ _

/-- Two parsers one after the other. -/
theorem LocalOn.bind (hp : LocalOn K m w p) (hf : ∀ a, Local K m (f a)) :
    LocalOn K m w (p >>= f) := by
  obtain hp | ⟨hallowed, hstuck⟩ := hp
  · cases hp with
    | gives hp => exact hp.bind_local (hf _ _)
    | breaks hp => exact .inl (.breaks (hp.bind f))
  · refine .inr ⟨hallowed, fun {s e} hs hend => ?_⟩
    obtain ⟨error, t, hrun, ht, hlength⟩ := hstuck hs hend
    exact ⟨error, t, bind_of_error hrun, ht, hlength⟩

theorem Local.bind (hp : Local K m p) (hf : ∀ a, Local K m (f a)) : Local K m (p >>= f) :=
  fun w => (hp w).bind hf

theorem Local.pure (a : α) : Local K m (Pure.pure a : Parser α) :=
  .of_uniform fun w => .gives (.pure K w a)

theorem Local.tooDeep : Local K m (tooDeep : Parser α) := .of_uniform (Uniform.tooDeep K)

theorem Local.expect_bind {kind : Kind} {text : String} {hint : Option String}
    {f : Token → Parser β} (hkind : bars kind = false) (hf : ∀ token, Local K m (f token)) :
    Local K m (expect kind text hint >>= f) :=
  .bind (.of_uniform (Uniform.expect hkind text hint K)) hf

theorem Local.accept_bind {wanted : Kind → Bool} {f : Option Token → Parser β}
    (hwanted : ∀ kind, bars kind = true → wanted kind = false)
    (hsome : ∀ token, Local K m (f (some token))) (hnone : Local K m (f none)) :
    Local K m (accept wanted >>= f) := by
  refine .bind (.of_uniform (Uniform.accept hwanted K)) fun found => ?_
  cases found with
  | none => exact hnone
  | some token => exact hsome token

/-- A parser that looks at the next item first: it does the same at every barrier. -/
theorem Local.peek_bind {f : Item → Parser β} {g : Parser β}
    (hin : ∀ x w, LocalOn K m (x :: w) (f x)) (hbarrier : ∀ item, K.stops item → f item = g)
    (hg : Uniform K [] g) : Local K m (peek >>= f) := by
  intro w
  cases w with
  | nil => exact .inl (Uniform.peek_bind_nil hbarrier hg)
  | cons x w => exact (Gives.peek K x w).bind_local (hin x w)

/-- Looking at the first of the items changes nothing. -/
theorem RunsOn.peek_bind {f : Item → Parser β} {x : Item} {count : Nat}
    (h : RunsOn K m count (x :: w) (f x)) : RunsOn K m count (x :: w) (peek >>= f) := by
  have hpeek : ∀ {s : State} {e : Ending}, s.Before K (x :: w) e →
      (Parse.peek >>= f) s = f x s := by
    intro s e hs
    rw [bind_of_ok (peek_eq s), hs.current_eq]
    rfl
  obtain h | ⟨hallowed, h⟩ := h
  · exact .inl (h.congr hpeek)
  · refine .inr ⟨hallowed, fun {s e} hs hkind => ?_⟩
    rw [hpeek hs]
    exact h hs hkind

/-- Moving past an item, and then more. -/
theorem LocalOn.advance_bind {f : Token → Parser β} {x : Item} (h : LocalOn K m w (f x.token)) :
    LocalOn K m (x :: w) (advance >>= f) := (Gives.advance K x w).bind_local h

end Rules

-- ============================================================================
-- Repetitions
-- ============================================================================

section Maps

variable {p : Parser α} {s t : State}

theorem map_of_ok {a : α} (h : p s = .ok a t) (f : α → β) : (f <$> p) s = .ok (f a) t :=
  bind_of_ok (f := fun a => pure (f a)) h

theorem map_of_error {failure : Failure} (h : p s = .error failure t) (f : α → β) :
    (f <$> p) s = .error failure t := bind_of_error (f := fun a => pure (f a)) h

/-- A changed value of equal runs. -/
theorem map_congr (h : p s = p t) (f : α → β) : (f <$> p) s = (f <$> p) t := by
  cases hrun : p t with
  | ok a u => rw [map_of_ok (h.trans hrun), map_of_ok hrun]
  | error failure u => rw [map_of_error (h.trans hrun), map_of_error hrun]

/-- A value is changed twice if a run is another one with a changed value. -/
theorem map_of_map {q : Parser α} {g : α → α} (h : p s = (g <$> q) t) (f : α → β) :
    (f <$> p) s = ((fun a => f (g a)) <$> q) t := by
  cases hq : q t with
  | ok a u =>
    rw [map_of_ok hq g] at h
    rw [map_of_ok h f, map_of_ok hq]
  | error failure u =>
    rw [map_of_error hq g] at h
    rw [map_of_error h f, map_of_error hq]

/-- What is made of the value of a run changes nothing about it. -/
theorem RunsOn.map {m : Escape} {count : Nat} {w : List Item} (h : RunsOn K m count w p)
    (f : α → β) : RunsOn K m count w (f <$> p) := by
  obtain h | ⟨hallowed, h⟩ := h
  · cases h with
    | gives h => exact .inl (h.bind_uniform (f := fun a => pure (f a)) (.gives (.pure K _ _)))
    | breaks h => exact .inl (.breaks (h.bind fun a => pure (f a)))
  · refine .inr ⟨hallowed, fun {s e} hs hkind => ?_⟩
    obtain ⟨a, t, hrun, ht, hlength⟩ := h hs hkind
    exact ⟨f a, t, map_of_ok hrun f, ht, hlength⟩

end Maps

/-- In front of every barrier, a run over the items gets to the barrier with the new errors, and
    goes on there as another parser. -/
structure Leads (K : Barrier) (w : List Item) (p q : Parser α) (new : List OpenError) : Prop where
  run : ∀ {s : State} {e : Ending}, s.Before K w e → ∃ t : State, p s = q t ∧ t.Before K [] e ∧
    t.errors = s.errors ++ new.map (OpenError.close e.item.token)

theorem Leads.refl (K : Barrier) (p : Parser α) : Leads K [] p p [] :=
  ⟨fun {s _} hs => ⟨s, rfl, hs, (List.append_nil _).symm⟩⟩

/-- A parser after a uniform run. -/
theorem Gives.bind_leads {w w' : List Item} {p : Parser α} {f : α → Parser β} {q : Parser β}
    {a : α} {new new' : List OpenError} (hp : Gives K w p a w' new)
    (hf : Leads K w' (f a) q new') : Leads K w (p >>= f) q (new ++ new') := by
  refine ⟨fun {s e} hs => ?_⟩
  obtain ⟨t, hrun, ht, herrors⟩ := hp.run hs
  obtain ⟨u, hrun', hu, herrors'⟩ := hf.run ht
  refine ⟨u, (bind_of_ok hrun).trans hrun', hu, ?_⟩
  rw [herrors', herrors, List.map_append, List.append_assoc]

/-- A parser after a uniform run without errors. -/
theorem Gives.quiet_bind_leads {w w' : List Item} {p : Parser α} {f : α → Parser β} {q : Parser β}
    {a : α} {new : List OpenError} (hp : Gives K w p a w' []) (hf : Leads K w' (f a) q new) :
    Leads K w (p >>= f) q new := hp.bind_leads hf

/-- What a repetition does over the items: it is uniform, or it gets to the barrier with some
    results, or in front of an end of input it gets there with an error, where that is allowed. -/
inductive LoopOn (K : Barrier) (m : Escape) (w : List Item) (step : Parser (Option α)) : Prop where
  | uniform : Uniform K w (many step) → LoopOn K m w step
  | leads {found : List α} {new : List OpenError} :
      Leads K w (many step) ((found ++ ·) <$> many step) new → LoopOn K m w step
  | runsOut : m.Allowed K w → RunsOut K w (many step) 1 → LoopOn K m w step

section Repetition

variable {m : Escape} {step : Parser (Option α)} {w rest rest' : List Item} {a : α} {as : List α}
  {new new' : List OpenError} {trouble : Trouble}

/-- A repetition ends where its step gives nothing. -/
theorem Gives.many_nil (h : Gives K w step none rest new) : Gives K w (many step) [] rest new := by
  refine ⟨h.suffix, fun {s e} hs => ?_⟩
  obtain ⟨t, hrun, ht, herrors⟩ := h.run hs
  exact ⟨t, by rw [many_apply, hrun], ht, herrors⟩

/-- A repetition goes on behind what its step has read. -/
theorem Gives.many_run (h : Gives K w step (some a) rest new) (hless : rest.length < w.length)
    {s : State} {e : Ending} (hs : s.Before K w e) :
    ∃ t : State, many step s = ((a :: ·) <$> many step) t ∧ t.Before K rest e ∧
      t.errors = s.errors ++ new.map (OpenError.close e.item.token) := by
  obtain ⟨t, hrun, ht, herrors⟩ := h.run hs
  refine ⟨t, Takes.many_of_some hrun ?_, ht, herrors⟩
  rw [hs.remaining_eq, ht.remaining_eq]
  exact Nat.add_lt_add_right hless _

theorem Gives.many_cons (h : Gives K w step (some a) rest new) (hless : rest.length < w.length)
    (hrest : Gives K rest (many step) as rest' new') :
    Gives K w (many step) (a :: as) rest' (new ++ new') := by
  refine ⟨hrest.suffix.trans h.suffix, fun {s e} hs => ?_⟩
  obtain ⟨t, hmany, ht, herrors⟩ := h.many_run hless hs
  obtain ⟨u, hrun, hu, herrors'⟩ := hrest.run ht
  refine ⟨u, hmany.trans (map_of_ok hrun _), hu, ?_⟩
  rw [herrors', herrors, List.map_append, List.append_assoc]

theorem Gives.many_breaks (h : Gives K w step (some a) rest new) (hless : rest.length < w.length)
    (hrest : Breaks K rest (many step) trouble rest' new') :
    Breaks K w (many step) trouble rest' (new ++ new') := by
  refine ⟨hrest.suffix.trans h.suffix, fun {s e} hs => ?_⟩
  obtain ⟨t, hmany, ht, herrors⟩ := h.many_run hless hs
  obtain ⟨u, hrun, hu, herrors'⟩ := hrest.run ht
  refine ⟨u, hmany.trans (map_of_error hrun _), hu, ?_⟩
  rw [herrors', herrors, List.map_append, List.append_assoc]

theorem Gives.many_leads (h : Gives K w step (some a) rest new) (hless : rest.length < w.length)
    (hrest : Leads K rest (many step) ((as ++ ·) <$> many step) new') :
    Leads K w (many step) ((a :: as ++ ·) <$> many step) (new ++ new') := by
  refine ⟨fun {s e} hs => ?_⟩
  obtain ⟨t, hmany, ht, herrors⟩ := h.many_run hless hs
  obtain ⟨u, hmany', hu, herrors'⟩ := hrest.run ht
  refine ⟨u, hmany.trans (map_of_map hmany' _), hu, ?_⟩
  rw [herrors', herrors, List.map_append, List.append_assoc]

theorem Gives.many_runsOut (h : Gives K w step (some a) rest new) (hless : rest.length < w.length)
    (hrest : RunsOut K rest (many step) 1) : RunsOut K w (many step) 1 := by
  intro s e hs hend
  obtain ⟨t, hmany, ht, herrors⟩ := h.many_run hless hs
  obtain ⟨as, u, hrun, hu, hlength⟩ := hrest ht hend
  refine ⟨a :: as, u, hmany.trans (map_of_ok hrun _), hu, Nat.le_trans ?_ hlength⟩
  rw [herrors, List.length_append]
  omega

/-- One more step in front of a repetition. -/
theorem Gives.loopOn (h : Gives K w step (some a) rest new) (hless : rest.length < w.length)
    (hrest : LoopOn K m rest step) : LoopOn K m w step := by
  cases hrest with
  | uniform hrest =>
    cases hrest with
    | gives hrest => exact .uniform (.gives (h.many_cons hless hrest))
    | breaks hrest => exact .uniform (.breaks (h.many_breaks hless hrest))
  | leads hrest => exact .leads (h.many_leads hless hrest)
  | runsOut hallowed hrest =>
    exact .runsOut (hallowed.of_suffix h.suffix) (h.many_runsOut hless hrest)

/-- Without progress a repetition ends, in front of whatever barrier. -/
theorem Gives.many_idle (h : Gives K w step (some a) rest new) (hless : ¬ rest.length < w.length) :
    Gives K w (many step) [a] rest new := by
  refine ⟨h.suffix, fun {s e} hs => ?_⟩
  obtain ⟨t, hrun, ht, herrors⟩ := h.run hs
  refine ⟨t, ?_, ht, herrors⟩
  rw [many_apply, hrun]
  dsimp only
  rw [hs.remaining_eq, ht.remaining_eq, if_neg (by omega)]

theorem Breaks.many (h : Breaks K w step trouble rest new) :
    Breaks K w (many step) trouble rest new := by
  refine ⟨h.suffix, fun {s e} hs => ?_⟩
  obtain ⟨t, hrun, ht, herrors⟩ := h.run hs
  exact ⟨t, by rw [many_apply, hrun], ht, herrors⟩

/-- If a step gets to the end of input, the repetition ends there. -/
theorem RunsOut.many {x : Item} {count : Nat} (h : RunsOut K (x :: w) step count)
    (hend : ∀ {s : State}, s.cursor.kind = .endOfInput → step s = .ok none s) :
    RunsOut K (x :: w) (many step) count := by
  intro s e hs hkind
  obtain ⟨found, t, hrun, ht, hlength⟩ := h hs hkind
  cases found with
  | none => exact ⟨[], t, by rw [many_apply, hrun], ht, hlength⟩
  | some a =>
    have hless : t.cursor.remaining < s.cursor.remaining := by
      rw [hs.remaining_eq, ht.remaining_eq, List.length_cons, List.length_nil]
      omega
    have hstop : Parse.many step t = .ok [] t := by
      rw [many_apply, hend (by rw [Cursor.kind, ht.current_eq]; exact hkind)]
    exact ⟨[a], t, (Takes.many_of_some hrun hless).trans (map_of_ok hstop _), ht, hlength⟩

/-- A repetition of a step that is uniform over items, or gets to the end of input with an
    error. -/
theorem loopOn_many (hstep : ∀ x w, RunsOn K m 1 (x :: w) step)
    (hend : ∀ {s : State}, s.cursor.kind = .endOfInput → step s = .ok none s) (w : List Item) :
    LoopOn K m w step := by
  -- Steps that give something without progress end the repetition, so the induction is on how
  -- many items are left.
  induction hlength : w.length using Nat.strongRecOn generalizing w with
  | ind length ih =>
    cases w with
    | nil =>
      have hleads : Leads K [] (many step) (([] ++ ·) <$> many step) [] := by
        rw [show (fun as : List α => [] ++ as) = id from rfl, id_map]
        exact Leads.refl K _
      exact .leads hleads
    | cons x w =>
      obtain hstep | ⟨hallowed, hruns⟩ := hstep x w
      · cases hstep with
        | breaks h => exact .uniform (.breaks h.many)
        | @gives found rest new h =>
          cases found with
          | none => exact .uniform (.gives h.many_nil)
          | some a =>
            by_cases hless : rest.length < (x :: w).length
            · exact h.loopOn hless (ih _ (hlength ▸ hless) rest rfl)
            · exact .uniform (.gives (h.many_idle hless))
      · exact .runsOut hallowed (hruns.many hend)

/-- A repetition that gets to the barrier and stops there. -/
theorem Leads.gives (h : Leads K w (many step) ((as ++ ·) <$> many step) new)
    (hstop : ∀ {s : State}, K.stops s.cursor.current → step s = .ok none s) :
    Gives K w (many step) as [] new := by
  refine ⟨List.nil_suffix, fun {s e} hs => ?_⟩
  obtain ⟨t, hmany, ht, herrors⟩ := h.run hs
  have hnone : many step t = .ok [] t := by
    rw [many_apply, hstop (by rw [ht.current_eq]; exact ht.stops)]
  refine ⟨t, ?_, ht, herrors⟩
  rw [hmany, map_of_ok hnone, List.append_nil]

/-- In front of an end of input, a repetition that gets to the barrier ends there. -/
theorem Leads.runsOut (h : Leads K w (many step) ((as ++ ·) <$> many step) new)
    (hend : ∀ {s : State}, s.cursor.kind = .endOfInput → step s = .ok none s) :
    RunsOut K w (many step) 0 := by
  intro s e hs hkind
  obtain ⟨t, hmany, ht, herrors⟩ := h.run hs
  have hnone : many step t = .ok [] t := by
    rw [many_apply, hend (by rw [Cursor.kind, ht.current_eq]; exact hkind)]
  refine ⟨as ++ [], t, hmany.trans (map_of_ok hnone _), ht, ?_⟩
  rw [herrors, List.length_append]
  omega

/-- A repetition of a step that is uniform over items and stops at every barrier. -/
theorem uniform_many (hstep : ∀ x w, Uniform K (x :: w) step)
    (hend : ∀ {s : State}, s.cursor.kind = .endOfInput → step s = .ok none s)
    (hstop : ∀ {s : State}, K.stops s.cursor.current → step s = .ok none s) (w : List Item) :
    Uniform K w (many step) := by
  have hloop : LoopOn K .never w step := loopOn_many (fun x w => .inl (hstep x w)) hend w
  cases hloop with
  | uniform h => exact h
  | leads h => exact .gives (h.gives hstop)
  | runsOut hallowed _ => exact hallowed.elim

/-- A repetition that stops at the end of input. -/
theorem LoopOn.runsOn (h : LoopOn K m w step)
    (hend : ∀ {s : State}, s.cursor.kind = .endOfInput → step s = .ok none s) :
    RunsOn K .opened 0 w (many step) := by
  cases h with
  | uniform h => exact .inl h
  | leads h =>
    by_cases hends : K.Ends
    · exact .inl (.gives (h.gives fun hs => hend (hends _ hs)))
    · exact .inr ⟨hends, h.runsOut hend⟩
  | runsOut hallowed h =>
    refine .inr ⟨hallowed.not_ends, fun {s e} hs hkind => ?_⟩
    obtain ⟨as, t, hrun, ht, hlength⟩ := h hs hkind
    exact ⟨as, t, hrun, ht, by omega⟩

end Repetition

end Parse

end Storyboard
