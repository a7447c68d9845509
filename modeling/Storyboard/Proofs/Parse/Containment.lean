/-
  Storyboard.Proofs.Parse.Containment

  Errors inside a block stay inside it. Between the braces of a scene or a function may
  stand any tokens but braces: whatever is wrong with them, the block is closed by its
  brace, its body and its errors depend on nothing that follows, and what follows is
  read as if it were a text of its own.
-/
import Storyboard.Proofs.Parse.Resuming

namespace Storyboard

namespace Parse

open Grammar

-- ============================================================================
-- The body
-- ============================================================================

/-- Closing braces as barriers. -/
def Barrier.atClosing : Barrier where
  stops item := item.token.kind = .rightBrace
  bars h := by rw [h]; rfl
  endsReturn h := .inl h

theorem Barrier.resumes_atClosing : Barrier.atClosing.Resumes true := by
  intro item hitem
  have hkind : item.token.kind = .rightBrace := hitem
  simp [resumesAt, hkind]

/-- Inside a block there are no more statements at a closing brace. -/
theorem statementStep_at_closing {one : Parser Stmt} {inBlock : Bool} {s : State}
    (hs : s.cursor.current.token.kind = .rightBrace) :
    statementStep inBlock false one s = .ok none s := by
  rw [statementStep, bind_of_ok (peek_eq s)]
  simp [hs, pure, EStateM.pure]

/-- Tokens without braces in front of a closing one are the body of a block, with errors that do
    not depend on what follows. -/
theorem statements_gives {room : Nat} (hroom : room < maxDepth) {inside : List Token}
    {closing : Token} (hclosing : closing.kind = .rightBrace)
    (hinside : ∀ token ∈ inside, token.kind ≠ .leftBrace ∧ token.kind ≠ .rightBrace ∧
      token.kind ≠ .endOfInput)
    (hnumbers : NumbersReadable inside) :
    ∃ body new, Gives .atClosing (markLines false inside) (statements room false) body [] new := by
  have hresumes : Barrier.atClosing.Resumes (inBlockAt room) := by
    rw [inBlockAt, decide_eq_true hroom]
    exact Barrier.resumes_atClosing
  -- The tokens with just the closing brace behind them are an input on which it can be seen that
  -- the body does not fail and does not end early.
  obtain ⟨startsLine, hmark⟩ := markLines_append_cons (by rw [hclosing]; decide) false inside
  have hs := State.before_ofTokens (K := .atClosing) (hmark []) hclosing
  have hmany : ∃ found new, Gives .atClosing (markLines false inside)
      (many (stepAt room false)) found [] new := by
    cases loopOn_statements room hresumes false (markLines false inside) with
    | leads h => exact ⟨_, _, h.gives statementStep_at_closing⟩
    | runsOut hallowed h =>
      obtain ⟨-, item, hitem, hbrace⟩ := hallowed
      exact absurd hbrace (hinside _ (mem_of_mem_markLines hitem)).1
    | uniform h =>
      have hreadable : NumbersReadable (inside ++ [closing]) := by
        intro token htoken hkind
        obtain htoken | htoken := List.mem_append.mp htoken
        · exact hnumbers token htoken hkind
        · rw [List.mem_singleton.mp htoken, hclosing] at hkind
          cases hkind
      obtain ⟨found, rest, new, h, hends⟩ := h.exists_gives hs hreadable
      cases rest with
      | nil => exact ⟨found, new, h⟩
      | cons item rest =>
        have htoken := hinside _ (mem_of_mem_markLines (h.suffix.subset List.mem_cons_self))
        simp [endsBody, htoken] at hends
  obtain ⟨found, new, h⟩ := hmany
  have hbody := h.bind (f := fun found => pure (found.filterMap id)) (.pure .atClosing [] _)
  exact ⟨_, _, hbody⟩

-- ============================================================================
-- The head
-- ============================================================================

/-- A name with its place. -/
inductive NameAt : List Item → Identifier → Prop where
  | mk {item : Item} : item.token.kind = .identifier →
      NameAt [item] ⟨item.token.text, item.token.location⟩

/-- What stands before the brace that opens a named block, and the statement that it makes of a
    body. -/
inductive BlockHead : List Item → (List Stmt → Stmt) → Prop where
  | scene {word name : Item} :
      word.token.kind = .keyword (.statement .sceneWord) → name.token.kind = .identifier →
      BlockHead [word, name] fun body => .scene name.token.text body word.token.location
  | function {word name left right : Item} {w : List Item} {parameters : List Identifier} :
      word.token.kind = .keyword (.statement .fnWord) → name.token.kind = .identifier →
      left.token.kind = .leftParen → Separated NameAt w parameters →
      right.token.kind = .rightParen →
      BlockHead (word :: name :: left :: (w ++ [right])) fun body =>
        .function ⟨name.token.text, name.token.location⟩ parameters body word.token.location

theorem BlockHead.exists_cons {head : List Item} {make : List Stmt → Stmt}
    (h : BlockHead head make) : ∃ x w, head = x :: w ∧ x.token.kind ≠ .endOfInput := by
  cases h with
  | scene hword _ => exact ⟨_, _, rfl, by rw [hword]; decide⟩
  | function hword _ _ _ _ => exact ⟨_, _, rfl, by rw [hword]; decide⟩

section Heads

variable {K : Barrier} {w rest : List Item}

theorem newName_gives {id : Identifier} (h : NameAt w id) (text : String) (hint : Option String)
    (K : Barrier) (rest : List Item) : Gives K (w ++ rest) (newName text hint) id rest [] := by
  cases h with
  | mk hkind => exact (Gives.expect hkind text hint K rest).bind (.pure K rest _)

/-- Names that follow others, up to something that is no comma. -/
theorem commas_give {names : List Identifier} (h : CommaTail NameAt w names) (text : String)
    (hint : Option String) {next : Item} (hnext : next.token.kind ≠ .comma) :
    Gives K (w ++ next :: rest) (many (commaStep (newName text hint))) names (next :: rest) [] := by
  induction h with
  | done =>
    have hnone : Gives K (next :: rest) (accept (· = .comma)) none (next :: rest) [] :=
      .accept_none (w := next :: rest) fun _ _ => by simpa using hnext
    have hstep : Gives K (next :: rest) (commaStep (newName text hint)) none (next :: rest) [] :=
      hnone.bind (.pure K _ _)
    exact hstep.many_nil
  | @more comma name later id names hcomma hname hlater ih =>
    have hsome : Gives K (comma :: (name ++ (later ++ next :: rest))) (accept (· = .comma))
        (some comma.token) (name ++ (later ++ next :: rest)) [] :=
      .accept_some (by simpa using hcomma) K _
    have hone := (newName_gives hname text hint K (later ++ next :: rest)).bind
      (f := fun id => pure (some id)) (.pure K _ _)
    have hless : (later ++ next :: rest).length <
        (comma :: (name ++ (later ++ next :: rest))).length := by
      simp only [List.length_cons, List.length_append]
      omega
    rw [List.cons_append, List.append_assoc]
    exact (hsome.bind hone).many_cons hless ih

/-- A list of names, up to the parenthesis that closes it. -/
theorem names_give {names : List Identifier} (h : Separated NameAt w names) (text : String)
    (hint : Option String) {right : Item} (hright : right.token.kind = .rightParen) :
    Gives K (w ++ right :: rest) (separated (newName text hint)) names (right :: rest) [] := by
  rw [separated_eq]
  cases h with
  | empty =>
    refine (Gives.peek K right rest).quiet_bind ?_
    rw [if_pos hright]
    exact .pure K _ _
  | @listed name later id names hname hlater =>
    cases hname with
    | @mk item hkind =>
      have hothers : Gives K (later ++ right :: rest) (many (commaStep (newName text hint))) names
          (right :: rest) [] := commas_give hlater text hint (by rw [hright]; decide)
      refine (Gives.peek K item (later ++ right :: rest)).quiet_bind ?_
      rw [if_neg (by rw [hkind]; decide)]
      exact (newName_gives (.mk hkind) text hint K _).bind (hothers.bind (.pure K _ _))

/-- A block with a given body leads to the brace that closes it. -/
theorem block_leads {β : Type} {body : Parser (List Stmt)} {found : List Stmt}
    {new : List OpenError} (hbody : Gives K w body found [] new) {opening : Item}
    (hopening : opening.token.kind = .leftBrace) (before after : String)
    (f : List Stmt → Parser β) :
    Leads K (opening :: w) (blockWith body before after >>= f)
      (expect .rightBrace after none >>= fun _ => f found) new := by
  have hblock : (blockWith body before after >>= f) = expect .leftBrace before none >>= fun _ =>
      body >>= fun found => expect .rightBrace after none >>= fun _ => f found := by
    simp only [blockWith, bind_assoc, pure_bind]
  rw [hblock]
  refine (Gives.expect hopening before none K w).quiet_bind_leads ?_
  rw [← List.append_nil new]
  exact hbody.bind_leads (.refl K _)

/-- A named block with a given body leads to the brace that closes it. -/
theorem statement_leads {head : List Item} {make : List Stmt → Stmt} (hhead : BlockHead head make)
    {below : Nat} {found : List Stmt} {new : List OpenError}
    (hbody : Gives K w (statements below false) found [] new) {opening : Item}
    (hopening : opening.token.kind = .leftBrace) :
    ∃ text, Leads K (head ++ opening :: w) (statement (below + 1))
      (expect .rightBrace text none >>= fun _ => pure (make found)) new := by
  cases hhead with
  | @scene word name hword hname =>
    refine ⟨"Expected \x7d after scene body", (Gives.peek K word _).quiet_bind_leads ?_⟩
    simp only [hword]
    refine (Gives.advance K word _).quiet_bind_leads ?_
    refine (newName_gives (.mk hname) _ _ K _).quiet_bind_leads ?_
    exact block_leads hbody hopening _ _ _
  | @function word name left right names parameters hword hname hleft hnames hright =>
    rw [show word :: name :: left :: (names ++ [right]) ++ opening :: w =
      word :: name :: left :: (names ++ right :: opening :: w) by simp]
    refine ⟨"Expected \x7d after function body", (Gives.peek K word _).quiet_bind_leads ?_⟩
    simp only [hword]
    refine (Gives.advance K word _).quiet_bind_leads ?_
    refine (newName_gives (.mk hname) _ _ K _).quiet_bind_leads ?_
    refine (Gives.expect hleft _ _ K _).quiet_bind_leads ?_
    refine (names_give hnames _ _ hright).quiet_bind_leads ?_
    refine (Gives.expect hright _ _ K _).quiet_bind_leads ?_
    exact block_leads hbody hopening _ _ _

end Heads

-- ============================================================================
-- Behind the block
-- ============================================================================

/-- A statement that leads to the brace that closes it is the first of the statements, and the
    others are read from behind the brace. -/
theorem statements_of_leads {room : Nat} {x : Item} {w : List Item} {text : String} {stmt : Stmt}
    {new : List OpenError} (h : Leads .atClosing (x :: w) (statement room)
      (expect .rightBrace text none >>= fun _ => pure stmt) new)
    (hx : x.token.kind ≠ .endOfInput) {s : State} {e : Ending} (hs : s.Before .atClosing (x :: w) e)
    (hlater : e.later ≠ []) :
    ∃ u : State, statements room true s = (([stmt] ++ ·) <$> statements room true) u ∧
      u.cursor.items = e.later ∧
      u.errors = s.errors ++ new.map (OpenError.close e.item.token) := by
  obtain ⟨t, hrun, ht, herrors⟩ := h.run hs
  obtain ⟨next, others, hnext⟩ := List.exists_cons_of_ne_nil hlater
  have hadvance : t.cursor.advance = ⟨next, others, t.cursor.index + 1⟩ := by
    rw [Cursor.advance, (List.cons.inj ht.items_eq).2, hnext]
  have hclosing : t.cursor.kind = .rightBrace := by
    rw [Cursor.kind, ht.current_eq]
    exact ht.stops
  have hstatement : statement room s = .ok stmt { t with cursor := t.cursor.advance } := by
    rw [hrun]
    refine bind_of_ok (a := t.cursor.current.token) ?_
    rw [expect_apply, if_pos hclosing]
    rfl
  have hstep : stepAt room true s =
      .ok (some (some stmt)) { t with cursor := t.cursor.advance } := by
    have hattempt : attempt (inBlockAt room) (statement room) s =
        .ok (some stmt) { t with cursor := t.cursor.advance } := by
      rw [attempt, hstatement]
    rw [stepAt, statementStep_eq_attempt (by rw [Cursor.kind, hs.current_eq]; exact hx)]
    exact map_of_ok hattempt some
  -- The round has moved on, so the loop goes on from behind the brace.
  have hless : t.cursor.advance.remaining < s.cursor.remaining := by
    rw [hs.remaining_eq, hnext, hadvance, Cursor.remaining]
    simp only [List.length_cons]
    omega
  refine ⟨{ t with cursor := t.cursor.advance }, ?_, ?_, herrors⟩
  · have hmany : many (stepAt room true) s =
        (([some stmt] ++ ·) <$> many (stepAt room true)) { t with cursor := t.cursor.advance } :=
      Takes.many_of_some hstep hless
    exact statements_of_many hmany
  · rw [hadvance, hnext]
    rfl

end Parse

open Parse

/-- Errors inside a block stay inside it. Whatever stands between the braces of a scene or a
    function, but for more braces, there is one statement with the body and the errors that the
    tokens in front of the closing brace have for themselves, and then all statements and errors of
    the rest, as if it were parsed alone. -/
theorem parse_block_contained {head inside : List Token} {opening closing : Token}
    {make : List Stmt → Stmt} (hhead : BlockHead (markLines false head) make)
    (hopening : opening.kind = .leftBrace) (hclosing : closing.kind = .rightBrace)
    (hinside : ∀ token ∈ inside, token.kind ≠ .leftBrace ∧ token.kind ≠ .rightBrace ∧
      token.kind ≠ .endOfInput)
    (hnumbers : NumbersReadable inside) :
    ∃ body stop, statements (maxDepth - 1) false (.ofTokens (inside ++ [closing])) = .ok body stop ∧
      stop.cursor.current.token = closing ∧
      ∀ rest, parse (head ++ opening :: (inside ++ closing :: rest)) =
        (parse rest).map fun r => (⟨make body :: r.1.body, .start⟩, stop.errors ++ r.2) := by
  obtain ⟨flag, hmark⟩ := markLines_append_cons (by rw [hopening]; decide) false head
  obtain ⟨flag', hmark'⟩ := markLines_append_cons (by rw [hclosing]; decide) false inside
  have hroom : maxDepth - 1 < maxDepth := by decide
  -- The body is read in front of the closing brace alone first, and then with the rest behind it;
  -- the parser gives the same in front of both.
  obtain ⟨body, new, hbody⟩ := statements_gives hroom hclosing hinside hnumbers
  obtain ⟨stop, hrun, hstop, herrors⟩ := hbody.run (State.before_ofTokens (hmark' []) hclosing)
  refine ⟨body, stop, hrun, by rw [hstop.current_eq]; rfl, fun rest => ?_⟩
  have hitems : markLines false (head ++ opening :: (inside ++ closing :: rest)) =
      (markLines false head ++ ⟨opening, flag⟩ :: markLines false inside) ++
        ⟨closing, flag'⟩ :: markLines false rest := by
    rw [hmark, hmark', List.append_assoc, List.cons_append]
  have hs := State.before_ofTokens (K := .atClosing) hitems hclosing
  have hbrace : (Item.mk opening flag).token.kind = .leftBrace := hopening
  obtain ⟨text, hleads⟩ := statement_leads hhead hbody hbrace
  obtain ⟨x, w, hcons, hx⟩ := hhead.exists_cons
  have hlast : (Item.mk closing flag').token.kind ≠ .endOfInput := by
    rw [show (Item.mk closing flag').token.kind = .rightBrace from hclosing]
    decide
  rw [hcons, List.cons_append] at hs hleads
  rw [show maxDepth - 1 + 1 = maxDepth from rfl] at hleads
  obtain ⟨u, hstatements, hu, herrors'⟩ :=
    statements_of_leads hleads hx hs (closeAfter_ne_nil hlast _)
  rw [parse_eq_outcome, hstatements, outcome_map, outcome_statements_closeAfter hlast hu,
    parse_eq_outcome]
  have hsame : u.errors = stop.errors := by
    rw [herrors, herrors']
    rfl
  cases outcome (statements maxDepth true (.ofTokens rest)) with
  | ok r => simp only [Except.map, hsame, List.singleton_append]
  | error failure => rfl

/-- A function with parameters on two lines, and in its body an unfinished `let`, a stray
    parenthesis and an expression that runs into the closing brace. -/
theorem parse_block_contained_sample :
    let head : List Token := [⟨.keyword (.statement .fnWord), "fn", ⟨1, 1⟩⟩,
      ⟨.identifier, "f", ⟨1, 4⟩⟩, ⟨.leftParen, "(", ⟨1, 5⟩⟩, ⟨.identifier, "a", ⟨1, 6⟩⟩,
      ⟨.comma, ",", ⟨1, 7⟩⟩, ⟨.newline, "\n", ⟨1, 8⟩⟩, ⟨.identifier, "b", ⟨2, 1⟩⟩,
      ⟨.rightParen, ")", ⟨2, 2⟩⟩]
    let opening : Token := ⟨.leftBrace, "\x7b", ⟨2, 4⟩⟩
    let inside := (tokenize "let x =\nlet y = 1 )\nlet z = (2 +").dropLast
    let closing : Token := ⟨.rightBrace, "\x7d", ⟨5, 1⟩⟩
    NumbersReadable inside ∧
      ∃ body stop,
        statements (maxDepth - 1) false (.ofTokens (inside ++ [closing])) = .ok body stop ∧
        body.length = 1 ∧ stop.errors.length = 3 ∧
        ∀ rest, parse (head ++ opening :: (inside ++ closing :: rest)) =
          (parse rest).map fun r =>
            (⟨.function ⟨"f", ⟨1, 4⟩⟩ [⟨"a", ⟨1, 6⟩⟩, ⟨"b", ⟨2, 1⟩⟩] body ⟨1, 1⟩ :: r.1.body,
              .start⟩, stop.errors ++ r.2) := by
  intro head opening inside closing
  have hhead : BlockHead (markLines false head) fun body =>
      .function ⟨"f", ⟨1, 4⟩⟩ [⟨"a", ⟨1, 6⟩⟩, ⟨"b", ⟨2, 1⟩⟩] body ⟨1, 1⟩ := by
    have hnames : Grammar.Separated NameAt ([⟨⟨.identifier, "a", ⟨1, 6⟩⟩, false⟩] ++
        (⟨⟨.comma, ",", ⟨1, 7⟩⟩, false⟩ :: ([⟨⟨.identifier, "b", ⟨2, 1⟩⟩, true⟩] ++ [])))
        [⟨"a", ⟨1, 6⟩⟩, ⟨"b", ⟨2, 1⟩⟩] := .listed (.mk rfl) (.more rfl (.mk rfl) .done)
    exact BlockHead.function rfl rfl rfl hnames rfl
  have hinside : ∀ token ∈ inside, token.kind ≠ .leftBrace ∧ token.kind ≠ .rightBrace ∧
      token.kind ≠ .endOfInput := by decide +kernel
  have hnumbers : NumbersReadable inside := by decide +kernel
  have hcount : (outcome (statements (maxDepth - 1) false
      (.ofTokens (inside ++ [closing])))).toOption.map (fun r => (r.1.length, r.2.length)) =
        some (1, 3) := by decide +kernel
  have hopening : opening.kind = .leftBrace := rfl
  have hclosing : closing.kind = .rightBrace := rfl
  obtain ⟨body, stop, hrun, -, hparse⟩ :=
    parse_block_contained hhead hopening hclosing hinside hnumbers
  rw [hrun] at hcount
  simp only [outcome, Except.toOption, Option.map_some, Option.some.injEq, Prod.mk.injEq] at hcount
  exact ⟨hnumbers, body, stop, hrun, hcount.1, hcount.2, hparse⟩

end Storyboard
