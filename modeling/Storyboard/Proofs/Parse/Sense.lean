/-
  Storyboard.Proofs.Parse.Sense

  What counts of a token for the parser, and that nothing else does.

  The sense of a token is its kind and its text; where it stands, and how a keyword is
  spelled, do not count. `Alike view p q` compares two runs, of `p` and of `q`, from
  states in which everything counts the same: either both succeed and `view` does not
  tell the results apart, or both fail in the same way; and the states that they leave
  count the same again. There is one rule for each way to put parsers together, so the
  two runs are followed through the grammar side by side. At the end the trees are the
  same, places apart, and there are as many errors (`parse_alike`).
-/
import Storyboard.Proofs.Parse.Reading
import Storyboard.Proofs.Tree.Bare

namespace Storyboard

-- ============================================================================
-- Tokens
-- ============================================================================

namespace Token

/-- What counts of a token: its kind, and its text unless that only spells a keyword. -/
def sense (token : Token) : Kind × Option String :=
  match token.kind with
  | .keyword word => (.keyword word, none)
  | kind => (kind, some token.text)

theorem sense_fst (token : Token) : token.sense.1 = token.kind := by
  unfold sense
  split
  · rename_i hkind
    rw [hkind]
  · rfl

theorem kind_eq_of_sense {a b : Token} (h : a.sense = b.sense) : a.kind = b.kind := by
  rw [← sense_fst a, ← sense_fst b, h]

/-- The text counts in all tokens but keywords. -/
theorem text_eq_of_sense {a b : Token} (h : a.sense = b.sense)
    (hkind : ∀ word, a.kind ≠ .keyword word) : a.text = b.text := by
  have hsense : ∀ token : Token, (∀ word, token.kind ≠ .keyword word) →
      token.sense.2 = some token.text := by
    intro token hword
    unfold sense
    split
    · rename_i word hkeyword
      exact absurd hkeyword (hword word)
    · rfl
  have hb : ∀ word, b.kind ≠ .keyword word := fun word => kind_eq_of_sense h ▸ hkind word
  have htext := congrArg Prod.snd h
  rw [hsense a hkind, hsense b hb] at htext
  exact Option.some.inj htext

end Token

namespace Parse

-- ============================================================================
-- States
-- ============================================================================

/-- What counts of an item. -/
def Item.sense (item : Item) : (Kind × Option String) × Bool := (item.token.sense, item.startsLine)

theorem Item.token_sense {a b : Item} (h : a.sense = b.sense) : a.token.sense = b.token.sense :=
  congrArg Prod.fst h

theorem Item.kind_eq {a b : Item} (h : a.sense = b.sense) : a.token.kind = b.token.kind :=
  Token.kind_eq_of_sense (token_sense h)

theorem Item.startsLine_eq {a b : Item} (h : a.sense = b.sense) : a.startsLine = b.startsLine :=
  congrArg Prod.snd h

/-- Two cursors at which the same is left to read. -/
structure Cursor.Alike (c d : Cursor) : Prop where
  items : c.items.map Item.sense = d.items.map Item.sense
  index : c.index = d.index

/-- Two states in which the same is left to read and as many errors were survived. -/
structure State.Alike (s t : State) : Prop where
  cursor : s.cursor.Alike t.cursor
  errors : s.errors.length = t.errors.length

namespace Cursor.Alike

variable {c d : Cursor}

theorem current (h : c.Alike d) : c.current.sense = d.current.sense :=
  (List.cons.inj h.items).1

theorem upcoming (h : c.Alike d) : c.upcoming.map Item.sense = d.upcoming.map Item.sense :=
  (List.cons.inj h.items).2

theorem kind (h : c.Alike d) : c.kind = d.kind := Item.kind_eq h.current

theorem remaining (h : c.Alike d) : c.remaining = d.remaining := by
  have hlength := congrArg List.length h.upcoming
  rw [List.length_map, List.length_map] at hlength
  exact hlength

theorem advance (h : c.Alike d) : c.advance.Alike d.advance := by
  obtain ⟨current, upcoming, index⟩ := c
  obtain ⟨current', upcoming', index'⟩ := d
  have hupcoming := h.upcoming
  have hindex : index = index' := h.index
  cases upcoming with
  | nil =>
    have hnil : upcoming' = [] := List.map_eq_nil_iff.mp hupcoming.symm
    subst hnil
    exact h
  | cons next others =>
    cases upcoming' with
    | nil => cases hupcoming
    | cons next' others' => exact ⟨hupcoming, congrArg (· + 1) hindex⟩

/-- Looking for an item ends at the same one if only what counts is looked at. -/
theorem seek (h : c.Alike d) {stops : Item → Bool}
    (hstops : ∀ a b : Item, a.sense = b.sense → stops a = stops b) :
    (c.seek stops).Alike (d.seek stops) := by
  obtain ⟨current, upcoming, index⟩ := c
  obtain ⟨current', upcoming', index'⟩ := d
  have hcurrent : current.sense = current'.sense := h.current
  have hupcoming := h.upcoming
  have hindex : index = index' := h.index
  -- The induction is on the items to come, with the two current ones left free.
  clear h
  unfold Cursor.seek
  dsimp only at hupcoming ⊢
  induction upcoming generalizing current current' upcoming' index index' with
  | nil =>
    have hnil : upcoming' = [] := List.map_eq_nil_iff.mp hupcoming.symm
    subst hnil
    exact ⟨congrArg (· :: []) hcurrent, hindex⟩
  | cons next others ih =>
    cases upcoming' with
    | nil => cases hupcoming
    | cons next' others' =>
      obtain ⟨hnext, hothers⟩ := List.cons.inj hupcoming
      unfold seekFrom
      rw [hstops current current' hcurrent]
      split
      · exact ⟨List.cons_eq_cons.mpr ⟨hcurrent, hupcoming⟩, hindex⟩
      · exact ih next (index + 1) next' others' (index' + 1) hnext hothers (congrArg (· + 1) hindex)

end Cursor.Alike

theorem State.Alike.advance {s t : State} (h : s.Alike t) :
    State.Alike { s with cursor := s.cursor.advance } { t with cursor := t.cursor.advance } :=
  ⟨h.cursor.advance, h.errors⟩

/-- One more error on each side. -/
theorem State.Alike.record {s t : State} (h : s.Alike t) (error error' : SyntaxError) :
    (s.record error).Alike (t.record error') := by
  refine ⟨h.cursor, ?_⟩
  rw [State.record, State.record, List.length_append, List.length_append, h.errors]
  rfl

/-- Recovery looks at kinds, line starts and the index only. -/
theorem State.Alike.recover {s t : State} (h : s.Alike t) (inBlock : Bool) (start : Int) :
    (s.recover inBlock start).Alike (t.recover inBlock start) := by
  have hstops : ∀ a b : Item, a.sense = b.sense → resumesAt inBlock a = resumesAt inBlock b := by
    intro a b hab
    simp only [resumesAt, Item.kind_eq hab, Item.startsLine_eq hab]
  refine ⟨?_, h.errors⟩
  unfold State.recover
  dsimp only
  rw [h.cursor.index]
  split
  · exact h.cursor.advance.seek hstops
  · exact h.cursor.seek hstops

-- ============================================================================
-- Two runs
-- ============================================================================

/-- Two runs that end alike. -/
inductive Ends {α γ : Type} (view : α → γ) :
    EStateM.Result Failure State α → EStateM.Result Failure State α → Prop where
  | ok {a b s t} : view a = view b → s.Alike t → Ends view (.ok a s) (.ok b t)
  | rejected {error error' s t} : s.Alike t →
      Ends view (.error (.rejected error) s) (.error (.rejected error') t)
  | notNumber {text s t} : s.Alike t →
      Ends view (.error (.notNumber text) s) (.error (.notNumber text) t)

/-- Parsers whose runs from states that are alike end alike. -/
def Alike {α γ : Type} (view : α → γ) (p q : Parser α) : Prop :=
  ∀ s t, s.Alike t → Ends view (p s) (q t)

namespace Alike

variable {α β γ δ : Type} {view : α → γ} {view' : β → δ}

theorem pure {a b : α} (h : view a = view b) :
    Alike view (Pure.pure a : Parser α) (Pure.pure b) := fun _ _ hs => .ok h hs

theorem reject (problem problem' : SyntaxProblem) :
    Alike view (reject problem : Parser α) (reject problem') := fun _ _ hs => .rejected hs

theorem bind {p q : Parser α} {f g : α → Parser β} (hp : Alike view p q)
    (hf : ∀ a b, view a = view b → Alike view' (f a) (g b)) :
    Alike view' (p >>= f) (q >>= g) := by
  intro s t hs
  change Ends view' (EStateM.bind p f s) (EStateM.bind q g t)
  unfold EStateM.bind
  generalize hfirst : p s = first
  generalize hsecond : q t = second
  have hends := hp s t hs
  rw [hfirst, hsecond] at hends
  cases hends with
  | ok hview hnext => exact hf _ _ hview _ _ hnext
  | rejected hnext => exact .rejected hnext
  | notNumber hnext => exact .notNumber hnext

/-- Results that a view does not tell apart, seen through what is made of them. -/
theorem map {p q : Parser α} {f : α → β} (hp : Alike view p q)
    (hf : ∀ a b, view a = view b → view' (f a) = view' (f b)) :
    Alike view' (f <$> p) (f <$> q) := hp.bind fun a b hab => .pure (hf a b hab)

theorem peek : Alike Item.sense peek peek := fun _ _ hs => .ok hs.cursor.current hs

theorem advance : Alike Token.sense advance advance :=
  fun _ _ hs => .ok (Item.token_sense hs.cursor.current) hs.advance

theorem unexpected : Alike view (unexpected : Parser α) Parse.unexpected :=
  fun _ _ hs => .rejected hs

/-- A token that has to come next, and what follows. The texts of the error do not count. -/
theorem expect_bind {kind : Kind} {text text' : String} {hint hint' : Option String}
    {f g : Token → Parser β}
    (h : ∀ a b, a.sense = b.sense → a.kind = kind → Alike view' (f a) (g b)) :
    Alike view' (expect kind text hint >>= f) (expect kind text' hint' >>= g) := by
  intro s t hs
  change Ends view' (EStateM.bind (expect kind text hint) f s)
    (EStateM.bind (expect kind text' hint') g t)
  rw [EStateM.bind, EStateM.bind, expect_apply, expect_apply, ← hs.cursor.kind]
  by_cases hkind : s.cursor.kind = kind
  · rw [if_pos hkind, if_pos hkind]
    exact h _ _ (Item.token_sense hs.cursor.current) hkind _ _ hs.advance
  · rw [if_neg hkind, if_neg hkind]
    exact .rejected hs

/-- A token that may come next, with what follows in either case. -/
theorem accept_bind {wanted : Kind → Bool} {f g : Option Token → Parser β}
    (hsome : ∀ a b, a.sense = b.sense → wanted a.kind = true →
      Alike view' (f (some a)) (g (some b)))
    (hnone : Alike view' (f none) (g none)) :
    Alike view' (accept wanted >>= f) (accept wanted >>= g) := by
  intro s t hs
  change Ends view' (EStateM.bind (accept wanted) f s) (EStateM.bind (accept wanted) g t)
  rw [EStateM.bind, EStateM.bind, accept_apply, accept_apply, ← hs.cursor.kind]
  by_cases hwanted : wanted s.cursor.kind = true
  · rw [if_pos hwanted, if_pos hwanted]
    exact hsome _ _ (Item.token_sense hs.cursor.current) hwanted _ _ hs.advance
  · rw [if_neg hwanted, if_neg hwanted]
    exact hnone s t hs

/-- The rounds of two loops go side by side; the induction is on what is left to read. -/
theorem many {item item' : Parser (Option α)} (h : Alike (Option.map view) item item') :
    Alike (List.map view) (many item) (many item') := by
  intro s t hs
  induction hn : s.cursor.remaining using Nat.strongRecOn generalizing s t with
  | ind n ih =>
    rw [many_apply, many_apply]
    have hround := h s t hs
    generalize item s = first at hround ⊢
    generalize item' t = second at hround ⊢
    cases hround with
    | rejected hnext => exact .rejected hnext
    | notNumber hnext => exact .notNumber hnext
    | @ok a? b? s' t' hview hnext =>
      cases a? with
      | none =>
        cases b? with
        | none => exact .ok rfl hnext
        | some b => cases hview
      | some a =>
        cases b? with
        | none => cases hview
        | some b =>
          have hab : view a = view b := Option.some.inj hview
          dsimp only
          -- As much is left to both, so both go on or both stop here.
          rw [← hnext.cursor.remaining, ← hs.cursor.remaining]
          split
          · rename_i hlt
            have hrest := ih _ (hn ▸ hlt) s' t' hnext rfl
            generalize Parse.many item s' = others at hrest ⊢
            generalize Parse.many item' t' = others' at hrest ⊢
            cases hrest with
            | ok hothers hend => exact .ok (List.cons_eq_cons.mpr ⟨hab, hothers⟩) hend
            | rejected hend => exact .rejected hend
            | notNumber hend => exact .notNumber hend
          · exact .ok (congrArg (· :: []) hab) hnext

/-- The rounds of two loops that gave something. -/
theorem many_filterMap {item item' : Parser (Option (Option α))}
    (h : Alike (Option.map (Option.map view)) item item') :
    Alike (List.map view) (Parse.many item >>= fun found => Pure.pure (found.filterMap id))
      (Parse.many item' >>= fun found => Pure.pure (found.filterMap id)) := by
  refine h.many.bind fun found found' hfound => .pure ?_
  have hview : ∀ found : List (Option α),
      (found.filterMap id).map view = (found.map (Option.map view)).filterMap id := by
    intro found
    rw [List.map_filterMap, List.filterMap_map]
    rfl
  rw [hview, hview, hfound]

/-- Both sides recover from an error in the same way. -/
theorem attempt {one one' : Parser Stmt} (h : Alike Stmt.bare one one') (inBlock : Bool) :
    Alike (Option.map Stmt.bare) (attempt inBlock one) (attempt inBlock one') := by
  intro s t hs
  unfold Parse.attempt
  have hends := h s t hs
  generalize one s = first at hends ⊢
  generalize one' t = second at hends ⊢
  cases hends with
  | ok hview hnext => exact .ok (congrArg some hview) hnext
  | rejected hnext =>
    rw [hs.cursor.index]
    exact .ok rfl ((hnext.record _ _).recover inBlock _)
  | notNumber hnext => exact .notNumber hnext

end Alike

-- ============================================================================
-- Expressions
-- ============================================================================

theorem separated_alike {α γ : Type} {view : α → γ} {item : Parser α} (h : Alike view item item) :
    Alike (List.map view) (separated item) (separated item) := by
  have hstep : Alike (Option.map view) (commaStep item) (commaStep item) :=
    .accept_bind (fun _ _ _ _ => h.map fun a b hab => congrArg some hab) (.pure rfl)
  rw [separated_eq]
  refine Alike.peek.bind fun start start' hstart => ?_
  rw [Item.kind_eq hstart]
  split
  · exact .pure rfl
  · exact h.bind fun _ _ hfirst => hstep.many.bind fun _ _ hothers =>
      .pure (List.cons_eq_cons.mpr ⟨hfirst, hothers⟩)

theorem numberOf_alike {token token' : Token} (h : token.text = token'.text) :
    Alike Expr.bare (numberOf token) (numberOf token') := by
  unfold numberOf
  rw [h]
  split
  · exact .pure rfl
  · exact fun _ _ hs => .notNumber hs

section WithNested

variable {nested : Parser Expr} (h : Alike Expr.bare nested nested)
include h

theorem primaryWith_alike : Alike Expr.bare (primaryWith nested) (primaryWith nested) := by
  unfold primaryWith
  refine Alike.peek.bind fun start start' hstart => ?_
  have htext := Token.text_eq_of_sense (Item.token_sense hstart)
  dsimp only
  rw [← Item.kind_eq hstart]
  generalize start.token.kind = kind at htext ⊢
  split
  · exact Alike.advance.bind fun _ _ _ => numberOf_alike (htext (by simp))
  · refine Alike.advance.bind fun _ _ _ => .pure ?_
    rw [Expr.bare_string, Expr.bare_string, htext (by simp)]
  · refine Alike.advance.bind fun _ _ _ => .pure ?_
    rw [Expr.bare_color, Expr.bare_color, htext (by simp)]
  · refine Alike.advance.bind fun _ _ _ => .pure ?_
    rw [Expr.bare_identifier, Expr.bare_identifier, Identifier.bare, Identifier.bare, htext (by simp)]
  · exact Alike.advance.bind fun _ _ _ => h.bind fun _ _ hinner =>
      .expect_bind fun _ _ _ _ => .pure hinner
  · exact .unexpected

theorem pointWith_alike (what hint : String) :
    Alike Point.bare (pointWith nested what hint) (pointWith nested what hint) :=
  .expect_bind fun _ _ _ _ => h.bind fun _ _ hx =>
    .expect_bind fun _ _ _ _ => h.bind fun _ _ hy =>
      .expect_bind fun _ _ _ _ => .pure (by simp only [Point.bare, hx, hy])

theorem clauseWith_alike (kind : Kind) (keyword hint : String) :
    Alike Expr.bare (clauseWith nested kind keyword hint) (clauseWith nested kind keyword hint) :=
  .expect_bind fun _ _ _ _ => h

/-- Shapes at two places. -/
theorem shapeWith_alike : Alike Expr.bare (shapeWith nested) (shapeWith nested) := by
  have hpoint := pointWith_alike h
  have hclause := clauseWith_alike h
  unfold shapeWith
  refine Alike.peek.bind fun start start' hstart => ?_
  dsimp only
  rw [← Item.kind_eq hstart]
  generalize start.token.kind = kind
  split
  · rename_i word
    refine Alike.advance.bind fun _ _ _ => ?_
    cases word with
    | circle =>
      exact .expect_bind fun _ _ _ _ => (hpoint _ _).bind fun _ _ hcenter =>
        (hclause _ _ _).bind fun _ _ hsize => (hclause _ _ _).bind fun _ _ hfill =>
          .pure (by simp only [Expr.bare_circle, hcenter, hsize, hfill])
    | rect =>
      exact .expect_bind fun _ _ _ _ => (hpoint _ _).bind fun _ _ hcenter =>
        (hclause _ _ _).bind fun _ _ hwidth => (hclause _ _ _).bind fun _ _ hheight =>
          (hclause _ _ _).bind fun _ _ hfill =>
            .pure (by simp only [Expr.bare_rect, hcenter, hwidth, hheight, hfill])
    | line =>
      exact (hpoint _ _).bind fun _ _ hfirst => (hpoint _ _).bind fun _ _ hsecond =>
        (hclause _ _ _).bind fun _ _ hfill =>
          .pure (by simp only [Expr.bare_line, hfirst, hsecond, hfill])
    | triangle =>
      exact (hpoint _ _).bind fun _ _ hfirst => (hpoint _ _).bind fun _ _ hsecond =>
        (hpoint _ _).bind fun _ _ hthird => (hclause _ _ _).bind fun _ _ hfill =>
          .pure (by simp only [Expr.bare_triangle, List.map_cons, hfirst, hsecond, hthird, hfill,
            List.map_nil])
  · exact primaryWith_alike h

theorem callWith_alike : Alike Expr.bare (callWith nested) (callWith nested) :=
  (shapeWith_alike h).bind fun _ _ hcallee => .accept_bind
    (fun _ _ _ _ => (separated_alike h).bind fun _ _ harguments =>
      .expect_bind fun _ _ _ _ =>
        .pure (by rw [Expr.bare_call, Expr.bare_call, hcallee, harguments]))
    (.pure hcallee)

end WithNested

/-- Operators are no keywords, so that their texts count. -/
theorem binary_bare_eq {joins : Kind → Bool} (hjoins : ∀ word, joins (.keyword word) = false)
    {a b : Token} (h : a.sense = b.sense) (ha : joins a.kind = true) {left left' right right' : Expr}
    (hleft : left.bare = left'.bare) (hright : right.bare = right'.bare) :
    (Expr.binary a.text left right a.location).bare =
      (Expr.binary b.text left' right' b.location).bare := by
  have htext : a.text = b.text := by
    refine Token.text_eq_of_sense h fun word hword => ?_
    rw [hword, hjoins] at ha
    cases ha
  rw [Expr.bare_binary, Expr.bare_binary, htext, hleft, hright]

/-- Operators and operands. Each operator takes a level, so the induction is on the room. -/
theorem chainFrom_alike {joins : Kind → Bool} (hjoins : ∀ word, joins (.keyword word) = false)
    (room : Nat) (operand : UpTo room)
    (h : ∀ levels hlevels, Alike Expr.bare (operand levels hlevels) (operand levels hlevels))
    {left left' : Expr} (hleft : left.bare = left'.bare) :
    Alike Expr.bare (chainFrom joins room operand left) (chainFrom joins room operand left') := by
  induction room generalizing left left' with
  | zero =>
    unfold chainFrom
    exact .accept_bind (fun _ _ _ _ => .reject _ _) (.pure hleft)
  | succ room ih =>
    unfold chainFrom
    refine .accept_bind (fun a b hab hjoin => ?_) (.pure hleft)
    exact (h room (Nat.le_succ room)).bind fun _ _ hright =>
      ih _ (fun _ _ => h _ _) (binary_bare_eq hjoins hab hjoin hleft hright)

theorem chain_alike {joins : Kind → Bool} (hjoins : ∀ word, joins (.keyword word) = false)
    (room : Nat) (operand : UpTo room)
    (h : ∀ levels hlevels, Alike Expr.bare (operand levels hlevels) (operand levels hlevels)) :
    Alike Expr.bare (chain joins room operand) (chain joins room operand) :=
  (h room (Nat.le_refl room)).bind fun _ _ hfirst => chainFrom_alike hjoins room operand h hfirst

theorem expression_alike (room : Nat) : Alike Expr.bare (expression room) (expression room) := by
  induction room using Nat.strongRecOn with
  | ind room ih =>
    unfold expression
    cases room with
    | zero => exact .reject _ _
    | succ below =>
      have hsum : ∀ levels, levels ≤ below →
          Alike Expr.bare (sumWith levels fun room _ => expression room)
            (sumWith levels fun room _ => expression room) := by
        intro levels hlevels
        refine chain_alike (fun _ => rfl) _ _ fun levels' hlevels' => ?_
        refine chain_alike (fun _ => rfl) _ _ fun room hroom => ?_
        exact callWith_alike (ih room (by omega))
      unfold comparisonWith
      refine (hsum below (Nat.le_refl below)).bind fun left left' hleft =>
        .accept_bind (fun a b hab hjoin => ?_) (.pure hleft)
      cases below with
      | zero => exact .reject _ _
      | succ lower =>
        exact (hsum lower (Nat.le_succ lower)).bind fun _ _ hright =>
          .pure (binary_bare_eq (fun _ => rfl) hab hjoin hleft hright)

-- ============================================================================
-- Statements
-- ============================================================================

theorem direction_alike : Alike id direction direction := by
  unfold direction
  refine Alike.peek.bind fun start start' hstart => ?_
  rw [← Item.kind_eq hstart]
  generalize start.token.kind = kind
  split
  · exact Alike.advance.bind fun _ _ _ => .pure rfl
  · exact .pure rfl

theorem commandWith_alike {nested : Parser Expr} (h : Alike Expr.bare nested nested) :
    Alike (Option.map Command.bare) (commandWith nested) (commandWith nested) := by
  have hamount : Alike Expr.bare (amountWith nested) (amountWith nested) := primaryWith_alike h
  unfold commandWith
  refine Alike.advance.bind fun token token' htoken => ?_
  rw [← Token.kind_eq_of_sense htoken]
  generalize token.kind = kind
  split
  · refine hamount.bind fun _ _ ha => direction_alike.bind fun d d' hd => .pure ?_
    obtain rfl : d = d' := hd
    simp only [Option.map_some, Command.bare, ha]
  · exact hamount.bind fun _ _ ha => .pure (by simp only [Option.map_some, Command.bare, ha])
  · exact hamount.bind fun _ _ ha => .pure (by simp only [Option.map_some, Command.bare, ha])
  · exact hamount.bind fun _ _ ha => .pure (by simp only [Option.map_some, Command.bare, ha])
  · exact .pure rfl

theorem commandsWith_alike {nested : Parser Expr} (h : Alike Expr.bare nested nested) :
    Alike (List.map Command.bare) (commandsWith nested) (commandsWith nested) := by
  refine Alike.many_filterMap (Alike.peek.bind fun start start' hstart => ?_)
  dsimp only
  rw [Item.kind_eq hstart]
  split
  · exact .pure rfl
  · exact (commandWith_alike h).map fun _ _ hab => congrArg some hab

theorem statementsWith_alike {one : Parser Stmt} (h : Alike Stmt.bare one one)
    (inBlock topLevel : Bool) :
    Alike (List.map Stmt.bare) (statementsWith inBlock topLevel one)
      (statementsWith inBlock topLevel one) := by
  refine Alike.many_filterMap (Alike.peek.bind fun start start' hstart => ?_)
  dsimp only
  rw [Item.kind_eq hstart]
  split
  · exact .pure rfl
  · exact (h.attempt inBlock).map fun _ _ hab => congrArg some hab

theorem blockWith_alike {body : Parser (List Stmt)}
    (h : Alike (List.map Stmt.bare) body body) (opening closing : String) :
    Alike (List.map Stmt.bare) (blockWith body opening closing)
      (blockWith body opening closing) :=
  .expect_bind fun _ _ _ _ => h.bind fun _ _ hbody =>
    .expect_bind fun _ _ _ _ => .pure hbody

theorem newName_alike (text : String) (hint : Option String) :
    Alike Identifier.bare (newName text hint) (newName text hint) := by
  refine .expect_bind fun a b hab hkind => .pure ?_
  rw [Identifier.bare, Identifier.bare, Token.text_eq_of_sense hab (by simp [hkind])]

/-- What a statement may nest, at whatever place. -/
structure Nested.Alike (nested : Nested) : Prop where
  expression : Parse.Alike Expr.bare nested.expression nested.expression
  body : Parse.Alike (List.map Stmt.bare) nested.body nested.body
  chained : ∀ place place', Parse.Alike Stmt.bare (nested.chained place) (nested.chained place')

section WithNested

variable {nested : Nested} (h : nested.Alike)
include h

theorem elseWith_alike : Alike (List.map Stmt.bare) (elseWith nested) (elseWith nested) :=
  .accept_bind
    (fun _ _ _ _ => (h.chained _ _).bind fun _ _ hstmt => .pure (congrArg (· :: []) hstmt))
    (blockWith_alike h.body _ _)

variable (place place' : Location)

theorem branchWith_alike :
    Alike Stmt.bare (branchWith nested place) (branchWith nested place') :=
  h.expression.bind fun _ _ hcondition => (blockWith_alike h.body _ _).bind fun _ _ hthen =>
    .accept_bind
      (fun _ _ _ _ => (elseWith_alike h).bind fun _ _ helse =>
        .pure (by simp only [Stmt.bare, Stmt.bareAll_eq_map, hcondition, hthen, helse]))
      (.pure (by simp only [Stmt.bare, Stmt.bareAll_eq_map, hcondition, hthen]))

theorem functionWith_alike :
    Alike Stmt.bare (functionWith nested place) (functionWith nested place') :=
  (newName_alike _ _).bind fun _ _ hname => .expect_bind fun _ _ _ _ =>
    (separated_alike (newName_alike _ _)).bind fun _ _ hparameters =>
      .expect_bind fun _ _ _ _ => (blockWith_alike h.body _ _).bind fun _ _ hbody =>
        .pure (by simp only [Stmt.bare, Stmt.bareAll_eq_map, hname, hparameters, hbody])

theorem giveBackWith_alike :
    Alike Stmt.bare (giveBackWith nested place) (giveBackWith nested place') := by
  unfold giveBackWith
  refine Alike.peek.bind fun start start' hstart => ?_
  rw [Item.kind_eq hstart, Item.startsLine_eq hstart]
  split
  · exact .pure rfl
  · exact h.expression.bind fun _ _ hvalue => .pure (by simp only [Stmt.bare, hvalue])

omit place place' in
theorem statementWith_alike : Alike Stmt.bare (statementWith nested) (statementWith nested) := by
  unfold statementWith
  refine Alike.peek.bind fun start start' hstart => ?_
  dsimp only
  rw [← Item.kind_eq hstart]
  generalize start.token.kind = kind
  split
  · rename_i word
    refine Alike.advance.bind fun _ _ _ => ?_
    cases word with
    | letWord =>
      exact (newName_alike _ _).bind fun _ _ hname => .expect_bind fun _ _ _ _ =>
        h.expression.bind fun _ _ hvalue => .pure (by simp only [Stmt.bare, hname, hvalue])
    | fnWord => exact functionWith_alike h _ _
    | returnWord => exact giveBackWith_alike h _ _
    | ifWord => exact branchWith_alike h _ _
    | repeatWord =>
      exact h.expression.bind fun _ _ htimes => (blockWith_alike h.body _ _).bind fun _ _ hbody =>
        .pure (by simp only [Stmt.bare, Stmt.bareAll_eq_map, htimes, hbody])
    | animateWord =>
      exact .expect_bind fun _ _ _ _ =>
        (commandsWith_alike h.expression).bind fun _ _ hcommands =>
          .expect_bind fun _ _ _ _ => .pure (by simp only [Stmt.bare, hcommands])
    | sceneWord =>
      refine (newName_alike _ _).bind fun name name' hname =>
        (blockWith_alike h.body _ _).bind fun _ _ hbody => .pure ?_
      -- A scene keeps the text of its title only, so here the places are gone already.
      have htitle : name.name = name'.name := (Identifier.mk.inj hname).1
      simp only [Stmt.bare, Stmt.bareAll_eq_map, htitle, hbody]
  · exact h.expression.bind fun _ _ hvalue => .pure (by simp only [Stmt.bare, hvalue])

end WithNested

/-- What a statement may nest is alike at every room. -/
theorem nested_alike (room : Nat) : (nested room).Alike := by
  induction room with
  | zero => exact ⟨expression_alike 0, .reject _ _, fun _ _ => .reject _ _⟩
  | succ below ih =>
    exact ⟨expression_alike (below + 1),
      statementsWith_alike (statementWith_alike ih) (inBlockAt below) false,
      fun place place' => branchWith_alike ih place place'⟩

theorem program_alike : Alike Program.bare program program := by
  have hstatements : Alike (List.map Stmt.bare) (statements maxDepth true)
      (statements maxDepth true) :=
    statementsWith_alike (statementWith_alike (nested_alike _)) (inBlockAt maxDepth) true
  exact hstatements.bind fun _ _ hbody =>
    .pure (by simp only [Program.bare, Stmt.bareAll_eq_map, hbody])

-- ============================================================================
-- Token lists
-- ============================================================================

/-- Newlines are taken out and line starts are marked in the same way. -/
theorem markLines_sense {tokens tokens' : List Token}
    (h : tokens.map Token.sense = tokens'.map Token.sense) (afterNewline : Bool) :
    (markLines afterNewline tokens).map Item.sense =
      (markLines afterNewline tokens').map Item.sense := by
  induction tokens generalizing tokens' afterNewline with
  | nil =>
    have hnil : tokens' = [] := List.map_eq_nil_iff.mp h.symm
    rw [hnil]
  | cons token tokens ih =>
    cases tokens' with
    | nil => cases h
    | cons token' tokens' =>
      obtain ⟨htoken, htokens⟩ := List.cons.inj h
      rw [markLines, markLines, Token.kind_eq_of_sense htoken]
      split
      · exact ih htokens true
      · exact List.cons_eq_cons.mpr ⟨by simp only [Item.sense, htoken], ih htokens false⟩

/-- Both lists get an end of input, or none does. -/
theorem closeAfter_sense {last last' : Item} {items items' : List Item}
    (hlast : last.sense = last'.sense) (h : items.map Item.sense = items'.map Item.sense) :
    (closeAfter last items).map Item.sense = (closeAfter last' items').map Item.sense := by
  induction items generalizing last last' items' with
  | nil =>
    have hnil : items' = [] := List.map_eq_nil_iff.mp h.symm
    rw [hnil, closeAfter, closeAfter, Item.kind_eq hlast]
    split
    · rfl
    · rfl
  | cons item items ih =>
    cases items' with
    | nil => cases h
    | cons item' items' =>
      obtain ⟨hitem, hitems⟩ := List.cons.inj h
      exact List.cons_eq_cons.mpr ⟨hitem, ih hitem hitems⟩

theorem State.alike_ofTokens {tokens tokens' : List Token}
    (h : tokens.map Token.sense = tokens'.map Token.sense) :
    (State.ofTokens tokens).Alike (State.ofTokens tokens') := by
  have hmarked := markLines_sense h false
  refine ⟨?_, rfl⟩
  unfold State.ofTokens Cursor.ofTokens
  dsimp only
  generalize markLines false tokens = items at hmarked ⊢
  generalize markLines false tokens' = items' at hmarked ⊢
  cases items with
  | nil =>
    have hnil : items' = [] := List.map_eq_nil_iff.mp hmarked.symm
    subst hnil
    exact ⟨rfl, rfl⟩
  | cons item items =>
    cases items' with
    | nil => cases hmarked
    | cons item' items' =>
      obtain ⟨hitem, hitems⟩ := List.cons.inj hmarked
      exact ⟨List.cons_eq_cons.mpr ⟨hitem, closeAfter_sense hitem hitems⟩, rfl⟩

end Parse

/-- Places and the spelling of keywords do not count for the parser: token lists of the same sense
    are parsed to the same tree, places apart, with as many errors. -/
theorem parse_alike {tokens tokens' : List Token} {p : Program} {errors : List SyntaxError}
    (h : tokens.map Token.sense = tokens'.map Token.sense)
    (hparse : parse tokens = .ok (p, errors)) :
    ∃ p' errors', parse tokens' = .ok (p', errors') ∧ p.bare = p'.bare ∧
      errors.length = errors'.length := by
  have hends := Parse.program_alike _ _ (Parse.State.alike_ofTokens h)
  unfold parse at hparse ⊢
  generalize Parse.program (.ofTokens tokens) = first at hparse hends
  generalize Parse.program (.ofTokens tokens') = second at hends ⊢
  cases hends with
  | ok hview hstate =>
    cases hparse
    exact ⟨_, _, rfl, hview, hstate.errors⟩
  | rejected => cases hparse
  | notNumber => cases hparse

end Storyboard
