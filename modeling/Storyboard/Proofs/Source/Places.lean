/-
  Storyboard.Proofs.Source.Places

  Places in a source text: what stands at the line and column of a token.

  A place is counted from the text before it (`placeAfter`), and the lines of a text
  are its pieces between newlines. `line_placeAfter` puts the two together: the line of
  the place behind some text is what that text has behind its last newline, and then
  what follows up to the next one. So whatever stands behind a piece of text can be
  read off at its place, and for a token that is its own lexeme.
-/
import Storyboard.Proofs.Token.Splitting
import Storyboard.Source.Text

namespace Storyboard

-- ============================================================================
-- Lines
-- ============================================================================

namespace Text

variable (separator : Char)

/-- A text is cut at each separator. -/
theorem pieces_append_cons (front back : List Char) :
    pieces separator (front ++ separator :: back) =
      pieces separator front ++ pieces separator back := by
  induction front with
  | nil => simp [pieces]
  | cons c front ih =>
    rw [List.cons_append, pieces, pieces, ih]
    split
    · rfl
    · cases hfront : pieces separator front with
      | nil =>
        -- There is always one piece at least.
        unfold pieces at hfront
        split at hfront
        · cases hfront
        · split at hfront
          · cases hfront
          · split at hfront <;> cases hfront
      | cons piece others => rfl

/-- A text without a separator is one piece. -/
theorem pieces_of_not_mem {cs : List Char} (h : separator ∉ cs) : pieces separator cs = [cs] := by
  induction cs with
  | nil => rfl
  | cons c cs ih =>
    rw [List.mem_cons, not_or] at h
    rw [pieces, if_neg (Ne.symm h.1), ih h.2]

/-- The first piece runs up to the first separator. -/
theorem pieces_eq_cons (cs : List Char) :
    ∃ others, pieces separator cs = cs.takeWhile (· ≠ separator) :: others := by
  induction cs with
  | nil => exact ⟨[], rfl⟩
  | cons c cs ih =>
    obtain ⟨others, hothers⟩ := ih
    by_cases hc : c = separator
    · exact ⟨pieces separator cs, by simp [pieces, hc]⟩
    · exact ⟨others, by simp [pieces, hc, hothers]⟩

/-- There is one piece more than there are separators. -/
theorem length_pieces (cs : List Char) :
    (pieces separator cs).length = cs.count separator + 1 := by
  induction cs with
  | nil => rfl
  | cons c cs ih =>
    obtain ⟨others, hothers⟩ := pieces_eq_cons separator cs
    by_cases hc : c = separator
    · rw [pieces, if_pos hc, List.length_cons, ih, hc, List.count_cons_self]
    · rw [pieces, if_neg hc, List.count_cons_of_ne hc, ← ih, hothers]
      rfl

/-- A text is what is left without the characters at its end, and these. -/
theorem exists_dropEnd (c : Char) (cs : List Char) :
    ∃ n, cs = dropEnd (· = c) cs ++ List.replicate n c := by
  refine ⟨(cs.reverse.takeWhile (· = c)).length, ?_⟩
  have hends : (cs.reverse.takeWhile (· = c)).reverse =
      List.replicate (cs.reverse.takeWhile (· = c)).length c := by
    rw [← List.reverse_replicate, List.reverse_inj, List.eq_replicate_iff]
    exact ⟨rfl, fun d hd => by simpa using List.all_eq_true.mp List.all_takeWhile d hd⟩
  rw [← hends, dropEnd, ← List.reverse_append, List.takeWhile_append_dropWhile,
    List.reverse_reverse]

end Text

namespace Lexical

/-- What a text has behind its last newline. -/
def lastLine (before : List Char) : List Char := (before.reverse.takeWhile (· ≠ '\n')).reverse

/-- A text is its last line, or has a newline before it. -/
theorem lastLine_cases (before : List Char) :
    ∃ last, lastLine before = last ∧ '\n' ∉ last ∧
      (before = last ∨ ∃ front, before = front ++ '\n' :: last) := by
  have heq : before = (before.reverse.dropWhile (· ≠ '\n')).reverse ++ lastLine before := by
    rw [lastLine, ← List.reverse_append, List.takeWhile_append_dropWhile, List.reverse_reverse]
  refine ⟨lastLine before, rfl, ?_, ?_⟩
  · intro hmem
    rw [lastLine, List.mem_reverse] at hmem
    simpa using forall_mem_takeWhile _ _ _ hmem
  · cases hrest : before.reverse.dropWhile (· ≠ '\n') with
    | nil =>
      rw [hrest] at heq
      exact .inl heq
    | cons c rest =>
      have hhead := List.head?_dropWhile_not (fun c => decide (c ≠ '\n')) before.reverse
      rw [hrest] at hhead heq
      obtain rfl : c = '\n' := by simpa using hhead
      rw [List.reverse_cons, List.append_assoc, List.singleton_append] at heq
      exact .inr ⟨rest.reverse, heq⟩

/-- The line that goes on behind some text. -/
theorem getElem?_pieces_append (before after : List Char) :
    (Text.pieces '\n' (before ++ after))[before.count '\n']? =
      some (lastLine before ++ after.takeWhile (· ≠ '\n')) := by
  obtain ⟨last, hlast, hinside, hcases⟩ := lastLine_cases before
  have hfirst : (Text.pieces '\n' (last ++ after))[0]? =
      some (last ++ after.takeWhile (· ≠ '\n')) := by
    obtain ⟨others, hothers⟩ := Text.pieces_eq_cons '\n' (last ++ after)
    have hall : ∀ c ∈ last, decide (c ≠ '\n') = true := by
      intro c hc
      simpa using fun heq : c = '\n' => hinside (heq ▸ hc)
    rw [hothers, List.takeWhile_append_of_pos hall]
    rfl
  have hnone : last.count '\n' = 0 := List.count_eq_zero.mpr hinside
  rw [hlast]
  obtain rfl | ⟨front, rfl⟩ := hcases
  · rw [hnone]
    exact hfirst
  · have hlength := Text.length_pieces '\n' front
    rw [List.append_assoc, List.cons_append, Text.pieces_append_cons, List.count_append,
      List.count_cons_self, hnone, List.getElem?_append_right (Nat.le_of_eq hlength), hlength,
      Nat.sub_self]
    exact hfirst

end Lexical

/-- The line of the place behind some text: it begins with what that text has behind its last
    newline, which is as long as the columns before the place. -/
theorem SourceText.line_placeAfter {source : SourceText} {before after : List Char}
    (h : source.content.toList = before ++ after) :
    1 ≤ (Lexical.placeAfter before).line ∧
      (Lexical.placeAfter before).line ≤ source.lines.length ∧
      (Lexical.placeAfter before).column = 1 + (Lexical.lastLine before).length ∧
      (source.line (Lexical.placeAfter before).line).toList =
        Lexical.lastLine before ++ after.takeWhile (· ≠ '\n') := by
  have hpiece := Lexical.getElem?_pieces_append before after
  have hlines : source.lines = (Text.pieces '\n' (before ++ after)).map String.ofList := by
    rw [SourceText.lines, Text.lines, h]
  have hbound : before.count '\n' < source.lines.length := by
    rw [hlines, List.length_map]
    exact (List.getElem?_eq_some_iff.mp hpiece).1
  have hline : (Lexical.placeAfter before).line = 1 + before.count '\n' := rfl
  refine ⟨by omega, by omega, ?_, ?_⟩
  · simp [Lexical.placeAfter, Lexical.lastLine]
  · have hindex : ((Lexical.placeAfter before).line - 1).toNat = before.count '\n' := by omega
    rw [SourceText.line, if_pos (by omega), hindex, hlines, List.getElem?_map, hpiece,
      Option.map_some, Option.getD_some, String.toList_ofList]

-- ============================================================================
-- Tokens
-- ============================================================================

/-- The order in which places are read. -/
def Location.Before (place later : Location) : Prop :=
  place.line < later.line ∨ place.line = later.line ∧ place.column < later.column

namespace Lexical

open Lexeme (startsWord isWordChar)

/-- A token of a text is the end of input, at the end, or is made of a lexeme at its place. -/
theorem Splits.exists_lexeme {before text : List Char} {tokens : List Token} {token : Token}
    (h : Splits before text tokens) (hmem : token ∈ tokens) :
    ∃ front lexeme rest, before ++ text = front ++ (lexeme ++ rest) ∧
      token.location = placeAfter front ∧
      ((token.kind = .endOfInput ∧ lexeme ++ rest = []) ∨
        ∃ value, token.text = String.ofList value ∧ Form lexeme rest token.kind value ∧
          Longest IsLexeme lexeme rest) := by
  induction h with
  | @done before gap _ =>
    rw [List.mem_singleton.mp hmem]
    exact ⟨before ++ gap, [], [], by simp, rfl, .inl ⟨rfl, rfl⟩⟩
  | @more before gap lexeme rest value kind tokens _ hlexeme hform _ ih =>
    rcases List.mem_cons.mp hmem with rfl | hmem
    · exact ⟨before ++ gap, lexeme, rest, by simp, rfl, .inr ⟨value, rfl, hform, hlexeme⟩⟩
    · obtain ⟨front, lexeme', rest', heq, hwhat⟩ := ih hmem
      exact ⟨front, lexeme', rest', by rw [← heq]; simp, hwhat⟩

/-- More text leads to a later place: on a later line, or further right on the same one. -/
theorem placeAfter_before_append (before : List Char) {more : List Char} (hmore : more ≠ []) :
    (placeAfter before).Before (placeAfter (before ++ more)) := by
  by_cases hbreak : '\n' ∈ more
  · left
    have hcount := List.count_pos_iff.mpr hbreak
    simp only [placeAfter, List.count_append]
    omega
  · right
    have hinside : ∀ c ∈ more.reverse, decide (c ≠ '\n') = true := by
      intro c hc
      exact decide_eq_true fun heq => hbreak (heq ▸ List.mem_reverse.mp hc)
    have hlength := List.length_pos_iff.mpr hmore
    simp only [placeAfter, List.count_append, List.count_eq_zero.mpr hbreak, List.reverse_append,
      List.takeWhile_append_of_pos hinside, List.length_append, List.length_reverse]
    omega

/-- The tokens of a text stand in it one after the other. -/
theorem Splits.pairwise_before {before text : List Char} {tokens : List Token}
    (h : Splits before text tokens) :
    tokens.Pairwise fun token later => token.location.Before later.location := by
  -- What comes behind some text is at the place behind more of it.
  have hbehind : ∀ {before text : List Char} {tokens : List Token}, Splits before text tokens →
      ∀ token ∈ tokens, ∃ more, token.location = placeAfter (before ++ more) := by
    intro before text tokens h
    induction h with
    | @done before gap _ =>
      intro token hmem
      rw [List.mem_singleton.mp hmem]
      exact ⟨gap, rfl⟩
    | @more before gap lexeme rest value kind tokens _ _ _ _ ih =>
      intro token hmem
      rcases List.mem_cons.mp hmem with rfl | hmem
      · exact ⟨gap, rfl⟩
      · obtain ⟨more, hplace⟩ := ih token hmem
        exact ⟨gap ++ (lexeme ++ more), by simpa using hplace⟩
  induction h with
  | done => exact List.pairwise_singleton _ _
  | @more before gap lexeme rest value kind tokens _ _ hform hrest ih =>
    refine List.pairwise_cons.mpr ⟨fun later hmem => ?_, ih⟩
    obtain ⟨more, hplace⟩ := hbehind hrest later hmem
    rw [hplace, List.append_assoc]
    exact placeAfter_before_append _ (List.append_ne_nil_of_left_ne_nil hform.ne_nil more)

/-- A word is taken as a whole: no character of a word follows its lexeme. -/
theorem Longest.word_eq {c : Char} {cs rest : List Char} (h : Longest IsLexeme (c :: cs) rest)
    (hstart : startsWord c = true) (hall : ∀ d ∈ cs, isWordChar d = true) :
    Lexeme.word (c :: cs ++ rest) = c :: cs := by
  have hword : Lexeme.word (c :: cs ++ rest) = c :: (cs ++ rest.takeWhile isWordChar) := by
    rw [Lexeme.word, List.cons_append,
      List.takeWhile_cons_of_pos (isWordChar_of_startsWord hstart),
      List.takeWhile_append_of_pos hall]
  have hlonger : IsLexeme (c :: (cs ++ rest.takeWhile isWordChar)) (rest.dropWhile isWordChar) := by
    have hall' : ∀ d ∈ cs ++ rest.takeWhile isWordChar, isWordChar d = true := by
      intro d hd
      rcases List.mem_append.mp hd with hd | hd
      · exact hall d hd
      · exact forall_mem_takeWhile _ _ d hd
    by_cases hspells : ∃ keyword, Spells (c :: (cs ++ rest.takeWhile isWordChar)) keyword
    · obtain ⟨keyword, hspells⟩ := hspells
      exact ⟨_, _, .keyword hstart hall' hspells⟩
    · exact ⟨_, _, .identifier hstart hall' (not_exists.mp hspells)⟩
  have hlength := h.longest (by simp) hlonger
  simp only [List.length_cons, List.length_append] at hlength
  have hnil : rest.takeWhile isWordChar = [] := List.length_eq_zero_iff.mp (by omega)
  rw [hword, hnil, List.append_nil]

/-- A character of a class that has none of the three. -/
theorem not_break_of_class {p : Char → Bool} {c : Char} (hc : p c = true)
    (hnewline : p '\n' = false) (hreturn : p '\r' = false) (htab : p '\t' = false) :
    c ≠ '\n' ∧ c ≠ '\r' ∧ c ≠ '\t' := by
  refine ⟨?_, ?_, ?_⟩
  · rintro rfl
    exact Bool.false_ne_true (hnewline.symm.trans hc)
  · rintro rfl
    exact Bool.false_ne_true (hreturn.symm.trans hc)
  · rintro rfl
    exact Bool.false_ne_true (htab.symm.trans hc)

/-- The lexeme of a token other than a newline begins with a quote for a string, and else as the
    token's text does; that is never a character which an excerpt changes or leaves out. -/
theorem Form.exists_head {lexeme rest value : List Char} {kind : Kind}
    (h : Form lexeme rest kind value) (hkind : kind ≠ .newline) :
    ∃ c cs, lexeme = c :: cs ∧ (c ≠ '\n' ∧ c ≠ '\r' ∧ c ≠ '\t') ∧
      some c = if kind = .string then some '\x22' else value.head? := by
  cases h with
  | newline => exact absurd rfl hkind
  | @number c cs _ hdigit _ _ =>
    exact ⟨c, cs, rfl, not_break_of_class hdigit rfl rfl rfl, rfl⟩
  | @keyword c cs _ word hstart _ _ =>
    exact ⟨c, cs, rfl, not_break_of_class hstart rfl rfl rfl, rfl⟩
  | @identifier c cs _ hstart _ _ =>
    exact ⟨c, cs, rfl, not_break_of_class hstart rfl rfl rfl, rfl⟩
  | @color cs _ _ => exact ⟨'#', cs, rfl, by decide, rfl⟩
  | closedString => exact ⟨'\x22', _, rfl, by decide, rfl⟩
  | openString => exact ⟨'\x22', _, rfl, by decide, rfl⟩
  | mark hmark =>
    -- The table of marks is closed, so each row can be looked at.
    simp only [marks, List.mem_cons, List.not_mem_nil, or_false, Prod.mk.injEq] at hmark
    rcases hmark with h | h | h | h | h | h | h | h | h | h | h | h | h | h | h | h | h | h
    all_goals
      obtain ⟨rfl, rfl⟩ := h
      exact ⟨_, _, rfl, by decide, rfl⟩
  | @illegal c _ hopens hspace _ =>
    refine ⟨c, [], rfl, ⟨?_, ?_, ?_⟩, rfl⟩
    · rintro rfl
      exact absurd hopens (by decide)
    · exact fun hc => hspace (.inr (.inr hc))
    · exact fun hc => hspace (.inr (.inl hc))

end Lexical

/-- A token of a source text is the end of input, at its end, or is made of a lexeme at its
    place. -/
theorem exists_lexeme_of_mem_tokenize {content : String} {token : Token}
    (h : token ∈ tokenize content) :
    ∃ before lexeme rest, content.toList = before ++ (lexeme ++ rest) ∧
      token.location = Lexical.placeAfter before ∧
      ((token.kind = .endOfInput ∧ lexeme ++ rest = []) ∨
        ∃ value, token.text = String.ofList value ∧ Lexical.Form lexeme rest token.kind value ∧
          Lexical.Longest Lexical.IsLexeme lexeme rest) :=
  (Lexical.splits_tokens (.ofText content) [] rfl).exists_lexeme h

/-- No two tokens of a source text are at one place. -/
theorem nodup_location_tokenize (content : String) :
    ((tokenize content).map Token.location).Nodup := by
  refine List.pairwise_map.mpr ?_
  refine (Lexical.splits_tokens (.ofText content) [] rfl).pairwise_before.imp ?_
  rintro token later hbefore hsame
  rw [hsame] at hbefore
  obtain hline | ⟨-, hcolumn⟩ := hbefore
  · exact Int.lt_irrefl _ hline
  · exact Int.lt_irrefl _ hcolumn

/-- A token of a source text is known by its place. -/
theorem eq_of_location_eq {content : String} {token other : Token} (h : token ∈ tokenize content)
    (h' : other ∈ tokenize content) (hplace : token.location = other.location) : token = other := by
  obtain ⟨i, hi⟩ := List.getElem?_of_mem h
  obtain ⟨j, hj⟩ := List.getElem?_of_mem h'
  have hlength : i < ((tokenize content).map Token.location).length := by
    rw [List.length_map]
    exact (List.getElem?_eq_some_iff.mp hi).1
  have hsame : ((tokenize content).map Token.location)[i]? =
      ((tokenize content).map Token.location)[j]? := by
    rw [List.getElem?_map, List.getElem?_map, hi, hj, Option.map_some, Option.map_some, hplace]
  obtain rfl := (List.getElem?_inj hlength (nodup_location_tokenize content)).mp hsame
  exact Option.some.inj (hi.symm.trans hj)

/-- A text that an identifier can have: a word that spells no keyword. -/
structure IsName (name : List Char) : Prop where
  starts : ∃ c cs, name = c :: cs ∧ Lexeme.startsWord c = true
  wordChars : ∀ c ∈ name, Lexeme.isWordChar c = true
  noKeyword : ∀ keyword, ¬ Lexical.Spells name keyword

/-- An identifier of a source text has a name, and that is the whole word at its place. -/
theorem isName_of_mem_tokenize {content : String} {token : Token}
    (h : token ∈ tokenize content) (hkind : token.kind = .identifier) :
    IsName token.text.toList ∧ ∃ before after, content.toList = before ++ after ∧
      token.location = Lexical.placeAfter before ∧ Lexeme.word after = token.text.toList := by
  obtain ⟨before, lexeme, rest, hcontent, hplace, ⟨hend, -⟩ | ⟨value, htext, hform, hlongest⟩⟩ :=
    exists_lexeme_of_mem_tokenize h
  · rw [hkind] at hend
    cases hend
  · rw [hkind] at hform
    rw [htext, String.toList_ofList]
    cases hform with
    | @identifier c cs _ hstart hall hno =>
      refine ⟨⟨⟨c, cs, rfl, hstart⟩, ?_, hno⟩, before, _, hcontent, hplace,
        hlongest.word_eq hstart hall⟩
      exact List.forall_mem_cons.mpr ⟨Lexical.isWordChar_of_startsWord hstart, hall⟩
    | mark hmark => simp [Lexical.marks] at hmark

end Storyboard
