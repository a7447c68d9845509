/-
  Storyboard.Proofs.Scope.Declaring

  What one more declaration changes. If a program is given a `let` in front that
  declares a name which its global frame does not declare, the scope check finds what
  it found before, without the errors about that name being undefined.

  Both programs have the same timeline but for that one declaration, so the moments of
  a site in the one and in the other differ in their outermost frame only: there the
  name is declared in the second (`Widened`). A use of the name is right then, and every
  other use is as right as it was. A declaration is compared with its own frame, and
  that is the same unless it is the outermost, which declares other names only.
-/
import Storyboard.Proofs.Scope.Violations

namespace Storyboard

-- ============================================================================
-- What a frame declares
-- ============================================================================

mutual

/-- The names that a statement declares in the frame around it, by `let` or `fn`. The bodies of
    `if` and `repeat` belong to that frame, those of functions and scenes do not. -/
def Stmt.declaredNames : Stmt → List String
  | .binding name _ _ => [name.name]
  | .function name _ _ _ => [name.name]
  | .branch _ thenBody none _ => Stmt.allDeclaredNames thenBody
  | .branch _ thenBody (some elseBody) _ =>
    Stmt.allDeclaredNames thenBody ++ Stmt.allDeclaredNames elseBody
  | .loop _ body _ => Stmt.allDeclaredNames body
  | .giveBack .. | .animation .. | .scene .. | .expression .. | .foreign _ => []
termination_by structural stmt => stmt

/-- The names that statements declare in the frame around them. -/
def Stmt.allDeclaredNames : List Stmt → List String
  | [] => []
  | stmt :: others => stmt.declaredNames ++ Stmt.allDeclaredNames others
termination_by structural body => body

end

theorem declared_uses (e : Expr) (name : String) : declared e.uses name = false := by
  have hnone : e.uses.filterMap Happening.declaration? = [] := by
    rw [Expr.uses, List.filterMap_map]
    exact List.filterMap_eq_nil_iff.mpr fun _ _ => rfl
  rw [declared, firstDeclaration?, hnone]
  rfl

theorem declared_declares (kind : SymbolKind) (id : Identifier) (name : String) :
    declared [.declares kind id] name = decide (id.name = name) := by
  by_cases h : id.name = name
  · simp [declared, firstDeclaration?, Happening.declaration?, h]
  · simp [declared, firstDeclaration?, Happening.declaration?, h]

theorem declared_opens (inner : List Happening) (name : String) :
    declared [.opens inner] name = false := rfl

/-- A name is declared in the timeline of a list of statements just if they declare it. -/
theorem declared_block_iff {body : List Stmt} {name : String}
    (h : ∀ stmt ∈ body, declared (Stmt.hoisted [stmt] ++ stmt.timeline) name = true ↔
      name ∈ stmt.declaredNames) :
    declared (Stmt.hoisted body ++ Stmt.timelines body) name = true ↔
      name ∈ Stmt.allDeclaredNames body := by
  induction body with
  | nil => simp [Stmt.hoisted, Stmt.timelines, Stmt.allDeclaredNames, declared, firstDeclaration?]
  | cons stmt body ih =>
    obtain ⟨hstmt, hbody⟩ := List.forall_mem_cons.mp h
    have hcons : Stmt.hoisted (stmt :: body) = Stmt.hoisted [stmt] ++ Stmt.hoisted body := by
      simp only [Stmt.hoisted, ← List.map_append, ← List.filterMap_append, List.singleton_append]
    rw [Stmt.allDeclaredNames, List.mem_append, ← hstmt, ← ih hbody, hcons, Stmt.timelines]
    simp only [declared_append, Bool.or_eq_true]
    grind

/-- The same for one statement. A function is declared when the list around it is entered. -/
theorem declared_timeline_iff (stmt : Stmt) (name : String) :
    declared (Stmt.hoisted [stmt] ++ stmt.timeline) name = true ↔ name ∈ stmt.declaredNames := by
  -- Functions and scenes open frames of their own, so nothing inside them counts; the bodies of
  -- branches and loops have none, and all in them counts.
  induction stmt using Stmt.induction with
  | binding id value place =>
    change declared (value.uses ++ [.declares .binding id]) name = true ↔ name ∈ [id.name]
    rw [declared_append, declared_uses, declared_declares, Bool.false_or, decide_eq_true_eq,
      List.mem_singleton, eq_comm]
  | function id parameters body place _ =>
    change declared ([.declares .function id] ++ [.opens _]) name = true ↔ name ∈ [id.name]
    rw [declared_append, declared_declares, declared_opens, Bool.or_false, decide_eq_true_eq,
      List.mem_singleton, eq_comm]
  | giveBack value place =>
    cases value with
    | none => exact iff_of_false Bool.false_ne_true List.not_mem_nil
    | some value => exact iff_of_false (ne_true_of_eq_false (declared_uses value name)) List.not_mem_nil
  | plain condition thenBody place hthen =>
    change declared (condition.uses ++ _) name = true ↔ name ∈ Stmt.allDeclaredNames thenBody
    rw [declared_append, declared_uses, Bool.false_or]
    exact declared_block_iff hthen
  | otherwise condition thenBody elseBody place hthen helse =>
    change declared (condition.uses ++ (_ ++ _)) name = true ↔
      name ∈ Stmt.allDeclaredNames thenBody ++ Stmt.allDeclaredNames elseBody
    rw [declared_append, declared_uses, Bool.false_or, declared_append, Bool.or_eq_true,
      declared_block_iff hthen, declared_block_iff helse, List.mem_append]
  | loop times body place hbody =>
    change declared (times.uses ++ _) name = true ↔ name ∈ Stmt.allDeclaredNames body
    rw [declared_append, declared_uses, Bool.false_or]
    exact declared_block_iff hbody
  | animation | foreign => exact iff_of_false Bool.false_ne_true List.not_mem_nil
  | scene title body place _ =>
    exact iff_of_false (ne_true_of_eq_false (declared_opens _ name)) List.not_mem_nil
  | expression value place =>
    exact iff_of_false (ne_true_of_eq_false (declared_uses value name)) List.not_mem_nil

/-- A name is declared in the timeline of a program just if its global frame declares it. -/
theorem Program.declared_timeline_iff (p : Program) (name : String) :
    declared p.timeline name = true ↔ name ∈ Stmt.allDeclaredNames p.body :=
  declared_block_iff fun stmt _ => Storyboard.declared_timeline_iff stmt name

-- ============================================================================
-- Errors about one name
-- ============================================================================

/-- The text of the error about a use of a name that is nowhere declared. -/
def undefinedText (name : String) : String := "Undefined variable '" ++ name ++ "'"

/-- Whether an error is another one than that a name is undefined. -/
def NamingError.isOther (name : String) (error : NamingError) : Bool :=
  error.diagnostic.text ≠ undefinedText name

theorem undefinedText_inj {a b : String} : undefinedText a = undefinedText b ↔ a = b := by
  refine ⟨fun h => ?_, congrArg undefinedText⟩
  have hlist := congrArg String.toList h
  unfold undefinedText at hlist
  rw [String.toList_append, String.toList_append, String.toList_append, String.toList_append] at hlist
  exact String.toList_inj.mp (List.append_cancel_left (List.append_cancel_right hlist))

theorem NamingError.isOther_undefined (name : String) (id : Identifier) :
    (NamingError.undefined id).isOther name = decide (id.name ≠ name) := by
  have htext : (NamingError.undefined id).diagnostic.text = undefinedText id.name := rfl
  unfold isOther
  rw [htext]
  exact decide_eq_decide.mpr (not_congr undefinedText_inj)

/-- The texts of the other errors begin with the kind of a symbol. -/
theorem NamingError.isOther_redeclared (name : String) (kind : SymbolKind) (id : Identifier)
    (previous : Location) : (NamingError.redeclared kind id previous).isOther name = true := by
  have hfirst : ∃ c, (capitalized kind.word).toList.head? = some c ∧ c ≠ 'U' := by
    cases kind with
    | binding => exact ⟨'V', by decide +kernel, by decide⟩
    | function => exact ⟨'F', by decide +kernel, by decide⟩
    | parameter => exact ⟨'P', by decide +kernel, by decide⟩
  have hliteral : "Undefined variable '".toList.head? = some 'U' := by decide +kernel
  obtain ⟨c, hword, hc⟩ := hfirst
  unfold isOther
  rw [decide_eq_true_eq]
  intro h
  have hhead : (capitalized kind.word ++ " '" ++ id.name ++
        "' is already declared in this scope").toList.head? =
      ("Undefined variable '" ++ name ++ "'").toList.head? :=
    congrArg (fun text => text.toList.head?) h
  rw [String.toList_append, String.toList_append, String.toList_append, String.toList_append,
    String.toList_append, List.head?_append, List.head?_append, List.head?_append,
    List.head?_append, List.head?_append, hword, hliteral] at hhead
  exact hc (Option.some.inj hhead)

-- ============================================================================
-- Two runs
-- ============================================================================

/-- Moments in frames of which the outermost has declared one name more. -/
inductive Widened (name : String) : List Moment → List Moment → Prop where
  | outermost {own own' : Moment} :
      (∀ other, other ≠ name →
        firstDeclaration? own'.before other = firstDeclaration? own.before other) →
      declared own'.before name = true → Widened name [own] [own']
  | inner (own : Moment) {outer outer' : List Moment} :
      Widened name outer outer' → Widened name (own :: outer) (own :: outer')

/-- A use finds the name, and other names as before. -/
theorem Widened.any_declared {name : String} {moments moments' : List Moment}
    (h : Widened name moments moments') (used : String) :
    (moments'.any fun moment => declared moment.before used) =
      (decide (used = name) || moments.any fun moment => declared moment.before used) := by
  induction h with
  | @outermost own own' hothers hname =>
    by_cases hused : used = name
    · simp [hused, hname]
    · simp [hused, declared, hothers used hused]
  | inner own _ ih =>
    rw [List.any_cons, List.any_cons, ih, Bool.or_left_comm]

/-- A use in the second frames is wrong if it was wrong before and is of another name. -/
theorem Widened.violation?_uses {name : String} {moments moments' : List Moment}
    (h : Widened name moments moments') (id : Identifier) :
    Site.violation? ⟨.uses id, moments'⟩ =
      (Site.violation? ⟨.uses id, moments⟩).filter (NamingError.isOther name) := by
  unfold Site.violation?
  dsimp only
  rw [h.any_declared]
  by_cases hname : id.name = name
  · rw [decide_eq_true hname, Bool.true_or, if_pos rfl]
    split
    · rfl
    · rw [Option.filter_some, NamingError.isOther_undefined, if_neg (by simp [hname])]
  · rw [decide_eq_false hname, Bool.false_or]
    split
    · rfl
    · rw [Option.filter_some, NamingError.isOther_undefined, if_pos (by simp [hname])]

/-- A declaration is as wrong as before if its own frame says the same of its name. -/
theorem violation?_declares_eq {name : String} {own own' : Moment} {outer outer' : List Moment}
    {kind : SymbolKind} {id : Identifier}
    (h : firstDeclaration? own'.before id.name = firstDeclaration? own.before id.name) :
    Site.violation? ⟨.declares kind id, own' :: outer'⟩ =
      (Site.violation? ⟨.declares kind id, own :: outer⟩).filter (NamingError.isOther name) := by
  unfold Site.violation?
  dsimp only
  rw [h]
  cases firstDeclaration? own.before id.name with
  | none => rfl
  | some previous =>
    rw [Option.map_some, Option.filter_some, if_pos (NamingError.isOther_redeclared ..)]

/-- The errors at some sites. -/
def violations (sites : List Site) : List NamingError := sites.filterMap Site.violation?

theorem violations_append (xs ys : List Site) :
    violations (xs ++ ys) = violations xs ++ violations ys := List.filterMap_append

/-- One site at which the error is the same, unless it is about the name. -/
theorem violations_singleton_eq {name : String} {site site' : Site}
    (h : site'.violation? = site.violation?.filter (NamingError.isOther name)) :
    violations [site'] = (violations [site]).filter (NamingError.isOther name) := by
  rw [violations, violations, Site.filterMap_violation?_singleton,
    Site.filterMap_violation?_singleton, h]
  cases site.violation? with
  | none => rfl
  | some error =>
    rw [Option.filter_some, Option.toList_some, List.filter_cons, List.filter_nil]
    split <;> rfl

mutual

/-- The errors of a happening in an inner frame. -/
theorem violations_sites {name : String} {outer outer' : List Moment}
    (h : Widened name outer outer') (own : Moment) : (happening : Happening) →
    violations (happening.sites (own :: outer')) =
      (violations (happening.sites (own :: outer))).filter (NamingError.isOther name)
  | .declares _ _ => violations_singleton_eq (violation?_declares_eq rfl)
  | .uses id => violations_singleton_eq ((Widened.inner own h).violation?_uses id)
  | .opens inner => violations_sitesFrom (.inner own h) [] inner
termination_by structural happening => happening

/-- The errors of all that happens in an inner frame from some point on. -/
theorem violations_sitesFrom {name : String} {outer outer' : List Moment}
    (h : Widened name outer outer') (before : List Happening) : (happenings : List Happening) →
    violations (Happening.sitesFrom outer' before happenings) =
      (violations (Happening.sitesFrom outer before happenings)).filter (NamingError.isOther name)
  | [] => rfl
  | happening :: after => by
    rw [Happening.sitesFrom, Happening.sitesFrom, violations_append, violations_append,
      violations_sites h ⟨before, after⟩ happening,
      violations_sitesFrom h (before ++ [happening]) after, List.filter_append]
termination_by structural happenings => happenings

end

/-- The errors of what happens in the outermost frame, which has declared one name more and does
    not declare it again. -/
theorem violations_outermost {name : String} {before before' : List Happening}
    (hothers : ∀ other, other ≠ name →
      firstDeclaration? before' other = firstDeclaration? before other)
    (hname : declared before' name = true) {happenings : List Happening}
    (hfresh : declared happenings name = false) :
    violations (Happening.sitesFrom [] before' happenings) =
      (violations (Happening.sitesFrom [] before happenings)).filter
        (NamingError.isOther name) := by
  induction happenings generalizing before before' with
  | nil => rfl
  | cons happening after ih =>
    rw [← List.singleton_append, declared_append, Bool.or_eq_false_iff] at hfresh
    have hwide : Widened name [⟨before, after⟩] [⟨before', after⟩] := .outermost hothers hname
    have hhead : violations (happening.sites [⟨before', after⟩]) =
        (violations (happening.sites [⟨before, after⟩])).filter (NamingError.isOther name) := by
      cases happening with
      | declares kind id =>
        have hid : id.name ≠ name := by simpa [declared_declares] using hfresh.1
        exact violations_singleton_eq (violation?_declares_eq (hothers id.name hid))
      | uses id => exact violations_singleton_eq (hwide.violation?_uses id)
      | opens inner => exact violations_sitesFrom hwide [] inner
    have htail : violations (Happening.sitesFrom [] (before' ++ [happening]) after) =
        (violations (Happening.sitesFrom [] (before ++ [happening]) after)).filter
          (NamingError.isOther name) := by
      refine ih (fun other hother => ?_) ?_ hfresh.2
      · rw [firstDeclaration?_append, firstDeclaration?_append, hothers other hother]
      · rw [declared_append, hname, Bool.true_or]
    rw [Happening.sitesFrom, Happening.sitesFrom, violations_append, violations_append, hhead, htail,
      List.filter_append]

/-- What happens first has its errors first, and the rest has those that it has behind it. -/
theorem violations_sitesFrom_append (outer : List Moment) (before xs ys : List Happening) :
    violations (Happening.sitesFrom outer before (xs ++ ys)) =
      violations (Happening.sitesFrom outer before xs) ++
        violations (Happening.sitesFrom outer (before ++ xs) ys) := by
  -- The check finds these errors, and it performs the actions of the two parts in turn.
  have hwhole := Check.perform_allActions outer before [] (xs ++ ys)
  have hfirst := Check.perform_allActions outer before [] xs
  have hsecond := Check.perform_allActions outer (before ++ xs)
    ([] ++ violations (Happening.sitesFrom outer before xs)) ys
  rw [Happening.allActions_append] at hwhole
  have hstates := (Check.perform_append_of_ok hfirst).symm.trans hwhole
  exact (congrArg Check.State.errors (EStateM.Result.ok.inj (hsecond.symm.trans hstates)).2).symm

/-- No error of a declaration says that a name is undefined. -/
theorem filter_violations_declares (name : String) (outer : List Moment) (before : List Happening)
    (kind : SymbolKind) (ids : List Identifier) :
    (violations (Happening.sitesFrom outer before (ids.map (.declares kind)))).filter
        (NamingError.isOther name) =
      violations (Happening.sitesFrom outer before (ids.map (.declares kind))) := by
  induction ids generalizing before with
  | nil => rfl
  | cons id ids ih =>
    rw [List.map_cons, Happening.sitesFrom, violations_append, List.filter_append, ih]
    exact congrArg (· ++ _) (violations_singleton_eq (violation?_declares_eq rfl)).symm

-- ============================================================================
-- A declaration in front
-- ============================================================================

/-- Whether an expression is a literal. -/
def Expr.isLiteral : Expr → Bool
  | .number .. | .string .. | .color .. => true
  | _ => false

/-- The program with a `let` in front. -/
def Program.declaring (p : Program) (name : Identifier) (value : Expr) (place : Location) :
    Program :=
  ⟨.binding name value place :: p.body, p.location⟩

/-- The timeline of a program with a `let` of a literal in front. The functions of the program are
    still declared first. -/
theorem Program.timeline_declaring (p : Program) (name : Identifier) {value : Expr}
    (place : Location) (hvalue : value.isLiteral = true) :
    (p.declaring name value place).timeline =
      Stmt.hoisted p.body ++ (.declares .binding name :: Stmt.timelines p.body) := by
  have huses : value.uses = [] := by
    cases value with
    | number | string | color => rfl
    | _ => cases hvalue
  change Stmt.hoisted p.body ++ ((value.uses ++ [.declares .binding name]) ++ _) = _
  rw [huses]
  rfl

/-- The errors of a program with a `let` in front: the functions are declared as before, the new
    name is declared once, and all else happens behind it. -/
theorem Program.violations_declaring (p : Program) (name : Identifier) {value : Expr}
    (place : Location) (hvalue : value.isLiteral = true)
    (hhoisted : declared (Stmt.hoisted p.body) name.name = false)
    (htimelines : declared (Stmt.timelines p.body) name.name = false) :
    violations (p.declaring name value place).sites =
      (violations p.sites).filter (NamingError.isOther name.name) := by
  have hnone : firstDeclaration? (Stmt.hoisted p.body) name.name = none := by
    simpa [declared] using hhoisted
  have hnew : violations (Happening.sites [⟨Stmt.hoisted p.body, Stmt.timelines p.body⟩]
      (.declares .binding name)) = [] := by
    simp [violations, Happening.sites, Site.violation?, hnone]
  have hrest : violations (Happening.sitesFrom [] (Stmt.hoisted p.body ++ [.declares .binding name])
        (Stmt.timelines p.body)) =
      (violations (Happening.sitesFrom [] (Stmt.hoisted p.body) (Stmt.timelines p.body))).filter
        (NamingError.isOther name.name) := by
    refine violations_outermost (fun other hother => ?_) ?_ htimelines
    · have hdeclares : firstDeclaration? [.declares .binding name] other = none := by
        simp [firstDeclaration?, Happening.declaration?, Ne.symm hother]
      rw [firstDeclaration?_append, hdeclares, Option.or_none]
    · rw [declared_append, declared_declares, decide_eq_true rfl, Bool.or_true]
  rw [Program.sites, Program.sites, p.timeline_declaring name place hvalue, Program.timeline,
    violations_sitesFrom_append, violations_sitesFrom_append, List.nil_append, Happening.sitesFrom,
    violations_append, hnew, hrest, List.filter_append, Stmt.hoisted, filter_violations_declares]
  rfl

/-- A declaration of a new global name removes just its own errors. Take any program that the
    parser returns, a name that neither `let` nor `fn` declares in its global frame, and any
    literal. With a `let` of that name and literal in front, the check finds the errors that it
    found before, in the same order, without those that say that the name is undefined. -/
theorem analyze_declaring (tokens : List Token) (p : Program) (errors : List SyntaxError)
    (hparse : parse tokens = .ok (p, errors)) (name : Identifier) (value : Expr)
    (place : Location) (hname : name.name ∉ Stmt.allDeclaredNames p.body)
    (hvalue : value.isLiteral = true) :
    ∃ found, analyze p = .ok found ∧
      analyze (p.declaring name value place) = .ok (found.filter fun error =>
        error.diagnostic.text ≠ "Undefined variable '" ++ name.name ++ "'") := by
  have hnative : Stmt.allNative p.body = true := (parse_ok hparse).1
  have hliteral : value.native = true := by
    cases value with
    | number | string | color => rfl
    | _ => cases hvalue
  have hnative' : Stmt.allNative (p.declaring name value place).body = true := by
    rw [Program.declaring, Stmt.allNative_cons, hnative, Stmt.native, hliteral]
    rfl
  have hfresh : declared p.timeline name.name = false :=
    Bool.eq_false_iff.mpr fun h => hname ((p.declared_timeline_iff name.name).mp h)
  rw [Program.timeline, declared_append, Bool.or_eq_false_iff] at hfresh
  refine ⟨_, analyze_eq_ok hnative, ?_⟩
  rw [analyze_eq_ok hnative']
  exact congrArg Except.ok (p.violations_declaring name place hvalue hfresh.1 hfresh.2)

/-- A name that is used in the global frame, is a parameter of a function, and is used and then
    declared in a scene, with two errors that are not about it. -/
theorem analyze_declaring_sample :
    let tokens := tokenize
      "let a = z\nfn f(z) \x7b return z + b \x7d\nlet a = 1\nscene s \x7b z\nlet z = z \x7d"
    ∃ p found, parse tokens = .ok (p, []) ∧ "z" ∉ Stmt.allDeclaredNames p.body ∧
      analyze p = .ok found ∧
      found.map (fun error => error.diagnostic.text) =
        ["Undefined variable 'z'", "Undefined variable 'b'",
          "Variable 'a' is already declared in this scope", "Undefined variable 'z'",
          "Undefined variable 'z'"] ∧
      analyze (p.declaring ⟨"z", .start⟩ (.string "" .start) .start) =
        .ok (found.filter fun error =>
          error.diagnostic.text ≠ "Undefined variable '" ++ "z" ++ "'") := by
  intro tokens
  have hread : (parse tokens).toOption.map (fun read =>
      (read.2, Stmt.allDeclaredNames read.1.body,
        (analyze read.1).toOption.map (List.map fun error => error.diagnostic.text))) =
      some ([], ["a", "f", "a"], some ["Undefined variable 'z'", "Undefined variable 'b'",
        "Variable 'a' is already declared in this scope", "Undefined variable 'z'",
        "Undefined variable 'z'"]) := by decide +kernel
  obtain ⟨p, errors, hparse⟩ := parse_eq_ok (show NumbersReadable (tokens.takeWhile _) by
    decide +kernel)
  rw [hparse] at hread
  simp only [Except.toOption, Option.map_some, Option.some.injEq, Prod.mk.injEq] at hread
  obtain ⟨rfl, hnames, htexts⟩ := hread
  have hname : "z" ∉ Stmt.allDeclaredNames p.body := by
    rw [hnames]
    decide
  obtain ⟨found, hfound, hdeclaring⟩ := analyze_declaring tokens p [] hparse ⟨"z", .start⟩
    (.string "" .start) .start hname rfl
  rw [hfound] at htexts
  exact ⟨p, found, hparse, hname, hfound, Option.some.inj htexts, hdeclaring⟩

end Storyboard
