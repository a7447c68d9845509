/-
  Storyboard.Proofs.Compile.Memory

  The stages have no memory. A draft, a scope check and a compiler can be used again and
  again, also after a foreign value stopped them halfway: what they do next does not
  depend on what they were left with. A compiler that is used again gives what a
  compilation on its own gives, and is left with its tree, its log and its stage.
-/
import Storyboard.Compile.Session
import Storyboard.Proofs.Compile.Totality
import Storyboard.Proofs.Scope.Memory

namespace Storyboard

/-- A stage that has a result hands it on, in a compilation on its own and in a compiler. -/
theorem Compilation.ok_bind {α β : Type} (a : α) (f : α → Except Compilation.Fault β) :
    (Except.ok a >>= f) = f a := rfl

theorem Compilation.ok_mapError {ε α : Type} (f : ε → Compilation.Fault) (a : α) :
    (Except.ok a).mapError f = .ok a := rfl

theorem Compiler.stageResult_ok_bind {α β : Type} (a : α) (f : α → Compiler.Action β) :
    (stageResult (.ok a) >>= f) = f a := rfl

/-- Every compilation in a session is a compilation on its own, whatever the compiler was left
    with. -/
theorem Compiler.compile_eq (c : Compiler) (content : String) :
    ∃ k, Storyboard.compile c.name content = .ok k ∧
      Compiler.compile content c = .ok ⟨k.stage, k.output, k.log.entries, k.delivered⟩
        ⟨c.name, some k.program, some k.log, some k.stage⟩ := by
  obtain ⟨p, syntaxErrors, script, hparse, hnative, hgenerate⟩ := exists_parsed content
  have hanalyze := analyze_eq_ok hnative
  generalize p.sites.filterMap Site.violation? = namingErrors at hanalyze
  unfold Storyboard.compile Compilation.ofSource Compiler.compile
  simp only [hparse, Compilation.ok_mapError, Compilation.ok_bind, Compiler.stageResult_ok_bind,
    hanalyze, hgenerate]
  -- with the results of all stages at hand, each of the three ends is a computation
  cases syntaxErrors with
  | cons first others => exact ⟨_, rfl, rfl⟩
  | nil =>
    cases namingErrors with
    | cons first others => exact ⟨_, rfl, rfl⟩
    | nil => exact ⟨_, rfl, rfl⟩

/-- A script is begun in a fresh draft, so what an earlier script left in it is never read. -/
theorem Script.program_eq (p : Program) (d : Draft) : program p d = program p .fresh := rfl

/-- The stages have no memory. Whatever earlier uses left behind, also those that a foreign value
    ended halfway:
    a draft takes the same script, or stops at the same value, as a fresh one;
    a scope check gives the errors, or stops at the value, that a check of its own does, and if it
    gives errors then it has closed all its frames and added just these to what was found before;
    a compiler gives the answer of a new one of its name, which is that of a compilation on its
    own, and is left with the stage, the log and the tree of that compilation. -/
theorem stages_have_no_memory :
    (∀ (d : Script.Draft) (p : Program), Script.program p d = Script.program p .fresh) ∧
    (∀ (s : Check.State) (p : Program),
      (∃ fault t, analyze p = .error fault ∧ Check.program p s = .error fault t) ∨
      ∃ found t, analyze p = .ok found ∧ Check.program p s = .ok found t ∧
        t.scope.depth = 0 ∧ t.errors = s.errors ++ found) ∧
    (∀ (c : Compiler) (content : String),
      Compiler.compile content c = Compiler.compile content (.new c.name) ∧
      ∃ k, compile c.name content = .ok k ∧
        Compiler.compile content c = .ok ⟨k.stage, k.output, k.log.entries, k.delivered⟩
          ⟨c.name, some k.program, some k.log, some k.stage⟩) := by
  refine ⟨fun d p => Script.program_eq p d, fun s p => Check.program_cases p s, ?_⟩
  intro c content
  obtain ⟨k, hcompile, hanswer⟩ := Compiler.compile_eq c content
  obtain ⟨k', hcompile', hanswer'⟩ := Compiler.compile_eq (.new c.name) content
  have hsame : k' = k := Except.ok.inj (hcompile'.symm.trans hcompile)
  subst hsame
  exact ⟨hanswer.trans hanswer'.symm, k', hcompile, hanswer⟩

end Storyboard
