/-
  Storyboard.Proofs.Command.Saving

  The command writes all or nothing. It compiles the text that its arguments choose;
  if that fails then no file is touched, and otherwise the files that were asked for
  stand in the output directory and nothing else has changed, but for the directories
  that had to be made on the way there. What a file holds is decided by the
  compilation alone.
-/
import Storyboard.Proofs.Command.Tree
import Storyboard.Proofs.Compile.Totality

namespace Storyboard.Command

-- ============================================================================
-- What is chosen, asked for and saved
-- ============================================================================

/-- The text that a run with given settings compiles, as the files stand: the text of a file, the
    one given as an argument, or the sample. There is none if the file has no text, or if its
    switch was given none. -/
inductive Chosen (settings : Settings) (tree : FileTree) : SourceText → Prop
  | file {path : String} {content : ByteArray} {text : String}
      (hinput : settings.input = some path) (hpath : path ≠ "")
      (hread : tree.read path = .ok content) (htext : String.fromUTF8? content = some text) :
      Chosen settings tree ⟨path, String.ofList (Text.withNewlines text.toList)⟩
  | code {text : String} (hinput : settings.input = none ∨ settings.input = some "")
      (hcode : settings.code = some (some text)) : Chosen settings tree ⟨"<code>", text⟩
  | sample (hinput : settings.input = none ∨ settings.input = some "")
      (hcode : settings.code = none) : Chosen settings tree ⟨"<sample>", SelfCheck.sampleSource⟩

/-- The files that may come of a compilation. -/
inductive Artifact where
  | script
  | page
  | outline
  deriving DecidableEq

namespace Artifact

def fileName : Artifact → String
  | script => "output.js"
  | page => "preview.html"
  | outline => "ast.json"

/-- What the file holds, for a script and the program that it was written for. -/
def content (output : String) (p : Program) : Artifact → String
  | script => output
  | page => Script.page output Script.defaultTitle
  | outline => p.outline.render

/-- Whether the file is asked for; the script always is. -/
def askedFor (settings : Settings) : Artifact → Bool
  | script => true
  | page => settings.html
  | outline => settings.ast

def all : List Artifact := [script, page, outline]

theorem mem_all (a : Artifact) : a ∈ all := by cases a <;> decide

theorem fileName_plain (a : Artifact) : FileTree.PlainName a.fileName := by
  cases a <;> constructor <;> decide

end Artifact

/-- The files that are written are those asked for. -/
theorem mem_artifacts {settings : Settings} {script : String} {p : Program} {f : String × String} :
    f ∈ artifacts settings script p ↔
      ∃ a : Artifact, a.askedFor settings ∧ (a.fileName, a.content script p) = f := by
  have hartifacts : artifacts settings script p =
      (Artifact.all.filter (Artifact.askedFor settings)).map fun a =>
        (a.fileName, a.content script p) := by
    obtain ⟨test, code, input, outputDir, html, ast, quiet⟩ := settings
    cases html <;> cases ast <;> rfl
  simp [hartifacts, Artifact.mem_all]

/-- No two of them have the same name. -/
theorem nodup_artifacts (settings : Settings) (script : String) (p : Program) :
    ((artifacts settings script p).map Prod.fst).Nodup := by
  obtain ⟨test, code, input, outputDir, html, ast, quiet⟩ := settings
  cases html <;> cases ast <;> simp [artifacts]

/-- The output directory can be made and written: in it, as it is once it has been made, each file
    that is asked for can be written. -/
def CanSave (settings : Settings) (tree : FileTree) (directory : String) : Prop :=
  settings.outputDir = some directory ∧
    ∃ made, FileTree.makeDirectories directory.toList tree = .ok () made ∧
      ∀ a : Artifact, a.askedFor settings → ∀ content : String, ∃ after,
        FileTree.write (inDirectory directory a.fileName) content made = .ok () after

/-- What a compilation has come to is saved: the files asked for stand in the output directory, and
    every other place is as it was, but for directories that a leading part of its path leads to. -/
def Saved (settings : Settings) (directory script : String) (p : Program)
    (before after : FileTree) : Prop :=
  ∃ place, after.resolve directory = .ok (place, .directory) ∧
    (∀ a : Artifact, a.askedFor settings →
      after.get? (place ++ [a.fileName]) = some (.file (a.content script p).toUTF8)) ∧
    ∀ other, (∀ a : Artifact, a.askedFor settings → other ≠ place ++ [a.fileName]) →
      after.get? other = before.get? other ∨
        (before.get? other = none ∧ after.get? other = some .directory ∧
          ∃ front, front <+: directory.toList ∧
            after.resolve (String.ofList front) = .ok (other, .directory))

-- ============================================================================
-- Writing several files
-- ============================================================================

/-- Files of different names that can each be written in a directory can be written there one after
    the other. Nothing else changes. -/
theorem writeAll_eq {directory : String} (hdirectory : directory ≠ "") {place : Place}
    {files : List (String × String)} {w : Memory}
    (hplain : ∀ f ∈ files, FileTree.PlainName f.1) (hdistinct : (files.map Prod.fst).Nodup)
    (hwritable : ∀ f ∈ files, FileTree.Writable w.tree directory f.1 place) :
    ∃ after : FileTree,
      (forIn files PUnit.unit fun f _ => do
        Host.writeText (inDirectory directory f.1) f.2
        pure (ForInStep.yield PUnit.unit) : InMemory PUnit) w = .ok .unit { w with tree := after } ∧
      FileTree.Keeps w.tree after ∧
      (∀ f ∈ files, after.get? (place ++ [f.1]) = some (.file f.2.toUTF8)) ∧
      ∀ other, (∀ f ∈ files, other ≠ place ++ [f.1]) → after.get? other = w.tree.get? other := by
  induction files generalizing w with
  | nil =>
    refine ⟨w.tree, rfl, fun _ h => h, ?_, fun _ _ => rfl⟩
    intro f hf
    cases hf
  | cons f files ih =>
    rw [List.map_cons, List.nodup_cons] at hdistinct
    have hfirst := hwritable f List.mem_cons_self
    have hname := hplain f List.mem_cons_self
    -- The names differ, so writing one file leaves the places of the others writable.
    have hne : ∀ g ∈ files, g.1 ≠ f.1 := fun g hg h =>
      hdistinct.1 (h ▸ List.mem_map_of_mem hg)
    let w' : Memory := { w with tree := w.tree.put (place ++ [f.1]) (.file f.2.toUTF8) }
    have hstep : (Host.writeText (inDirectory directory f.1) f.2 : InMemory Unit) w = .ok () w' := by
      change onTree (FileTree.write (inDirectory directory f.1) f.2) w = _
      rw [onTree, FileTree.write_eq hdirectory hname hfirst]
    obtain ⟨after, hloop, hkeeps, hfiles, hothers⟩ := @ih w'
      (fun g hg => hplain g (List.mem_cons_of_mem f hg)) hdistinct.2
      (fun g hg => (hwritable g (List.mem_cons_of_mem f hg)).put hfirst (hne g hg) _)
    refine ⟨after, ?_, ?_, ?_, ?_⟩
    · rw [List.forIn_cons]
      change EStateM.bind (EStateM.bind _ _) _ w = _
      simp only [EStateM.bind, hstep]
      exact hloop
    · intro q hq
      exact hkeeps q (FileTree.keeps_put hfirst.free q hq)
    · intro g hg
      rcases List.mem_cons.mp hg with rfl | hg
      · -- The first file is still what it was made to be, since none of the others has its place.
        rw [hothers, FileTree.get?_put_self (hname.standing? place)]
        intro h hh heq
        have hcons := (List.append_inj' heq rfl).2
        exact hne h hh (List.cons.inj hcons).1.symm
      · exact hfiles g hg
    · intro other hother
      rw [hothers other (fun g hg => hother g (List.mem_cons_of_mem f hg)),
        FileTree.get?_put_of_ne (hother f List.mem_cons_self)]

-- ============================================================================
-- Saving
-- ============================================================================

/-- No directory has an empty path. -/
theorem makeDirectories_nil_ne {tree made : FileTree} :
    FileTree.makeDirectories [] tree ≠ .ok () made := by
  have hmake : tree.makeDirectory (String.ofList []) = .error .missing := rfl
  have hdirectory : tree.isDirectory (String.ofList []) = false := rfl
  rw [FileTree.makeDirectories]
  simp [FileTree.cutPath, FileTree.cutLast, FileTree.ensureDirectory, hmake, hdirectory]

/-- A directory that can be written has a place, at which all files asked for can be. -/
theorem CanSave.exists_place {settings : Settings} {tree : FileTree} {directory : String}
    (hcan : CanSave settings tree directory) :
    directory ≠ "" ∧ settings.outputDir = some directory ∧
      ∃ made place, FileTree.makeDirectories directory.toList tree = .ok () made ∧
        ∀ a : Artifact, a.askedFor settings →
          FileTree.Writable made directory a.fileName place := by
  obtain ⟨houtput, made, hmake, hwrite⟩ := hcan
  have hdirectory : directory ≠ "" := by
    rintro rfl
    exact makeDirectories_nil_ne hmake
  have hplace (a : Artifact) (ha : a.askedFor settings) :
      ∃ place, FileTree.Writable made directory a.fileName place := by
    obtain ⟨after, hafter⟩ := hwrite a ha ""
    exact FileTree.exists_writable hdirectory a.fileName_plain hafter
  obtain ⟨place, hscript⟩ := hplace .script rfl
  refine ⟨hdirectory, houtput, made, place, hmake, ?_⟩
  intro a ha
  obtain ⟨place', hwritable⟩ := hplace a ha
  have hsame : place' = place := by
    have haround := hwritable.around.symm.trans hscript.around
    cases haround
    rfl
  exact hsame ▸ hwritable

/-- Where the output directory can be made and written, everything is saved. -/
theorem save_saved {settings : Settings} {w : Memory} {directory : String}
    (hcan : CanSave settings w.tree directory) (script : String) (p : Program) :
    ∃ after, (save settings script p : InMemory Unit) w = .ok () after ∧
      Saved settings directory script p w.tree after.tree := by
  obtain ⟨hdirectory, houtput, made, place, hmake, hwritable⟩ := hcan.exists_place
  have hplain : ∀ f ∈ artifacts settings script p, FileTree.PlainName f.1 := by
    intro f hf
    obtain ⟨a, -, rfl⟩ := mem_artifacts.mp hf
    exact a.fileName_plain
  have hfiles : ∀ f ∈ artifacts settings script p,
      FileTree.Writable made directory f.1 place := by
    intro f hf
    obtain ⟨a, ha, rfl⟩ := mem_artifacts.mp hf
    exact hwritable a ha
  obtain ⟨after, hloop, hkeeps, hheld, hothers⟩ :=
    @writeAll_eq directory hdirectory place _ { w with tree := made } hplain
      (nodup_artifacts settings script p) hfiles
  have hsaved : Saved settings directory script p w.tree after := by
    refine ⟨place, ?_, ?_, ?_⟩
    · exact FileTree.resolve_keeps hkeeps ((hwritable .script rfl).resolve hdirectory)
    · intro a ha
      exact hheld _ (mem_artifacts.mpr ⟨a, ha, rfl⟩)
    · intro other hother
      have hsame : after.get? other = made.get? other := by
        apply hothers
        intro f hf
        obtain ⟨a, ha, rfl⟩ := mem_artifacts.mp hf
        exact hother a ha
      rw [hsame]
      -- What is not a file to be saved was there before, or is a directory along the path.
      rcases FileTree.makeDirectories_grown (.inl hmake) other with
        hsame | ⟨hnone, hmade, front, hfront, hresolve⟩
      · exact .inl hsame
      · exact .inr ⟨hnone, hmade, front, hfront, FileTree.resolve_keeps hkeeps hresolve⟩
  -- The steps of saving, one after the other: the directories, the files, and the notice.
  unfold save
  rw [houtput]
  change ∃ after, EStateM.bind (onTree (FileTree.makeDirectories directory.toList)) _ w = _ ∧ _
  simp only [EStateM.bind, onTree, hmake]
  change ∃ after, EStateM.bind _ _ _ = _ ∧ _
  simp only [EStateM.bind, hloop]
  cases settings.quiet with
  | true => exact ⟨_, rfl, hsaved⟩
  | false => exact ⟨_, rfl, hsaved⟩

-- ============================================================================
-- The command
-- ============================================================================

/-- The text that is chosen is the one that is read, and reading changes nothing. -/
theorem chooseSource_eq {settings : Settings} {w : Memory} {source : SourceText}
    (hsource : Chosen settings w.tree source) :
    (chooseSource settings : InMemory (Option SourceText)) w = .ok (some source) w := by
  cases hsource with
  | @file path content text hinput hpath hread htext =>
    have hreads : (Host.readText path : InMemory String) w = .ok text w := by
      simp only [Host.readText, hread, htext]
    simp only [chooseSource, hinput, hpath, if_false]
    change EStateM.bind (Host.readText path) _ w = _
    simp only [EStateM.bind, hreads]
    rfl
  | code hinput hcode =>
    rcases hinput with hinput | hinput <;>
      simp only [chooseSource, hinput, chooseSource.givenSource, hcode] <;> rfl
  | sample hinput hcode =>
    rcases hinput with hinput | hinput <;>
      simp only [chooseSource, hinput, chooseSource.givenSource, hcode] <;> rfl

section

variable {settings : Settings} {source : SourceText} {c : Compilation} {w : Memory}

/-- Without a script, no file is touched. -/
theorem compileWith_failed (hcompile : Compilation.ofSource source = .ok c)
    (houtput : c.output = none) :
    ∃ after, (compileWith settings source : InMemory UInt32) w = .ok 1 after ∧
      after.tree = w.tree := by
  unfold compileWith
  rw [hcompile]
  dsimp only
  rw [houtput]
  cases settings.quiet with
  | true => exact ⟨_, rfl, rfl⟩
  | false => exact ⟨_, rfl, rfl⟩

/-- A script is saved. -/
theorem compileWith_saved {script directory : String}
    (hcompile : Compilation.ofSource source = .ok c) (houtput : c.output = some script)
    (hcan : CanSave settings w.tree directory) :
    ∃ after, (compileWith settings source : InMemory UInt32) w = .ok 0 after ∧
      Saved settings directory script c.program w.tree after.tree := by
  unfold compileWith
  rw [hcompile]
  dsimp only
  rw [houtput]
  -- What is printed before does not touch the files.
  have hrest (w' : Memory) (htree : w'.tree = w.tree) :
      ∃ after, ((save settings script c.program >>= fun _ => pure 0 : InMemory UInt32) w' =
        .ok 0 after) ∧ Saved settings directory script c.program w.tree after.tree := by
    obtain ⟨after, hsave, hsaved⟩ := @save_saved settings w' directory (htree ▸ hcan) script c.program
    refine ⟨after, ?_, htree ▸ hsaved⟩
    change EStateM.bind _ _ w' = _
    simp only [EStateM.bind, hsave]
    rfl
  cases settings.quiet with
  | true => exact hrest w rfl
  | false => exact hrest { w with output := w.output ++ c.report } rfl

end

/-- The command writes all or nothing. Take arguments that ask for a run without the check of the
    table, and the text that they choose. If it does not compile, the exit code is one and all
    files are as they were. If it does, and the output directory can be made and written, the exit
    code is zero, and just the files that were asked for have been written there: the script, the
    page on request and the outline on request, each with what the compilation alone decides. -/
theorem run_all_or_nothing {arguments : List String} {settings : Settings} {w : Memory}
    {source : SourceText} (hparse : parseArguments arguments = .ok (.run settings))
    (htest : settings.test = false) (hsource : Chosen settings w.tree source) :
    ∃ c, compile source.name source.content = .ok c ∧
      (c.succeeded = false → ∃ after, (run arguments : InMemory UInt32) w = .ok 1 after ∧
        after.tree = w.tree) ∧
      (c.succeeded = true → ∀ directory, CanSave settings w.tree directory →
        ∃ script after, c.output = some script ∧
          (run arguments : InMemory UInt32) w = .ok 0 after ∧
          Saved settings directory script c.program w.tree after.tree) := by
  obtain ⟨c, hcompile, hends⟩ := Compilation.ofSource_ends source
  have hrun : (run arguments : InMemory UInt32) w =
      (compileWith settings source : InMemory UInt32) w := by
    unfold run
    rw [hparse]
    dsimp only
    rw [htest]
    change EStateM.bind (chooseSource settings) _ w = _
    simp only [EStateM.bind, chooseSource_eq hsource]
  refine ⟨c, hcompile, ?_, ?_⟩
  · intro hfailed
    rw [hrun]
    exact compileWith_failed hcompile (hends.2 hfailed)
  · intro hsucceeded directory hcan
    obtain ⟨script, houtput⟩ := hends.1 hsucceeded
    obtain ⟨after, hafter, hsaved⟩ := compileWith_saved hcompile houtput hcan
    exact ⟨script, after, houtput, hrun.trans hafter, hsaved⟩

/-- A file with foreign line ends, saved as a script and a page in a directory two levels down, of
    which neither is there; and a text that uses an unknown name. -/
theorem run_all_or_nothing_sample :
    let w : Memory := ⟨⟨[(["a.mf"], .file "let x = 1\r\nlet y = x".toUTF8)]⟩, "", ""⟩
    let settings : Settings := ⟨false, none, some "a.mf", some "out/x", true, false, true⟩
    (∃ c script after, compile "a.mf" "let x = 1\nlet y = x" = .ok c ∧ c.output = some script ∧
      (run ["--input", "a.mf", "--output-dir", "out/x", "--html", "-q"] : InMemory UInt32) w =
        .ok 0 after ∧
      Saved settings "out/x" script c.program w.tree after.tree) ∧
    ∃ after, (run ["--code=let x = y", "--ast"] : InMemory UInt32) w = .ok 1 after ∧
      after.tree = w.tree := by
  intro w settings
  constructor
  · have hparse : parseArguments ["--input", "a.mf", "--output-dir", "out/x", "--html", "-q"] =
        .ok (.run settings) := eq_ok_of_toOption (by decide +kernel)
    have htext : String.fromUTF8? "let x = 1\r\nlet y = x".toUTF8 =
        some "let x = 1\r\nlet y = x" := dif_pos (String.isValidUTF8 _)
    have hlines : String.ofList (Text.withNewlines "let x = 1\r\nlet y = x".toList) =
        "let x = 1\nlet y = x" := by decide +kernel
    have hsource : Chosen settings w.tree ⟨"a.mf", "let x = 1\nlet y = x"⟩ := by
      rw [← hlines]
      exact .file rfl (by decide) rfl htext
    -- Making the inner directory finds the outer one missing and makes it first.
    let out : FileTree := w.tree.put ["out"] .directory
    let made : FileTree := out.put ["out", "x"] .directory
    have hout : FileTree.makeDirectories "out".toList w.tree = .ok () out := by
      rw [FileTree.makeDirectories]
      rfl
    have hmake : FileTree.makeDirectories "out/x".toList w.tree = .ok () made := by
      have hcut : FileTree.cutPath "out/x".toList = ("out".toList, "x".toList) := by
        decide +kernel
      rw [FileTree.makeDirectories, hcut]
      dsimp only
      rw [if_pos ⟨by decide, by decide, by decide, Bool.false_ne_true⟩, hout]
      rfl
    -- In a directory just made no name is taken.
    have hwritable (a : Artifact) : FileTree.Writable made "out/x" a.fileName ["out", "x"] := by
      have hsteps : FileTree.steps (String.ofList (FileTree.base "out/x")) = ["out", "x"] := by
        decide +kernel
      have hfree : made.get? (["out", "x"] ++ [a.fileName]) = none := by cases a <;> rfl
      have htext : FileTree.textProblem? (inDirectory "out/x" a.fileName) = none := by
        cases a <;> decide +kernel
      refine ⟨htext, ?_, ?_⟩
      · rw [hsteps]
        rfl
      · rw [hfree]
        exact (Option.some_ne_none _).symm
    have hcan : CanSave settings w.tree "out/x" :=
      ⟨rfl, made, hmake, fun a _ content =>
        ⟨_, FileTree.write_eq (by decide) a.fileName_plain (hwritable a) content⟩⟩
    obtain ⟨c, hcompile, -, hsaved⟩ := run_all_or_nothing hparse rfl hsource
    have hstage : (compile "a.mf" "let x = 1\nlet y = x").toOption.map (·.succeeded) =
        some true := by decide +kernel
    rw [hcompile] at hstage
    obtain ⟨script, after, hafter⟩ := hsaved (Option.some.inj hstage) "out/x" hcan
    exact ⟨c, script, after, hcompile, hafter⟩
  · have hparse : parseArguments ["--code=let x = y", "--ast"] =
        .ok (.run ⟨false, some (some "let x = y"), none, some ".", false, true, false⟩) :=
      eq_ok_of_toOption (by decide +kernel)
    have hsource : Chosen ⟨false, some (some "let x = y"), none, some ".", false, true, false⟩
        w.tree ⟨"<code>", "let x = y"⟩ := .code (.inl rfl) rfl
    obtain ⟨c, hcompile, hfailed, -⟩ := run_all_or_nothing hparse rfl hsource
    have hstage : (compile "<code>" "let x = y").toOption.map (·.succeeded) = some false := by
      decide +kernel
    rw [hcompile] at hstage
    exact hfailed (Option.some.inj hstage)

end Storyboard.Command
