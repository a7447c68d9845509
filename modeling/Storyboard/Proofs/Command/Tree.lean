/-
  Storyboard.Proofs.Command.Tree

  Trees of files under change: what making directories and writing files leave as it
  was.

  Steps that lead to a directory still lead there after any change that keeps the
  directories (`follow_keeps`). Making directories only adds some, each of them where
  a leading part of the path leads (`makeDirectories_grown`), also when it fails
  half-way. A file can be written in a directory just if its place is `Writable`, and
  then nothing else changes (`write_eq`, `exists_writable`).
-/
import Storyboard.Command.Run
import Storyboard.Proofs.Source.Places

namespace Storyboard.Command.FileTree

variable {tree made after : FileTree} {place other : Place}

-- ============================================================================
-- Places
-- ============================================================================

theorem get?_put_self {entry : Entry} (hplace : standing? place = none) :
    (tree.put place entry).get? place = some entry := by
  simp [get?, put, hplace]

/-- What is at another place is still there. -/
theorem get?_put_of_ne {entry : Entry} (hother : other ≠ place) :
    (tree.put place entry).get? other = tree.get? other := by
  have hfilter (entries : List (Place × Entry)) :
      (entries.filter fun e => e.1 ≠ place).lookup other = entries.lookup other := by
    induction entries with
    | nil => rfl
    | cons e entries ih =>
      obtain ⟨key, held⟩ := e
      by_cases hkey : key = place
      · rw [List.filter_cons_of_neg (by simp [hkey]), ih, List.lookup_cons, hkey,
          beq_false_of_ne hother]
      · rw [List.filter_cons_of_pos (by simp [hkey]), List.lookup_cons, List.lookup_cons, ih]
  rw [get?, get?, put, List.lookup_cons, beq_false_of_ne hother, hfilter]

/-- A place with nothing at it is none of those that are always there. -/
theorem standing?_of_get? (hplace : tree.get? place = none) : standing? place = none := by
  rw [get?] at hplace
  cases hstanding : standing? place with
  | none => rfl
  | some entry => rw [hstanding] at hplace; cases hplace

-- ============================================================================
-- Following steps
-- ============================================================================

/-- Where one step leads from a place, which must be a directory. -/
def next (tree : FileTree) (place : Place) (step : String) : Except PathProblem Place :=
  match tree.get? place with
  | none => throw .missing
  | some (.file _) => throw .notDirectory
  | some .directory =>
    if step = "" || step = "." then pure place
    else if step = ".." then pure (parent place)
    else if maxStepSize < step.utf8ByteSize then throw .nameTooLong
    else pure (place ++ [step])

theorem follow_cons (tree : FileTree) (place : Place) (step : String) (others : List String) :
    tree.follow place (step :: others) =
      tree.next place step >>= fun reached => tree.follow reached others := by
  rw [follow, next]
  cases tree.get? place with
  | none => rfl
  | some entry =>
    cases entry with
    | file content => rfl
    | directory =>
      dsimp only
      split
      · rfl
      · split
        · rfl
        · split <;> rfl

/-- Steps are followed one part after the other. -/
theorem follow_append (tree : FileTree) (place : Place) (front back : List String) :
    tree.follow place (front ++ back) =
      tree.follow place front >>= fun r => tree.follow r.1 back := by
  induction front generalizing place with
  | nil =>
    rw [List.nil_append, follow]
    cases hplace : tree.get? place with
    | some entry => rfl
    | none => cases back <;> simp only [follow, hplace] <;> rfl
  | cons step front ih =>
    rw [List.cons_append, follow_cons, follow_cons]
    cases tree.next place step with
    | error problem => rfl
    | ok reached => exact ih reached

/-- What steps lead to is at the place to which they lead. -/
theorem get?_of_follow {start : Place} {way : List String} {entry : Entry}
    (hfollow : tree.follow start way = .ok (place, entry)) : tree.get? place = some entry := by
  induction way generalizing start with
  | nil =>
    rw [follow] at hfollow
    cases hstart : tree.get? start with
    | none => rw [hstart] at hfollow; cases hfollow
    | some found => rw [hstart] at hfollow; cases hfollow; exact hstart
  | cons step way ih =>
    rw [follow_cons] at hfollow
    cases hreached : tree.next start step with
    | error problem => rw [hreached] at hfollow; cases hfollow
    | ok reached => rw [hreached] at hfollow; exact ih hfollow

/-- All directories of a tree are directories of another. -/
def Keeps (tree after : FileTree) : Prop :=
  ∀ place, tree.get? place = some .directory → after.get? place = some .directory

/-- Steps that lead to a directory do so as long as the directories are kept. -/
theorem follow_keeps (hkeeps : Keeps tree after) {start : Place} {way : List String}
    (hfollow : tree.follow start way = .ok (place, .directory)) :
    after.follow start way = .ok (place, .directory) := by
  induction way generalizing start with
  | nil =>
    rw [follow] at hfollow ⊢
    cases hstart : tree.get? start with
    | none => rw [hstart] at hfollow; cases hfollow
    | some entry =>
      rw [hstart] at hfollow
      cases hfollow
      rw [hkeeps _ hstart]
      rfl
  | cons step way ih =>
    rw [follow_cons] at hfollow ⊢
    cases hstart : tree.get? start with
    | none => rw [next, hstart] at hfollow; cases hfollow
    | some entry =>
      cases entry with
      | file content => rw [next, hstart] at hfollow; cases hfollow
      | directory =>
        have hnext : after.next start step = tree.next start step := by
          rw [next, next, hkeeps _ hstart, hstart]
        rw [hnext]
        cases hreached : tree.next start step with
        | error problem => rw [hreached] at hfollow; cases hfollow
        | ok reached => rw [hreached] at hfollow; exact ih hfollow

theorem keeps_put {entry : Entry} (hplace : tree.get? place ≠ some .directory) :
    Keeps tree (tree.put place entry) := by
  intro other hother
  have hne : other ≠ place := by
    rintro rfl
    exact hplace hother
  rw [get?_put_of_ne hne, hother]

theorem resolve_keeps (hkeeps : Keeps tree after) {path : String}
    (hresolve : tree.resolve path = .ok (place, .directory)) :
    after.resolve path = .ok (place, .directory) := by
  rw [resolve] at hresolve ⊢
  cases htext : textProblem? path with
  | some problem => rw [htext] at hresolve; cases hresolve
  | none => rw [htext] at hresolve; exact follow_keeps hkeeps hresolve

-- ============================================================================
-- Making directories
-- ============================================================================

/-- One tree has grown out of another along a path: it has the same at every place, but for
    directories where nothing was and where a leading part of the path leads now. -/
def Grown (path : List Char) (tree after : FileTree) : Prop :=
  ∀ place, after.get? place = tree.get? place ∨
    (tree.get? place = none ∧ after.get? place = some .directory ∧
      ∃ front, front <+: path ∧ after.resolve (String.ofList front) = .ok (place, .directory))

namespace Grown

variable {path front : List Char}

theorem refl (path : List Char) (tree : FileTree) : Grown path tree tree := fun _ => .inl rfl

theorem keeps (hgrown : Grown path tree after) : Keeps tree after := by
  intro place hplace
  rcases hgrown place with hsame | ⟨hnone, -, -⟩
  · rw [hsame, hplace]
  · rw [hnone] at hplace; cases hplace

theorem trans (hmade : Grown front tree made) (hfront : front <+: path)
    (hafter : Grown path made after) : Grown path tree after := by
  intro place
  rcases hafter place with hsame | ⟨hnone, hdirectory, way⟩
  · rw [hsame]
    rcases hmade place with hsame | ⟨hnone, hdirectory, way, hway, hresolve⟩
    · exact .inl hsame
    · exact .inr ⟨hnone, hdirectory, way, hway.trans hfront, resolve_keeps hafter.keeps hresolve⟩
  · refine .inr ⟨?_, hdirectory, way⟩
    rcases hmade place with hsame | ⟨hbefore, -, -⟩
    · rw [← hsame, hnone]
    · exact hbefore

/-- A new directory at the end of a path. -/
theorem put (hnone : tree.get? place = none)
    (hresolve : (tree.put place .directory).resolve (String.ofList path) = .ok (place, .directory)) :
    Grown path tree (tree.put place .directory) := by
  intro other
  by_cases hother : other = place
  · subst hother
    exact .inr ⟨hnone, get?_put_self (standing?_of_get? hnone), path, List.prefix_rfl, hresolve⟩
  · exact .inl (get?_put_of_ne hother)

end Grown

/-- Slashes at the end of a path are empty steps. -/
theorem steps_append_replicate (front : List Char) (n : Nat) :
    steps (String.ofList (front ++ List.replicate n '/')) =
      steps (String.ofList front) ++ List.replicate n "" := by
  induction n with
  | zero => simp
  | succ n ih =>
    have hsteps (cs : List Char) :
        steps (String.ofList (cs ++ ['/'])) = steps (String.ofList cs) ++ [""] := by
      rw [steps, steps, String.toList_ofList, String.toList_ofList, Text.pieces_append_cons,
        List.map_append]
      rfl
    rw [List.replicate_succ', List.replicate_succ', ← List.append_assoc, hsteps, ih,
      List.append_assoc]

/-- Empty steps lead nowhere else. -/
theorem follow_replicate (hplace : tree.get? place = some .directory) (n : Nat) :
    tree.follow place (List.replicate n "") = .ok (place, .directory) := by
  induction n with
  | zero => rw [List.replicate_zero, follow, hplace]; rfl
  | succ n ih => rw [List.replicate_succ, follow, hplace]; exact ih

/-- A step with a name of its own. -/
theorem next_name {name : String} (hplace : tree.get? place = some .directory)
    (hname : ¬(name = "" || name = "." || name = "..")) (hsize : ¬maxStepSize < name.utf8ByteSize) :
    tree.next place name = .ok (place ++ [name]) := by
  simp only [Bool.or_eq_true, decide_eq_true_eq, not_or] at hname
  simp only [next, hplace, hname, hsize, decide_false, Bool.or_self, Bool.false_eq_true, if_false]
  rfl

theorem steps_ne_nil (path : String) : steps path ≠ [] := by
  obtain ⟨others, hpieces⟩ := Text.pieces_eq_cons '/' path.toList
  rw [steps, hpieces]
  exact List.cons_ne_nil _ _

/-- The target of a path is where all steps but the last lead. -/
theorem target_eq_ok {path name : String} (htarget : tree.target path = .ok (place, name)) :
    ∃ front, steps (String.ofList (trimmed path)) = front ++ [name] ∧
      tree.follow (origin path) front = .ok (place, .directory) := by
  obtain ⟨front, last, hall⟩ : ∃ front last, steps (String.ofList (trimmed path)) = front ++ [last] :=
    ⟨_, _, (List.dropLast_concat_getLast (steps_ne_nil _)).symm⟩
  simp only [target, hall, List.dropLast_concat, List.getLastD_concat] at htarget
  cases hfollow : tree.follow (origin path) front with
  | error problem => rw [hfollow] at htarget; cases htarget
  | ok r =>
    obtain ⟨around, entry⟩ := r
    rw [hfollow] at htarget
    cases entry with
    | file content => cases htarget
    | directory =>
      cases htarget
      exact ⟨front, hall, hfollow⟩

/-- A directory that has been made is where its path leads. -/
theorem makeDirectory_eq_ok {path : String} (hmake : tree.makeDirectory path = .ok made) :
    ∃ place, tree.get? place = none ∧ made = tree.put place .directory ∧
      made.resolve path = .ok (place, .directory) := by
  unfold makeDirectory at hmake
  cases htext : textProblem? path with
  | some problem => rw [htext] at hmake; cases hmake
  | none =>
    rw [htext] at hmake
    dsimp only at hmake
    cases htarget : tree.target path with
    | error problem => rw [htarget] at hmake; cases hmake
    | ok found =>
      obtain ⟨around, name⟩ := found
      rw [htarget] at hmake
      dsimp only [bind, Except.bind] at hmake
      by_cases hname : name = "" || name = "." || name = ".."
      · simp only [hname] at hmake; cases hmake
      by_cases hsize : maxStepSize < name.utf8ByteSize
      · simp only [hname, hsize] at hmake; cases hmake
      cases hplace : tree.get? (around ++ [name]) with
      | some entry => simp only [hname, hsize, hplace] at hmake; cases hmake
      | none =>
        simp only [hname, hsize, hplace] at hmake
        cases hmake
        refine ⟨around ++ [name], hplace, rfl, ?_⟩
        -- Slashes at the end are ignored by the target, and are empty steps when the path is
        -- followed.
        obtain ⟨front, hfront, haround⟩ := target_eq_ok htarget
        obtain ⟨n, hpath⟩ := Text.exists_dropEnd '/' path.toList
        have hsteps : steps path = front ++ name :: List.replicate n "" := by
          rw [← String.ofList_toList (s := path), hpath, steps_append_replicate, ← trimmed, hfront,
            List.append_assoc]
          rfl
        have hkeeps : Keeps tree (tree.put (around ++ [name]) .directory) :=
          keeps_put (by simp [hplace])
        have hnew : (tree.put (around ++ [name]) .directory).get? (around ++ [name]) =
            some .directory := get?_put_self (standing?_of_get? hplace)
        rw [resolve, htext, hsteps]
        dsimp only
        rw [follow_append, follow_keeps hkeeps haround]
        change follow _ around (name :: List.replicate n "") = _
        rw [follow_cons, next_name (hkeeps _ (get?_of_follow haround)) hname hsize]
        exact follow_replicate hnew n

/-- A change ends in a tree, whether it is carried out or fails. -/
def Leaves (change : Change) (tree after : FileTree) : Prop :=
  change tree = .ok () after ∨ ∃ fault, change tree = .error fault after

theorem ensureDirectory_grown {path : List Char}
    (hleaves : Leaves (ensureDirectory (String.ofList path)) tree after) : Grown path tree after := by
  unfold Leaves ensureDirectory at hleaves
  cases hmake : tree.makeDirectory (String.ofList path) with
  | ok made =>
    simp only [hmake] at hleaves
    obtain ⟨place, hnone, rfl, hresolve⟩ := makeDirectory_eq_ok hmake
    rcases hleaves with hleaves | ⟨fault, hleaves⟩
    · cases hleaves; exact .put hnone hresolve
    · cases hleaves
  | error problem =>
    simp only [hmake] at hleaves
    split at hleaves
    · rcases hleaves with hleaves | ⟨fault, hleaves⟩
      · cases hleaves; exact .refl path tree
      · cases hleaves
    · rcases hleaves with hleaves | ⟨fault, hleaves⟩
      · cases hleaves
      · cases hleaves; exact .refl path tree

/-- The first part of a path that is cut is a leading part of it. -/
theorem cutLast_fst (path : List Char) : (cutLast path).1 <+: path := by
  unfold cutLast
  dsimp only
  generalize path.length - _ = n
  split
  · exact List.take_prefix n path
  · obtain ⟨count, hends⟩ := Text.exists_dropEnd '/' (path.take n)
    have hkept : Text.dropEnd (· = '/') (path.take n) <+: path.take n := ⟨_, hends.symm⟩
    exact hkept.trans (List.take_prefix n path)

theorem cutPath_fst (path : List Char) : (cutPath path).1 <+: path := by
  unfold cutPath
  dsimp only
  split
  · exact (cutLast_fst _).trans (cutLast_fst path)
  · exact cutLast_fst path

/-- Making a directory and those around it only adds directories along the path, also when it
    fails half-way. -/
theorem makeDirectories_grown {path : List Char}
    (hleaves : Leaves (makeDirectories path) tree after) : Grown path tree after := by
  -- The path around is shorter, so the induction is on the length. Whether it was made now or found
  -- there, the path itself is finished in the same way.
  induction hlength : path.length using Nat.strongRecOn generalizing path tree after with
  | ind length ih =>
    subst hlength
    unfold Leaves at hleaves
    rw [makeDirectories] at hleaves
    have hfinish {tree after : FileTree}
        (hleaves : Leaves (if (cutPath path).2 = ['.'] then pure ()
          else ensureDirectory (String.ofList path)) tree after) : Grown path tree after := by
      split at hleaves
      · rcases hleaves with hleaves | ⟨fault, hleaves⟩
        · cases hleaves; exact .refl path tree
        · cases hleaves
      · exact ensureDirectory_grown hleaves
    have hfront := cutPath_fst path
    generalize cutPath path = cut at hleaves hfinish hfront
    obtain ⟨head, last⟩ := cut
    dsimp only at hleaves hfinish hfront
    split at hleaves
    · next hcut =>
      have hhead {made : FileTree} (hmade : Leaves (makeDirectories head) tree made) :
          Grown head tree made := ih head.length hcut.2.2.1 hmade rfl
      split at hleaves
      · next made hmade => exact (hhead (.inl hmade)).trans hfront (hfinish hleaves)
      · next made hmade => exact (hhead (.inr ⟨_, hmade⟩)).trans hfront (hfinish hleaves)
      · next fault made _ hmade =>
        -- Any other fault ends it here, with what was made around.
        have hafter : Grown head tree after := by
          rcases hleaves with hleaves | ⟨_, hleaves⟩
          · cases hleaves
          · cases hleaves; exact hhead (.inr ⟨_, hmade⟩)
        exact hafter.trans hfront (.refl path after)
    · exact ensureDirectory_grown hleaves

-- ============================================================================
-- Writing files
-- ============================================================================

/-- The name of a file that can stand in any directory: one short step, not one of those that lead
    elsewhere, nor of those at places that are always there. -/
structure PlainName (name : String) : Prop where
  noSlash : '/' ∉ name.toList
  ownName : ¬(name = "" || name = "." || name = "..")
  short : ¬maxStepSize < name.utf8ByteSize
  notStanding : name ≠ "dev" ∧ name ≠ "null"

namespace PlainName

variable {name : String}

theorem standing? (hname : PlainName name) (place : Place) :
    FileTree.standing? (place ++ [name]) = none := by
  have hslash : name ≠ "/" := fun h => hname.noSlash (by rw [h]; decide)
  have hown := hname.ownName
  simp only [Bool.or_eq_true, decide_eq_true_eq, not_or] at hown
  -- each of the places that are always there ends in a step of another name
  have hplace (standing : Place) (hlast : standing.getLast? ≠ some name) :
      place ++ [name] ≠ standing := by
    rintro rfl
    exact hlast List.getLast?_concat
  have hbase : isBase (place ++ [name]) = false := by
    simp [isBase, hown.2, hplace ["/"] (by simpa using hslash.symm)]
  have hdev := hplace ["/", "dev"] (by simpa using hname.notStanding.1.symm)
  have hnull := hplace ["/", "dev", "null"] (by simpa using hname.notStanding.2.symm)
  simp [FileTree.standing?, hbase, hdev, hnull]

theorem steps (hname : PlainName name) : FileTree.steps name = [name] := by
  rw [FileTree.steps, Text.pieces_of_not_mem '/' hname.noSlash, List.map_singleton,
    String.ofList_toList]

end PlainName

/-- The path of a directory without a slash at its end. -/
def base (directory : String) : List Char :=
  if directory.toList.getLast? = some '/' then directory.toList.dropLast else directory.toList

variable {directory name : String}

theorem toList_inDirectory (hdirectory : directory ≠ "") (name : String) :
    (inDirectory directory name).toList = base directory ++ '/' :: name.toList := by
  have hnil : directory.toList ≠ [] := fun h => hdirectory (String.toList_eq_nil_iff.mp h)
  obtain ⟨front, last, hlast⟩ : ∃ front last, directory.toList = front ++ [last] :=
    ⟨_, _, (List.dropLast_concat_getLast hnil).symm⟩
  unfold inDirectory base
  simp only [hlast, List.getLast?_concat, Option.all_some, decide_eq_true_eq, Option.some.injEq,
    List.dropLast_concat]
  split
  · next hslash => simp [hlast, hslash]
  · simp [hlast]

theorem origin_inDirectory (hdirectory : directory ≠ "") (name : String) :
    origin (inDirectory directory name) = origin directory := by
  have hnil : directory.toList ≠ [] := fun h => hdirectory (String.toList_eq_nil_iff.mp h)
  have hhead : (inDirectory directory name).toList.head? = directory.toList.head? := by
    unfold inDirectory
    cases hdirectory : directory.toList with
    | nil => exact absurd hdirectory hnil
    | cons c cs => split <;> simp [hdirectory]
  rw [origin, origin, hhead]

/-- The steps to a file: those to its directory, and its name. -/
theorem steps_inDirectory (hdirectory : directory ≠ "") (hname : PlainName name) :
    steps (inDirectory directory name) = steps (String.ofList (base directory)) ++ [name] := by
  have hlast := hname.steps
  rw [steps] at hlast
  rw [steps, toList_inDirectory hdirectory, Text.pieces_append_cons, List.map_append, hlast, steps,
    String.toList_ofList]

/-- There is no slash at the end of a file's path. -/
theorem trimmed_inDirectory (hdirectory : directory ≠ "") (hname : PlainName name) :
    trimmed (inDirectory directory name) = (inDirectory directory name).toList := by
  have hnil : name.toList ≠ [] := by
    intro h
    exact hname.ownName (by simp [String.toList_eq_nil_iff.mp h])
  obtain ⟨front, last, hlast⟩ : ∃ front last, name.toList = front ++ [last] :=
    ⟨_, _, (List.dropLast_concat_getLast hnil).symm⟩
  have hslash : last ≠ '/' := by
    rintro rfl
    exact hname.noSlash (by rw [hlast]; simp)
  rw [trimmed, toList_inDirectory hdirectory, hlast, Text.dropEnd]
  simp [hslash]

/-- A file can be written in a directory: its path is none too long, the directory is there, and
    no directory has the file's name. -/
structure Writable (tree : FileTree) (directory name : String) (place : Place) : Prop where
  text : textProblem? (inDirectory directory name) = none
  around : tree.follow (origin directory) (steps (String.ofList (base directory))) =
    .ok (place, .directory)
  free : tree.get? (place ++ [name]) ≠ some .directory

/-- What a file's path leads to, if its directory is there. -/
theorem resolve_inDirectory (hdirectory : directory ≠ "") (hname : PlainName name)
    (htext : textProblem? (inDirectory directory name) = none) :
    tree.resolve (inDirectory directory name) =
      tree.follow (origin directory) (steps (String.ofList (base directory))) >>= fun r =>
        tree.follow r.1 [name] := by
  rw [resolve, htext]
  dsimp only
  rw [origin_inDirectory hdirectory, steps_inDirectory hdirectory hname, follow_append]

/-- The target of a file's path, if its directory is there. -/
theorem target_inDirectory (hdirectory : directory ≠ "") (hname : PlainName name)
    (haround : tree.follow (origin directory) (steps (String.ofList (base directory))) =
      .ok (place, .directory)) :
    tree.target (inDirectory directory name) = .ok (place, name) := by
  rw [target, trimmed_inDirectory hdirectory hname, String.ofList_toList,
    origin_inDirectory hdirectory, steps_inDirectory hdirectory hname]
  simp only [List.dropLast_concat, List.getLastD_concat, haround]
  rfl

/-- What a file's path leads to is at its place in the directory. -/
theorem resolve_around (hdirectory : directory ≠ "") (hname : PlainName name)
    (htext : textProblem? (inDirectory directory name) = none)
    (haround : tree.follow (origin directory) (steps (String.ofList (base directory))) =
      .ok (place, .directory)) :
    tree.resolve (inDirectory directory name) = tree.follow (place ++ [name]) [] := by
  have hnext := next_name (get?_of_follow haround) hname.ownName hname.short
  rw [resolve_inDirectory hdirectory hname htext, haround]
  change tree.follow place [name] = _
  rw [follow_cons, hnext]
  rfl

/-- A file whose place is writable is written, and nothing else changes. -/
theorem write_eq (hdirectory : directory ≠ "") (hname : PlainName name)
    (hwritable : Writable tree directory name place) (content : String) :
    write (inDirectory directory name) content tree =
      .ok () (tree.put (place ++ [name]) (.file content.toUTF8)) := by
  have hresolve := resolve_around hdirectory hname hwritable.text hwritable.around
  rw [follow] at hresolve
  unfold write
  cases hentry : tree.get? (place ++ [name]) with
  | none =>
    rw [hentry] at hresolve
    simp only [hresolve, target_inDirectory hdirectory hname hwritable.around]
    rfl
  | some entry =>
    rw [hentry] at hresolve
    cases entry with
    | directory => exact absurd hentry hwritable.free
    | file old => simp only [hresolve]; rfl

/-- A file is written where another was, or where nothing was in a directory. -/
theorem write_cases {path content : String} (hwrite : write path content tree = .ok () after) :
    (∃ place old, tree.resolve path = .ok (place, .file old)) ∨
      (tree.resolve path = .error .missing ∧ ∃ place name, tree.target path = .ok (place, name)) := by
  unfold write at hwrite
  split at hwrite
  · cases hwrite
  · next place old hresolve => exact .inl ⟨place, old, hresolve⟩
  · next hresolve =>
    split at hwrite
    · next place name htarget => exact .inr ⟨hresolve, place, name, htarget⟩
    · cases hwrite
  · cases hwrite

/-- Only at a writable place can a file be written. -/
theorem exists_writable (hdirectory : directory ≠ "") (hname : PlainName name) {content : String}
    (hwrite : write (inDirectory directory name) content tree = .ok () after) :
    ∃ place, Writable tree directory name place := by
  have hcases := write_cases hwrite
  -- A text that is no path has another fault than a missing entry, so nothing would be written.
  have htext : textProblem? (inDirectory directory name) = none := by
    have hpath : inDirectory directory name ≠ "" := by
      intro h
      have hlist := toList_inDirectory hdirectory name
      rw [h] at hlist
      simp at hlist
    cases htext : textProblem? (inDirectory directory name) with
    | none => rfl
    | some problem =>
      rw [resolve, htext] at hcases
      rcases hcases with ⟨_, _, hresolve⟩ | ⟨hmissing, -⟩
      · cases hresolve
      · cases hmissing
        rw [textProblem?, if_neg hpath] at htext
        split at htext
        · cases htext
        · split at htext <;> cases htext
  -- Either there is an entry already and its place has a directory around it, or there is none and
  -- the target names the directory.
  obtain ⟨place, haround⟩ : ∃ place,
      tree.follow (origin directory) (steps (String.ofList (base directory))) =
        .ok (place, .directory) := by
    rcases hcases with ⟨found, old, hresolve⟩ | ⟨-, place, last, htarget⟩
    · rw [resolve_inDirectory hdirectory hname htext] at hresolve
      cases hfollow : tree.follow (origin directory) (steps (String.ofList (base directory))) with
      | error problem => rw [hfollow] at hresolve; cases hresolve
      | ok r =>
        obtain ⟨place, entry⟩ := r
        rw [hfollow] at hresolve
        change tree.follow place [name] = _ at hresolve
        rw [follow, get?_of_follow hfollow] at hresolve
        cases entry with
        | directory => exact ⟨place, rfl⟩
        | file content => cases hresolve
    · obtain ⟨front, hfront, hfollow⟩ := target_eq_ok htarget
      rw [trimmed_inDirectory hdirectory hname, String.ofList_toList,
        steps_inDirectory hdirectory hname] at hfront
      rw [origin_inDirectory hdirectory, ← (List.append_inj' hfront rfl).1] at hfollow
      exact ⟨place, hfollow⟩
  -- A directory of that name would have been found and cannot be written.
  refine ⟨place, htext, haround, fun hentry => ?_⟩
  have hresolve := resolve_around hdirectory hname htext haround
  rw [follow, hentry] at hresolve
  rw [hresolve] at hcases
  rcases hcases with ⟨_, _, hfile⟩ | ⟨hmissing, -⟩
  · cases hfile
  · cases hmissing

theorem exists_inDirectory (directory name : String) :
    ∃ back, inDirectory directory name = directory ++ back := by
  unfold inDirectory
  split
  · exact ⟨name, rfl⟩
  · exact ⟨"/" ++ name, String.append_assoc ..⟩

namespace Writable

/-- A file that can be written is to stand where its directory's path leads. -/
theorem resolve (hdirectory : directory ≠ "") (hwritable : Writable tree directory name place) :
    tree.resolve directory = .ok (place, .directory) := by
  -- The directory is a part of the path of the file, and so has no fault that this has not.
  have htext : textProblem? directory = none := by
    obtain ⟨back, hpath⟩ := exists_inDirectory directory name
    have hproblem := hwritable.text
    rw [hpath] at hproblem
    unfold textProblem? at hproblem ⊢
    split at hproblem
    · cases hproblem
    · split at hproblem
      · cases hproblem
      · next hnul =>
        split at hproblem
        · cases hproblem
        · next hsize =>
          rw [String.utf8ByteSize_append] at hsize
          have hfront : ¬directory.toList.contains '\x00' := fun h => hnul (by
            rw [String.toList_append, List.contains_append, h, Bool.true_or])
          rw [if_neg hdirectory, if_neg hfront, if_neg (by omega)]
  -- One slash at the end is an empty step, which leads nowhere else.
  obtain ⟨n, hsteps⟩ : ∃ n, steps directory =
      steps (String.ofList (base directory)) ++ List.replicate n "" := by
    unfold base
    split
    · next hslash =>
      obtain ⟨front, hfront⟩ := List.getLast?_eq_some_iff.mp hslash
      refine ⟨1, ?_⟩
      rw [hfront, List.dropLast_concat, ← steps_append_replicate, List.replicate_one, ← hfront,
        String.ofList_toList]
    · exact ⟨0, by simp⟩
  rw [FileTree.resolve, htext]
  dsimp only
  rw [hsteps, follow_append, hwritable.around]
  exact follow_replicate (get?_of_follow hwritable.around) n

/-- A file can still be written after another one has been, next to it. -/
theorem put {other : String} (hwritable : Writable tree directory name place)
    (hother : Writable tree directory other place) (hne : name ≠ other) (content : ByteArray) :
    Writable (tree.put (place ++ [other]) (.file content)) directory name place where
  text := hwritable.text
  around := follow_keeps (keeps_put hother.free) hwritable.around
  free := by
    have hplace : place ++ [name] ≠ place ++ [other] := by simpa using hne
    rw [get?_put_of_ne hplace]
    exact hwritable.free

end Writable

end Storyboard.Command.FileTree
