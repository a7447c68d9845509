/-
  Storyboard.Scope.Step

  A scope that is used step by step. A step that cannot be taken is answered with
  its fault and leaves the scope as it is, so that other steps can follow.
-/
import Storyboard.Scope

namespace Storyboard.Scope

/-- What can be done with a scope. -/
inductive Step where
  | enter
  | leave
  | declare (symbol : Symbol)
  | lookup (name : String)
  deriving DecidableEq, Inhabited

/-- What a step is answered with: nothing, the symbol that is there already or was looked up, or
    why the step cannot be taken. -/
inductive Answer where
  | done
  | symbol (found : Option Symbol)
  | fault (fault : Fault)
  deriving DecidableEq, Inhabited

/-- Takes a step. -/
def step (scope : Scope) : Step → Answer × Scope
  | .enter => (.done, scope.enter)
  | .leave =>
    match scope.leave with
    | .ok outer => (.done, outer)
    | .error fault => (.fault fault, scope)
  | .declare symbol =>
    match scope.declare symbol with
    | .ok (previous, after) => (.symbol previous, after)
    | .error fault => (.fault fault, scope)
  | .lookup name => (.symbol (scope.lookup name), scope)

/-- Takes steps one after the other. -/
def run (scope : Scope) (steps : List Step) : Scope :=
  steps.foldl (fun scope step => (scope.step step).2) scope

end Storyboard.Scope
