import BindingDocs.Log
import BindingDocs.Run.Failure

/-!
# Jobs

A job works on a workspace: it changes files, tells what it does, and may fail.  Whatever was
changed and told before a failure stays.

## Main definitions

* `Outcome`, `Job` — what a job leads to, and a job.
* `Job.tell`, `Job.fail`, `Job.look`, `Job.attempt` — the smallest jobs.

## Main results

* `Job.pure_apply`, `Job.bind_apply` — what a job put together from others does.
-/

namespace BindingDocs

/-- What a job leads to. -/
structure Outcome (α : Type) where
  result : Except Failure α
  workspace : Workspace
  /-- The messages, in order. -/
  notices : List Notice

/-- Work on a workspace. -/
def Job (α : Type) := Workspace → Outcome α

namespace Job

variable {α β : Type}

/-- A job and then another, unless the first fails. -/
def andThen (j : Job α) (k : α → Job β) : Job β := fun w =>
  let first := j w
  match first.result with
  | .error e => ⟨.error e, first.workspace, first.notices⟩
  | .ok a =>
    let second := k a first.workspace
    ⟨second.result, second.workspace, first.notices ++ second.notices⟩

instance : Monad Job where
  pure a := fun w => ⟨.ok a, w, []⟩
  bind := andThen

/-- Tells something. -/
def tell (notices : List Notice) : Job Unit := fun w => ⟨.ok (), w, notices⟩

/-- Fails. -/
def fail (e : Failure) : Job α := fun w => ⟨.error e, w, []⟩

/-- Looks at the workspace. -/
def look (f : Workspace → α) : Job α := fun w => ⟨.ok (f w), w, []⟩

/-- Looks at the workspace for something that may be missing. -/
def require (f : Workspace → Except Failure α) : Job α := fun w => ⟨f w, w, []⟩

/-- Tries to change the workspace. -/
def attempt (f : Workspace → Except Fault Workspace) (e : Fault → Failure) : Job Unit := fun w =>
  match f w with
  | .ok w => ⟨.ok (), w, []⟩
  | .error fault => ⟨.error (e fault), w, []⟩

/-- A job that does nothing. -/
@[simp] theorem pure_apply (a : α) (w : Workspace) : (pure a : Job α) w = ⟨.ok a, w, []⟩ := rfl

/-- A job after another. -/
theorem bind_apply (j : Job α) (k : α → Job β) (w : Workspace) : (j >>= k) w = j.andThen k w := rfl

end Job

end BindingDocs
