import PlatformSnapshot.Files.Inquiry
import PlatformSnapshot.SourceError
/-!
Reading a source as an attempt: it asks a file system one question after the other, and ends with what
was read or with the first error. An attempt says nothing of what goes on between two questions. Its
outcome in a view is what it comes to when nothing does.
-/
namespace PlatformSnapshot

/-- An inquiry that may fail, and asks nothing more once it has. -/
abbrev Attempt (α : Type) := ExceptT SourceError Files.Inquiry α

namespace Attempt

variable {α β ε : Type}

def outcome (view : Files.Access) (x : Attempt α) : Except SourceError α := x.run.result view

def given (x : Except SourceError α) : Attempt α := ExceptT.mk (pure x)

/-- Reads a source and blames its path if that fails. -/
def source (path : String) : Attempt String :=
  ExceptT.mk (.ask (.read path) fun r => .done (r.mapError (.unreadable path)))

def listing (path : String) : Attempt (List String) :=
  ExceptT.mk (.ask (.list path) fun r => .done (r.mapError (.unreadable path)))

def exists? (path : String) : Attempt Bool := ExceptT.mk (.ask (.has path) fun b => .done (.ok b))

/-- Reads a source and hands its text to a parser, whose errors are blamed on the path. -/
def parsed (path : String) (blame : String → ε → SourceError) (parse : String → Except ε α) : Attempt α := do
  given ((parse (← source path)).mapError (blame path))

/-- Reads only if that is asked for. -/
def onlyIf [Monad m] (wanted : Bool) (x : m α) : m (Option α) := if wanted then some <$> x else pure none

variable (view : Files.Access)

@[simp] theorem outcome_given (x : Except SourceError α) : outcome view (given x) = x := rfl

@[simp] theorem outcome_pure (a : α) : outcome view (pure a) = .ok a := rfl

@[simp] theorem outcome_source (path : String) :
    outcome view (source path) = (view.read path).mapError (.unreadable path) := rfl

@[simp] theorem outcome_listing (path : String) :
    outcome view (listing path) = (view.list path).mapError (.unreadable path) := rfl

@[simp] theorem outcome_exists? (path : String) : outcome view (exists? path) = .ok (view.has path) := rfl

@[simp] theorem outcome_bind (x : Attempt α) (f : α → Attempt β) :
    outcome view (x >>= f) = (outcome view x >>= fun a => outcome view (f a)) := by
  unfold outcome
  rw [ExceptT.run_bind, Files.Inquiry.result_bind]
  cases x.run.result view <;> rfl

@[simp] theorem outcome_onlyIf (wanted : Bool) (x : Attempt α) :
    outcome view (onlyIf wanted x) = onlyIf wanted (outcome view x) := by
  cases wanted with
  | false => rfl
  | true =>
    change outcome view (x >>= fun a => pure (some a)) = (outcome view x).map some
    rw [outcome_bind]
    cases outcome view x <;> rfl

end Attempt
end PlatformSnapshot
