import PlatformSnapshot.Files.Access
/-!
Reading as a row of single questions. An inquiry asks a file system one thing at a time, and every
answer may decide what is asked next.
-/
namespace PlatformSnapshot.Files

inductive Question where
  | read (path : String)
  | list (path : String)
  | has (path : String)
  deriving DecidableEq, Repr

@[reducible] def Question.Answer : Question → Type
  | .read _ => Except ReadFailure String
  | .list _ => Except ReadFailure (List String)
  | .has _ => Bool

def Access.answer (view : Access) : (q : Question) → q.Answer
  | .read path => view.read path
  | .list path => view.list path
  | .has path => view.has path

inductive Inquiry (α : Type) where
  | done (a : α)
  | ask (q : Question) (next : q.Answer → Inquiry α)

namespace Inquiry

variable {α β : Type}

def bind : Inquiry α → (α → Inquiry β) → Inquiry β
  | .done a, f => f a
  | .ask q next, f => .ask q fun r => (next r).bind f

instance : Monad Inquiry where
  pure := .done
  bind := bind

/-- What an inquiry comes to when nothing runs beside it. -/
def result (view : Access) : Inquiry α → α
  | .done a => a
  | .ask q next => (next (view.answer q)).result view

@[simp] theorem result_done (view : Access) (a : α) : (Inquiry.done a).result view = a := rfl

@[simp] theorem result_pure (view : Access) (a : α) : (pure a : Inquiry α).result view = a := rfl

@[simp] theorem result_bind (view : Access) (x : Inquiry α) (f : α → Inquiry β) :
    (x >>= f).result view = (f (x.result view)).result view := by
  induction x with
  | done a => rfl
  | ask q next ih => exact ih (view.answer q)

end Inquiry
end PlatformSnapshot.Files
