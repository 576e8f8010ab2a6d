import Mathlib.Logic.Relation
import PlatformSnapshot.Files.Inquiry
/-!
Two inquiries side by side. They take turns question by question, in any order whatever. As long as
the file system does not change, both come to their end, and each to the result that it has alone.
-/
namespace PlatformSnapshot.Files

/-- Two inquiries side by side. -/
structure Threads (α β : Type) where
  left : Inquiry α
  right : Inquiry β

namespace Threads

variable {α β : Type} {view : Access}

/-- One of the two asks its next question. -/
inductive Step (view : Access) : Threads α β → Threads α β → Prop where
  | left (q : Question) (next : q.Answer → Inquiry α) (y : Inquiry β) :
      Step view ⟨.ask q next, y⟩ ⟨next (view.answer q), y⟩
  | right (x : Inquiry α) (q : Question) (next : q.Answer → Inquiry β) :
      Step view ⟨x, .ask q next⟩ ⟨x, next (view.answer q)⟩

abbrev Run (view : Access) : Threads α β → Threads α β → Prop := Relation.ReflTransGen (Step view)

def results (view : Access) (t : Threads α β) : α × β := (t.left.result view, t.right.result view)

/-- The turn of one thread changes the result of neither. -/
theorem results_step {t u : Threads α β} (h : Step view t u) : u.results view = t.results view := by
  cases h <;> rfl

theorem results_run {t u : Threads α β} (h : Run view t u) : u.results view = t.results view := by
  induction h with
  | refl => rfl
  | tail _ hstep ih => rw [results_step hstep, ih]

/-- However the turns were taken, two threads at their end have the results that each has alone. -/
theorem eq_results_of_run {t : Threads α β} {a : α} {b : β} (h : Run view t ⟨.done a, .done b⟩) :
    (a, b) = t.results view := results_run h

/-- Only threads at their ends have no turn left. -/
theorem done_of_stuck {t : Threads α β} (h : ∀ u, ¬ Step view t u) : ∃ a b, t = ⟨.done a, .done b⟩ := by
  obtain ⟨x, y⟩ := t
  cases x with
  | ask q next => exact absurd (.left q next y) (h _)
  | done a =>
    cases y with
    | ask q next => exact absurd (.right (.done a) q next) (h _)
    | done b => exact ⟨a, b, rfl⟩

/-- No turns can go on for ever: each uses up a question of one inquiry. -/
theorem acc_step (t : Threads α β) : Acc (fun u t => Step view t u) t := by
  obtain ⟨x, y⟩ := t
  induction x generalizing y with
  | done a =>
    induction y with
    | done b => exact .intro _ (by rintro _ ⟨⟩)
    | ask q next ih =>
      refine .intro _ ?_
      rintro _ ⟨⟩
      exact ih (view.answer q)
  | ask p first ihx =>
    induction y with
    | done b =>
      refine .intro _ ?_
      rintro _ ⟨⟩
      exact ihx (view.answer p) _
    | ask q next ihy =>
      refine .intro _ ?_
      intro u h
      cases h with
      | left => exact ihx (view.answer p) _
      | right => exact ihy (view.answer q)

end Threads
end PlatformSnapshot.Files
