import Mathlib.Data.List.DropRight
import Mathlib.Data.List.Induction

/-!
Owns what has happened since an event last occurred in a history, and how often another event
has occurred since.

Does not own: what the events are.
-/

namespace Wsarb.Library

universe u

variable {α : Type u} [DecidableEq α] {mark what event : α} {history : List α}

/-- What has happened since the last `mark`; all of it, if there was none. -/
def since (mark : α) (history : List α) : List α :=
  history.rtakeWhile fun event => decide (event ≠ mark)

/-- How often `what` has happened since the last `mark`. -/
def countSince (mark what : α) (history : List α) : Nat := (since mark history).count what

@[simp] theorem since_nil (mark : α) : since mark [] = [] := List.rtakeWhile_nil _

@[simp] theorem since_mark (mark : α) (history : List α) : since mark (history ++ [mark]) = [] :=
  List.rtakeWhile_concat_neg _ _ _ (by simp)

theorem since_other (other : event ≠ mark) (history : List α) :
    since mark (history ++ [event]) = since mark history ++ [event] :=
  List.rtakeWhile_concat_pos _ _ _ (by simpa using other)

@[simp] theorem countSince_nil (mark what : α) : countSince mark what [] = 0 := by
  simp [countSince]

@[simp] theorem countSince_mark (mark what : α) (history : List α) :
    countSince mark what (history ++ [mark]) = 0 := by
  rw [countSince, since_mark, List.count_nil]

theorem countSince_what (differs : what ≠ mark) (history : List α) :
    countSince mark what (history ++ [what]) = countSince mark what history + 1 := by
  rw [countSince, since_other differs, List.count_append, List.count_singleton_self, countSince]

theorem countSince_other (apart : event ≠ mark) (other : event ≠ what) (history : List α) :
    countSince mark what (history ++ [event]) = countSince mark what history := by
  rw [countSince, since_other apart, List.count_append, List.count_singleton, countSince]
  simp [other]

theorem countSince_le (mark what : α) (history : List α) :
    countSince mark what history ≤ history.count what :=
  (List.rtakeWhile_suffix _ history).sublist.count_le what

/-- No `what` has happened since a `mark` that happened after the last `what`. -/
theorem countSince_eq_zero (after : mark ∈ since what history) :
    countSince mark what history = 0 := by
  induction history using List.reverseRecOn with
  | nil => simp at after
  | append_singleton before event inductionHypothesis =>
      by_cases same : event = what
      · subst same
        simp at after
      · rw [since_other same, List.mem_append, List.mem_singleton] at after
        by_cases last : event = mark
        · rw [last, countSince_mark]
        · rw [countSince_other last same]
          exact inductionHypothesis (after.resolve_right (Ne.symm last))

/-- Unless `mark` happened after the last `what`, some `what` has happened since. -/
theorem countSince_pos (differs : what ≠ mark) (happened : mark ∈ history)
    (before : mark ∉ since what history) :
    0 < countSince mark what history := by
  induction history using List.reverseRecOn with
  | nil => exact absurd happened List.not_mem_nil
  | append_singleton earlier event inductionHypothesis =>
      by_cases last : event = what
      · rw [last, countSince_what differs]
        omega
      · rw [since_other last, List.mem_append, List.mem_singleton, not_or] at before
        have listed : mark ∈ earlier := by
          simpa [before.2] using happened
        rw [countSince_other (Ne.symm before.2) last]
        exact inductionHypothesis listed before.1

end Wsarb.Library
