import Mathlib.Data.List.Basic

/-!
Owns how often a list of numbers falls: the places where a number is below the one before it. What
is left out of a list takes no fall into it, and a list put together from two falls once more than
they do at most.
-/

namespace Wsarb.Library

def falls : List Nat → Nat
  | first :: second :: rest => (if second < first then 1 else 0) + falls (second :: rest)
  | _ => 0

theorem falls_cons_cons (first second : Nat) (rest : List Nat) :
    falls (first :: second :: rest) =
      (if second < first then 1 else 0) + falls (second :: rest) := rfl

/-- Nothing falls to the first number. -/
theorem falls_zero_cons (numbers : List Nat) : falls (0 :: numbers) = falls numbers := by
  cases numbers with
  | nil => rfl
  | cons first rest =>
      rw [falls_cons_cons, if_neg (Nat.not_lt_zero first), Nat.zero_add]

/-- A number left out after the first takes no fall into the list. -/
theorem falls_cons_le (first second : Nat) (rest : List Nat) :
    falls (first :: rest) ≤ falls (first :: second :: rest) := by
  cases rest with
  | nil => exact Nat.zero_le _
  | cons third rest =>
      rw [falls_cons_cons, falls_cons_cons, falls_cons_cons]
      split <;> split <;> split <;> omega

theorem falls_cons_sublist {fewer numbers : List Nat} (part : fewer.Sublist numbers) :
    ∀ first, falls (first :: fewer) ≤ falls (first :: numbers) := by
  induction part with
  | slnil => exact fun _ => Nat.le_refl _
  | cons second _ inductionHypothesis =>
      exact fun first =>
        Nat.le_trans (inductionHypothesis first) (falls_cons_le first second _)
  | cons_cons second _ inductionHypothesis =>
      intro first
      rw [falls_cons_cons, falls_cons_cons]
      exact Nat.add_le_add_left (inductionHypothesis second) _

/-- A part of a list falls no more often than the list. -/
theorem falls_sublist {fewer numbers : List Nat} (part : fewer.Sublist numbers) :
    falls fewer ≤ falls numbers := by
  rw [← falls_zero_cons fewer, ← falls_zero_cons numbers]
  exact falls_cons_sublist part 0

/-- Two lists in a row fall once more than they do at most. -/
theorem falls_append_le (first second : List Nat) :
    falls (first ++ second) ≤ falls first + 1 + falls second := by
  induction first with
  | nil => exact Nat.le_add_left _ _
  | cons head rest inductionHypothesis =>
      cases rest with
      | nil =>
          cases second with
          | nil => exact Nat.zero_le _
          | cons next later =>
              rw [List.singleton_append, falls_cons_cons]
              have once : (if next < head then 1 else 0) ≤ 1 := by split <;> omega
              have single : falls [head] = 0 := rfl
              omega
      | cons next later =>
          rw [List.cons_append, List.cons_append, falls_cons_cons, falls_cons_cons]
          rw [List.cons_append] at inductionHypothesis
          omega

/-- A list in order does not fall. -/
theorem falls_of_pairwise {numbers : List Nat} (rises : numbers.Pairwise (· ≤ ·)) :
    falls numbers = 0 := by
  induction numbers with
  | nil => rfl
  | cons first rest inductionHypothesis =>
      cases rest with
      | nil => rfl
      | cons second rest =>
          have above := (List.pairwise_cons.mp rises).1 second List.mem_cons_self
          rw [falls_cons_cons, if_neg (Nat.not_lt.mpr above),
            inductionHypothesis (List.pairwise_cons.mp rises).2]

end Wsarb.Library
