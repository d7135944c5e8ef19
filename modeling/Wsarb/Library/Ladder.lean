import Mathlib.Data.List.Basic
import Mathlib.Order.Basic

/-!
Owns lists whose items carry non-decreasing heights: how many items lie up to a height
and how many strictly below it, and how these counts locate an item.
-/

namespace Wsarb.Library

universe u

variable {μ : Type u}

/-! ### Splitting a list by a predicate that holds first -/

/-- Where a predicate can only stop holding, an index lies within the count of the items
that satisfy it exactly when its item does. -/
theorem lt_countP_iff {p : μ → Bool} {items : List μ}
    (falls : items.Pairwise fun a b => p b = true → p a = true) :
    ∀ {index : Nat} (inRange : index < items.length),
      index < items.countP p ↔ p items[index] = true := by
  induction items with
  | nil => intro index inRange; simp at inRange
  | cons item rest inductionHypothesis =>
      intro index inRange
      obtain ⟨first, restFalls⟩ := List.pairwise_cons.mp falls
      cases holds : p item with
      | true =>
          rw [List.countP_cons_of_pos holds]
          cases index with
          | zero => simp [holds]
          | succ index =>
              have shorter : index < rest.length := by simpa using inRange
              have := inductionHypothesis restFalls shorter
              simp only [List.getElem_cons_succ, ← this]
              omega
      | false =>
          have none : rest.countP p = 0 := by
            rw [List.countP_eq_zero]
            intro later member satisfied
            exact absurd (first later member satisfied) (by simp [holds])
          rw [List.countP_cons_of_neg (by simp [holds]), none]
          cases index with
          | zero => simp [holds]
          | succ index =>
              simp only [Nat.not_lt_zero, List.getElem_cons_succ, false_iff]
              intro satisfied
              exact absurd (first _ (List.getElem_mem _) satisfied) (by simp [holds])

/-- Where a predicate can only stop holding, the items that fail it are what is left
after the ones that satisfy it. -/
theorem filter_not_eq_drop {p : μ → Bool} {items : List μ}
    (falls : items.Pairwise fun a b => p b = true → p a = true) :
    items.filter (fun item => !p item) = items.drop (items.countP p) := by
  induction items with
  | nil => rfl
  | cons item rest inductionHypothesis =>
      obtain ⟨first, restFalls⟩ := List.pairwise_cons.mp falls
      cases holds : p item with
      | true =>
          rw [List.countP_cons_of_pos holds, List.filter_cons_of_neg (by simp [holds]),
            List.drop_succ_cons, inductionHypothesis restFalls]
      | false =>
          have none : ∀ later ∈ rest, ¬ p later = true := by
            intro later member satisfied
            exact absurd (first later member satisfied) (by simp [holds])
          rw [List.countP_cons_of_neg (by simp [holds]), List.countP_eq_zero.mpr none,
            List.drop_zero, List.filter_cons_of_pos (by simp [holds])]
          rw [List.filter_eq_self.mpr]
          intro later member
          simpa using none later member

/-! ### Heights -/

section Heights

variable (height : μ → Nat) (items : List μ)

def Ascending : Prop := items.Pairwise fun a b => height a ≤ height b

/-- How many items lie at a height or below it. -/
def upTo (h : Nat) : Nat := items.countP fun item => height item ≤ h

/-- How many items lie strictly below a height. -/
def below (h : Nat) : Nat := items.countP fun item => height item < h

variable {height items}

theorem upTo_mono {low high : Nat} (le : low ≤ high) :
    upTo height items low ≤ upTo height items high := by
  apply List.countP_mono_left
  intro item _ lower
  simp only [decide_eq_true_eq] at lower ⊢
  omega

variable (height items) in
theorem upTo_le_below {low high : Nat} (lt : low < high) :
    upTo height items low ≤ below height items high := by
  apply List.countP_mono_left
  intro item _ lower
  simp only [decide_eq_true_eq] at lower ⊢
  omega

theorem upTo_le_length (h : Nat) : upTo height items h ≤ items.length := List.countP_le_length

@[simp] theorem below_zero : below height items 0 = 0 := by
  simp [below]

variable (height items) in
/-- The items at one height are those up to it and not below it. -/
theorem below_add_countP (h : Nat) :
    below height items h + items.countP (fun item => height item = h) = upTo height items h := by
  unfold below upTo
  induction items with
  | nil => rfl
  | cons item rest inductionHypothesis =>
      simp only [List.countP_cons, decide_eq_true_eq]
      split_ifs <;> omega

variable (ascending : Ascending height items)
include ascending

theorem lt_upTo_iff (h : Nat) {index : Nat} (inRange : index < items.length) :
    index < upTo height items h ↔ height items[index] ≤ h := by
  have falls : items.Pairwise fun a b =>
      decide (height b ≤ h) = true → decide (height a ≤ h) = true :=
    ascending.imp fun le lower => by simp only [decide_eq_true_eq] at lower ⊢; omega
  simpa [upTo] using lt_countP_iff falls inRange

theorem lt_below_iff (h : Nat) {index : Nat} (inRange : index < items.length) :
    index < below height items h ↔ height items[index] < h := by
  have falls : items.Pairwise fun a b =>
      decide (height b < h) = true → decide (height a < h) = true :=
    ascending.imp fun le lower => by simp only [decide_eq_true_eq] at lower ⊢; omega
  simpa [below] using lt_countP_iff falls inRange

/-- The items above a height are what comes after the items up to it. -/
theorem filter_above (h : Nat) :
    items.filter (fun item => h < height item) = items.drop (upTo height items h) := by
  have falls : items.Pairwise fun a b =>
      decide (height b ≤ h) = true → decide (height a ≤ h) = true :=
    ascending.imp fun le lower => by simp only [decide_eq_true_eq] at lower ⊢; omega
  rw [upTo, ← filter_not_eq_drop falls]
  congr 1
  funext item
  simp only [← decide_not, Nat.not_le]

/-- An item that opens a height stands where everything below that height ends. -/
theorem below_of_opens {h index : Nat} (inRange : index < items.length)
    (above : height items[index] = h) (before : index ≤ below height items h) :
    below height items h = index := by
  have notBelow : ¬ index < below height items h := by
    rw [lt_below_iff ascending h inRange]
    omega
  omega

end Heights

end Wsarb.Library
