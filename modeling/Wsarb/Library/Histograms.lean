import Mathlib.Algebra.Ring.Nat
import Mathlib.Data.List.Sort
import Wsarb.Library.Ladder

/-!
Owns histograms of one bucket per number: how many numbers fall in each, the first bucket at which
their running total passes a rank, and that this bucket is the number of that rank in the sorted
list.
-/

namespace Wsarb.Library

def tally (buckets : Nat) (numbers : List Nat) : List Nat :=
  (List.range buckets).map fun v => numbers.count v

/-- The index of the first bucket at which the running total passes a rank, counted on from an
index and a total. -/
def scan (rank : Nat) : Nat → Nat → List Nat → Option Nat
  | _, _, [] => none
  | index, seen, c :: rest =>
      if rank < seen + c then some index else scan rank (index + 1) (seen + c) rest

def ordered (numbers : List Nat) : List Nat := numbers.mergeSort

variable {numbers : List Nat}

theorem ordered_perm (numbers : List Nat) : (ordered numbers).Perm numbers :=
  List.mergeSort_perm _ _

theorem pairwise_ordered (numbers : List Nat) : (ordered numbers).Pairwise (· ≤ ·) :=
  List.pairwise_mergeSort' _ _

theorem length_ordered (numbers : List Nat) : (ordered numbers).length = numbers.length :=
  (ordered_perm numbers).length_eq

/-- A change of numbers that keeps their order commutes with sorting. -/
theorem ordered_map {f : Nat → Nat} (keeps : ∀ a b, a ≤ b → f a ≤ f b) (numbers : List Nat) :
    ordered (numbers.map f) = (ordered numbers).map f := by
  have same : (ordered (numbers.map f)).Perm ((ordered numbers).map f) :=
    (ordered_perm _).trans ((ordered_perm numbers).map f).symm
  have rising : ((ordered numbers).map f).Pairwise (· ≤ ·) :=
    List.pairwise_map.mpr ((pairwise_ordered numbers).imp fun le => keeps _ _ le)
  exact same.eq_of_pairwise' (pairwise_ordered _) rising

/-! ### Running totals -/

theorem below_succ (numbers : List Nat) (v : Nat) :
    below id numbers (v + 1) = upTo id numbers v := by
  rw [below, upTo]
  congr 1
  funext number
  rw [decide_eq_decide]
  exact Nat.lt_succ_iff

theorem below_add_count (numbers : List Nat) (v : Nat) :
    below id numbers v + numbers.count v = upTo id numbers v := by
  rw [← below_add_countP, List.count_eq_countP]
  congr 1

theorem below_of_lt {bound : Nat} (within : ∀ number ∈ numbers, number < bound) :
    below id numbers bound = numbers.length := by
  rw [below, List.countP_eq_length]
  exact fun number member => decide_eq_true (within number member)

/-- Up to a bucket, and over the next ones. -/
theorem below_add_sum (numbers : List Nat) (index count : Nat) :
    below id numbers index + ((List.range' index count).map fun v => numbers.count v).sum =
      below id numbers (index + count) := by
  induction count generalizing index with
  | zero => rfl
  | succ count inductionHypothesis =>
      rw [List.range'_succ, List.map_cons, List.sum_cons, ← Nat.add_assoc, below_add_count,
        ← below_succ, inductionHypothesis, Nat.add_right_comm]
      rfl

/-- The running total passes a rank at the number of which fewer lie below than the rank and
more up to it. -/
theorem scan_finds (numbers : List Nat) (rank : Nat) : ∀ (count index : Nat),
    below id numbers index ≤ rank → rank < below id numbers (index + count) →
      ∃ v, scan rank index (below id numbers index)
          ((List.range' index count).map fun v => numbers.count v) = some v ∧
        below id numbers v ≤ rank ∧ rank < upTo id numbers v := by
  intro count
  induction count with
  | zero => exact fun index reached passed => absurd passed (Nat.not_lt.mpr reached)
  | succ count inductionHypothesis =>
      intro index reached passed
      rw [List.range'_succ, List.map_cons, scan, below_add_count]
      by_cases here : rank < upTo id numbers index
      · exact ⟨index, if_pos here, reached, here⟩
      · rw [if_neg here, ← below_succ]
        apply inductionHypothesis
        · rw [below_succ]
          exact Nat.not_lt.mp here
        · rwa [Nat.add_right_comm]

/-- The number of a rank is the one of which no more lie below than the rank, and more up to it. -/
theorem getElem_ordered {rank v : Nat} (inRange : rank < (ordered numbers).length)
    (reached : below id numbers v ≤ rank) (passed : rank < upTo id numbers v) :
    (ordered numbers)[rank] = v := by
  have ascending : Ascending id (ordered numbers) := pairwise_ordered numbers
  have belowSame : below id (ordered numbers) v = below id numbers v :=
    (ordered_perm numbers).countP_eq _
  have upToSame : upTo id (ordered numbers) v = upTo id numbers v :=
    (ordered_perm numbers).countP_eq _
  have high : ¬ (ordered numbers)[rank] < v := by
    rw [← belowSame] at reached
    exact fun less => absurd ((lt_below_iff ascending v inRange).mpr less)
      (Nat.not_lt.mpr reached)
  have low : (ordered numbers)[rank] ≤ v := by
    rw [← upToSame] at passed
    exact (lt_upTo_iff ascending v inRange).mp passed
  omega

/-- The scan over the histogram finds the number of that rank. -/
theorem scan_tally {buckets rank : Nat} (within : ∀ number ∈ numbers, number < buckets)
    (inRange : rank < (ordered numbers).length) :
    scan rank 0 0 (tally buckets numbers) = some (ordered numbers)[rank] := by
  have passed : rank < below id numbers (0 + buckets) := by
    rwa [Nat.zero_add, below_of_lt within, ← length_ordered]
  obtain ⟨v, finds, reached, passed⟩ := scan_finds numbers rank buckets 0
    (by rw [below_zero]; exact Nat.zero_le _) passed
  rw [below_zero, ← List.range_eq_range'] at finds
  rw [tally, finds, getElem_ordered inRange reached passed]

theorem sum_tally {buckets : Nat} (within : ∀ number ∈ numbers, number < buckets) :
    (tally buckets numbers).sum = numbers.length := by
  have total := below_add_sum numbers 0 buckets
  rwa [below_zero, Nat.zero_add, Nat.zero_add, below_of_lt within, ← List.range_eq_range'] at total

/-! ### Filling -/

/-- One more number raises its own bucket. -/
theorem tally_append_singleton (buckets : Nat) (numbers : List Nat) (number : Nat) :
    tally buckets (numbers ++ [number]) = (tally buckets numbers).modify number (· + 1) := by
  apply List.ext_getElem
  · simp [tally]
  · intro v first second
    rw [List.getElem_modify]
    simp only [tally, List.getElem_map, List.getElem_range, List.count_append,
      List.count_singleton, beq_iff_eq]
    split <;> simp

/-- Counters that wrap follow the histogram. -/
theorem modify_tally (width buckets : Nat) (numbers : List Nat) (number : Nat) :
    ((tally buckets numbers).map (· % width)).modify number (fun c => (c + 1) % width) =
      (tally buckets (numbers ++ [number])).map (· % width) := by
  rw [tally_append_singleton]
  apply List.ext_getElem
  · simp
  · intro v first second
    simp only [List.getElem_modify, List.getElem_map]
    split
    · exact Nat.mod_add_mod _ _ _
    · rfl

/-- Buckets beyond all numbers are empty. -/
theorem tally_add {buckets : Nat} (within : ∀ number ∈ numbers, number < buckets) (more : Nat) :
    tally (buckets + more) numbers = tally buckets numbers ++ List.replicate more 0 := by
  rw [tally, List.range_add, List.map_append, List.map_map, tally]
  congr 1
  apply List.eq_replicate_iff.mpr
  refine ⟨by simp, fun count member => ?_⟩
  obtain ⟨v, -, rfl⟩ := List.mem_map.mp member
  refine List.count_eq_zero.mpr fun listed => ?_
  exact absurd (within _ listed) (Nat.not_lt.mpr (Nat.le_add_right buckets v))

/-- Counting numbers up one at a time, in counters that wrap, gives the histogram with each
counter wrapped. -/
theorem foldl_modify (width buckets : Nat) (numbers : List Nat) :
    numbers.foldl (fun hist number => hist.modify number fun c => (c + 1) % width)
        (List.replicate buckets 0) =
      (tally buckets numbers).map (· % width) := by
  have onwards : ∀ done,
      numbers.foldl (fun hist number => hist.modify number fun c => (c + 1) % width)
          ((tally buckets done).map (· % width)) =
        (tally buckets (done ++ numbers)).map (· % width) := by
    induction numbers with
    | nil =>
        intro done
        rw [List.append_nil, List.foldl_nil]
    | cons number rest inductionHypothesis =>
        intro done
        rw [List.foldl_cons, modify_tally, inductionHypothesis, List.append_assoc,
          List.singleton_append]
  have empty : (tally buckets []).map (· % width) = List.replicate buckets 0 := by
    simp [tally, List.map_const']
  rw [← empty]
  exact onwards []

end Wsarb.Library
