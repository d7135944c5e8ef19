import Wsarb.Library.Histograms

/-!
Owns the two ways the load test reads a percentile of frame ages: off the sorted list of one
stream's ages, and off the sweeper's histogram of one bucket per millisecond. They agree, save that
everything beyond the last bucket reads as that bucket.

A percentile `p` enters only through the index it picks out of the highest one, which the source
computes in floating point: `rank x` stands for `(x as f64 * p) as u64`. A list indexed past its
end panics; the outer `none` stands for the panic.
-/

namespace Wsarb.LoadTest

open Wsarb.Library

/-- One bucket per millisecond, and the last one is everything beyond. -/
def ageBuckets : Nat := 120001

/-- Percentile read off a histogram of one bucket per millisecond. -/
def pctOf (hist : List Nat) (rank : Nat → Nat) : Nat :=
  let total := hist.sum
  if total = 0 then 0
  else (scan (rank (total - 1)) 0 0 hist).getD (hist.length - 1)

/-- Age at the given percentile, if there are any ages. -/
def agePct (agesMs : List Nat) (rank : Nat → Nat) : Option (Option Nat) :=
  if agesMs.isEmpty then some none
  else (ordered agesMs)[rank (agesMs.length - 1)]?.map some

/-- The sweeper counts one age; the counters are `u32` and wrap, as in the release build. -/
def countAge (hist : List Nat) (age : Nat) : List Nat :=
  hist.modify (min age (ageBuckets - 1)) fun c => (c + 1) % UInt32.size

variable {ages : List Nat}

/-- What the sweeper counts up is the histogram of the ages, each counter wrapped. -/
theorem foldl_countAge (ages : List Nat) :
    ages.foldl countAge (List.replicate ageBuckets 0) =
      (tally ageBuckets (ages.map (min · (ageBuckets - 1)))).map (· % UInt32.size) := by
  rw [← foldl_modify, List.foldl_map]
  rfl

/-- As long as no bucket overflows it is the histogram itself. -/
theorem foldl_countAge_of_lt
    (fits : ∀ age, (ages.map (min · (ageBuckets - 1))).count age < UInt32.size) :
    ages.foldl countAge (List.replicate ageBuckets 0) =
      tally ageBuckets (ages.map (min · (ageBuckets - 1))) := by
  rw [foldl_countAge, tally, List.map_map]
  apply List.map_congr_left
  intro age _
  exact Nat.mod_eq_of_lt (fits age)

/-- Off the histogram, the percentile is the age of that rank. -/
theorem pctOf_tally {buckets : Nat} (rank : Nat → Nat)
    (within : ∀ age ∈ ages, age < buckets)
    (ranked : rank (ages.length - 1) < (ordered ages).length) :
    pctOf (tally buckets ages) rank = (ordered ages)[rank (ages.length - 1)] := by
  have total : (tally buckets ages).sum = ages.length := sum_tally within
  have positive : ages.length ≠ 0 := by
    rw [length_ordered] at ranked
    omega
  simp only [pctOf, total, if_neg positive, scan_tally within ranked, Option.getD_some]

/-- So it is off the sorted list. -/
theorem agePct_eq {rank : Nat → Nat} (ranked : rank (ages.length - 1) < (ordered ages).length) :
    agePct ages rank = some (some (ordered ages)[rank (ages.length - 1)]) := by
  have nonempty : ages.isEmpty = false := by
    cases ages with
    | nil =>
        rw [length_ordered] at ranked
        exact absurd ranked (Nat.not_lt_zero _)
    | cons _ _ => rfl
  rw [agePct, nonempty, List.getElem?_eq_getElem ranked]
  simp

/-- For every list of ages and every rank within it: the scan over the histogram of the ages, those
beyond the last bucket counted in it, returns the age of that rank or the last bucket, whichever is
less. Where all ages are below the number of buckets it returns the age of that rank, and the two
readings of a percentile agree. The histogram is the sweeper's as long as no bucket overflows. -/
theorem scan_eq_sorted (buckets : Nat) (positive : 0 < buckets) (ages : List Nat) (want : Nat)
    (ranked : want < ages.length) :
    (∃ age, (ordered ages)[want]? = some age ∧
      scan want 0 0 (tally buckets (ages.map (min · (buckets - 1)))) =
          some (min age (buckets - 1)) ∧
        (∀ rank : Nat → Nat, rank (ages.length - 1) = want →
          pctOf (tally buckets (ages.map (min · (buckets - 1)))) rank = min age (buckets - 1)) ∧
        ((∀ age ∈ ages, age < buckets) →
          scan want 0 0 (tally buckets ages) = some age ∧
            ∀ rank : Nat → Nat, rank (ages.length - 1) = want →
              pctOf (tally buckets ages) rank = age ∧ agePct ages rank = some (some age))) ∧
      ((∀ age, (ages.map (min · (ageBuckets - 1))).count age < UInt32.size) →
        ages.foldl countAge (List.replicate ageBuckets 0) =
          tally ageBuckets (ages.map (min · (ageBuckets - 1)))) := by
  have clamped : ∀ age ∈ ages.map (min · (buckets - 1)), age < buckets := by
    intro age member
    obtain ⟨given, -, rfl⟩ := List.mem_map.mp member
    omega
  have keeps : ∀ a b : Nat, a ≤ b → min a (buckets - 1) ≤ min b (buckets - 1) := by
    intro a b le
    omega
  have inRange : want < (ordered ages).length := by
    rwa [length_ordered]
  have inClamped : want < (ordered (ages.map (min · (buckets - 1)))).length := by
    rwa [length_ordered, List.length_map]
  refine ⟨⟨(ordered ages)[want], List.getElem?_eq_getElem inRange, ?_, ?_,
    fun within => ⟨scan_tally within inRange, ?_⟩⟩, foldl_countAge_of_lt⟩
  · rw [scan_tally clamped inClamped]
    simp only [ordered_map keeps, List.getElem_map]
  · rintro rank rfl
    have read := pctOf_tally rank clamped (by rwa [List.length_map])
    simp only [ordered_map keeps, List.getElem_map, List.length_map] at read
    exact read
  · rintro rank rfl
    exact ⟨pctOf_tally rank within inRange, agePct_eq inRange⟩

/-- Five ages in four buckets: the median is 2, and the highest is beyond the last bucket. -/
theorem scan_eq_sorted_five :
    scan 2 0 0 (tally 4 ([9, 1, 2, 1, 3].map (min · (4 - 1)))) = some 2 ∧
      scan 4 0 0 (tally 4 ([9, 1, 2, 1, 3].map (min · (4 - 1)))) = some 3 ∧
      (∃ age, (ordered [9, 1, 2, 1, 3])[4]? = some age ∧
        scan 4 0 0 (tally 4 ([9, 1, 2, 1, 3].map (min · (4 - 1)))) = some (min age (4 - 1))) ∧
      (∃ age, agePct [3, 1, 2, 1, 3] (· / 2) = some (some age) ∧
        pctOf (tally 4 [3, 1, 2, 1, 3]) (· / 2) = age) ∧
      [9, 1].foldl countAge (List.replicate ageBuckets 0) =
        tally ageBuckets ([9, 1].map (min · (ageBuckets - 1))) := by
  refine ⟨by decide, by decide, ?_, ?_, ?_⟩
  · obtain ⟨⟨age, sorted, found, -⟩, -⟩ :=
      scan_eq_sorted 4 (by decide) [9, 1, 2, 1, 3] 4 (by decide)
    exact ⟨age, sorted, found⟩
  · obtain ⟨⟨age, -, -, -, within⟩, -⟩ :=
      scan_eq_sorted 4 (by decide) [3, 1, 2, 1, 3] 2 (by decide)
    obtain ⟨counted, sorted⟩ := (within (by decide)).2 (· / 2) rfl
    exact ⟨age, sorted, counted⟩
  · exact (scan_eq_sorted 4 (by decide) [9, 1] 1 (by decide)).2 fun _ =>
      Nat.lt_of_le_of_lt List.count_le_length (by decide)

end Wsarb.LoadTest
