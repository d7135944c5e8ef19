import Mathlib.Data.List.Induction
import Mathlib.Data.List.MinMax

/-!
Owns rankings: a list put in the order of a measure, those of equal measure left in the order they
had. Owns who answers first when the ranking is asked in turn, and the least of a list, the first
among equals.

Does not own: what is asked, or what the measure is of.
-/

namespace Wsarb.Library

universe u v

variable {α : Type u} {β : Type v} {measure : α → Nat} {listed ranking : List α}

/-- A list in the order of a measure, and among equals in the order of another list. -/
structure Ranks (measure : α → Nat) (listed ranking : List α) : Prop where
  once : ranking.Nodup
  mem_iff : ∀ a, a ∈ ranking ↔ a ∈ listed
  sorted : ranking.Pairwise fun a b => measure a ≤ measure b
  stable : ∀ a b, [a, b].Sublist listed → measure a ≤ measure b → [a, b].Sublist ranking

namespace Ranks

theorem trans_le (measure : α → Nat) (a b c : α) (first : decide (measure a ≤ measure b) = true)
    (second : decide (measure b ≤ measure c) = true) : decide (measure a ≤ measure c) = true := by
  rw [decide_eq_true_eq] at first second ⊢
  omega

theorem total_le (measure : α → Nat) (a b : α) :
    (decide (measure a ≤ measure b) || decide (measure b ≤ measure a)) = true := by
  rw [Bool.or_eq_true, decide_eq_true_eq, decide_eq_true_eq]
  omega

theorem mergeSort (once : listed.Nodup) :
    Ranks measure listed (listed.mergeSort fun a b => decide (measure a ≤ measure b)) where
  once := (List.mergeSort_perm _ _).nodup_iff.mpr once
  mem_iff := fun _ => List.mem_mergeSort
  sorted := by
    have sorted : (listed.mergeSort fun a b => decide (measure a ≤ measure b)).Pairwise
        fun a b => decide (measure a ≤ measure b) = true :=
      List.pairwise_mergeSort (trans_le measure) (total_le measure) listed
    exact sorted.imp fun le => of_decide_eq_true le
  stable := fun _ _ pair le =>
    List.pair_sublist_mergeSort (trans_le measure) (total_le measure) (decide_eq_true le) pair

/-- Some of the listed, ranked among themselves. -/
theorem filter (ranks : Ranks measure listed ranking) (keep : α → Bool) :
    Ranks measure (listed.filter keep) (ranking.filter keep) where
  once := ranks.once.filter _
  mem_iff := fun a => by rw [List.mem_filter, List.mem_filter, ranks.mem_iff]
  sorted := ranks.sorted.filter _
  stable := by
    intro a b pair le
    have kept : ∀ c ∈ [a, b], keep c = true := fun c member =>
      (List.mem_filter.mp (pair.subset member)).2
    have before := ranks.stable a b (pair.trans List.filter_sublist) le
    have same : [a, b].filter keep = [a, b] := List.filter_eq_self.mpr kept
    exact same ▸ before.filter keep

/-- In a list without repeats, what comes before an item comes before it in every split there. -/
theorem mem_of_pair {a b : α} {before after : List α} (once : (before ++ b :: after).Nodup)
    (pair : [a, b].Sublist (before ++ b :: after)) : a ∈ before := by
  obtain ⟨-, rest, apart⟩ := List.nodup_append.mp once
  have outside : b ∉ after := (List.nodup_cons.mp rest).1
  have absent : b ∉ before := fun member => apart b member b List.mem_cons_self rfl
  obtain ⟨first, second, split, inBefore, inRest⟩ := List.sublist_append_iff.mp pair
  match first, split with
  | [], split =>
      rw [List.nil_append] at split
      subst split
      have tail : [b].Sublist after := by
        cases inRest with
        | cons _ sub => exact (List.sublist_cons_self a [b]).trans sub
        | cons_cons _ sub => exact sub
      exact absurd (tail.subset List.mem_cons_self) outside
  | [c], split =>
      obtain ⟨rfl, -⟩ := List.cons.inj split
      exact inBefore.subset List.mem_cons_self
  | c :: d :: more, split =>
      obtain ⟨rfl, split⟩ := List.cons.inj split
      exact inBefore.subset List.mem_cons_self

/-- Who answers first along a ranking: the one that answers, when whoever is listed before it
answers only if it ranks behind, and whoever is listed after it only if it does not rank before. -/
theorem findSome?_eq_some_iff (ranks : Ranks measure listed ranking)
    {answer : α → Option β} {found : β} :
    ranking.findSome? answer = some found ↔
      ∃ before who after, listed = before ++ who :: after ∧ answer who = some found ∧
        (∀ other ∈ before, measure other ≤ measure who → answer other = none) ∧
        ∀ other ∈ after, measure other < measure who → answer other = none := by
  rw [List.findSome?_eq_some_iff]
  constructor
  · rintro ⟨first, who, later, rfl, answers, silent⟩
    have present := (ranks.mem_iff who).mp (by simp)
    obtain ⟨before, after, rfl⟩ := List.append_of_mem present
    refine ⟨before, who, after, rfl, answers, fun other member le => ?_,
      fun other member less => ?_⟩
    · have pair : [other, who].Sublist (before ++ who :: after) :=
        (List.singleton_sublist.mpr member).append
          (List.singleton_sublist.mpr List.mem_cons_self)
      exact silent other (mem_of_pair ranks.once (ranks.stable other who pair le))
    · have there := (ranks.mem_iff other).mpr
        (List.mem_append_right before (List.mem_cons_of_mem who member))
      rcases List.mem_append.mp there with early | late
      · exact silent other early
      · rcases List.mem_cons.mp late with rfl | late
        · omega
        · have sorted := (List.pairwise_append.mp ranks.sorted).2.1
          have le := (List.pairwise_cons.mp sorted).1 other late
          omega
  · rintro ⟨before, who, after, rfl, answers, earlier, later⟩
    have present := (ranks.mem_iff who).mpr (by simp)
    obtain ⟨first, rest, rfl⟩ := List.append_of_mem present
    refine ⟨first, who, rest, rfl, answers, fun other member => ?_⟩
    have le : measure other ≤ measure who :=
      (List.pairwise_append.mp ranks.sorted).2.2 other member who List.mem_cons_self
    have there := (ranks.mem_iff other).mp (List.mem_append_left _ member)
    have apart := (List.nodup_append.mp ranks.once).2.2 other member
    rcases List.mem_append.mp there with early | late
    · exact earlier other early le
    · rcases List.mem_cons.mp late with rfl | late
      · exact absurd rfl (apart other List.mem_cons_self)
      · by_cases less : measure other < measure who
        · exact later other late less
        · have pair : [who, other].Sublist (before ++ who :: after) :=
            ((List.singleton_sublist.mpr late).cons_cons who).trans
              (List.sublist_append_right before _)
          have ranked := ranks.stable who other pair (by omega)
          obtain ⟨ahead, between, rfl⟩ := List.append_of_mem member
          have once := ranks.once
          rw [List.append_assoc, List.cons_append] at once ranked
          have early := mem_of_pair once ranked
          have apart := (List.nodup_append.mp once).2.2 who early who
            (List.mem_cons_of_mem other (List.mem_append_right between List.mem_cons_self))
          exact absurd rfl apart

end Ranks

/-- Going through a list for something smaller ends at the least of it. -/
theorem foldl_least (measure : α → Nat) (first : α) (rest : List α) :
    let least := rest.foldl (fun a b => if measure b < measure a then b else a) first
    least ∈ first :: rest ∧ ∀ a ∈ first :: rest, measure least ≤ measure a := by
  induction rest generalizing first with
  | nil => simp
  | cons next rest inductionHypothesis =>
      obtain ⟨member, least⟩ := inductionHypothesis
        (if measure next < measure first then next else first)
      simp only [List.foldl_cons, List.mem_cons, forall_eq_or_imp] at member least ⊢
      have smaller : measure (if measure next < measure first then next else first) ≤
          measure first ∧ measure (if measure next < measure first then next else first) ≤
          measure next := by
        split <;> omega
      refine ⟨?_, by omega, by omega, least.2⟩
      rcases member with same | later
      · rw [same]
        split <;> simp
      · exact .inr (.inr later)

/-- The least of a list is the first of its kind: smaller than all before it. -/
theorem argmin_split {measure : α → Nat} {list : List α} {least : α}
    (found : list.argmin measure = some least) :
    ∃ before after, list = before ++ least :: after ∧
      (∀ a ∈ before, measure least < measure a) ∧ ∀ a ∈ after, measure least ≤ measure a := by
  induction list using List.reverseRecOn with
  | nil => cases found
  | append_singleton list last inductionHypothesis =>
      rw [List.argmin_concat] at found
      cases earlier : list.argmin measure with
      | none =>
          rw [earlier] at found
          obtain rfl := Option.some.inj found
          obtain rfl := List.argmin_eq_none.mp earlier
          exact ⟨[], [], rfl, fun _ member => absurd member List.not_mem_nil,
            fun _ member => absurd member List.not_mem_nil⟩
      | some best =>
          rw [earlier] at found
          dsimp only at found
          split at found
          · next less =>
              obtain rfl := Option.some.inj found
              exact ⟨list, [], rfl,
                fun a member => less.trans_le (List.le_of_mem_argmin member earlier),
                fun _ member => absurd member List.not_mem_nil⟩
          · next more =>
              obtain rfl := Option.some.inj found
              obtain ⟨before, after, rfl, smaller, others⟩ := inductionHypothesis earlier
              refine ⟨before, after ++ [last], by simp, smaller, fun a member => ?_⟩
              rcases List.mem_append.mp member with old | new
              · exact others a old
              · obtain rfl := List.mem_singleton.mp new
                exact Nat.le_of_not_lt more

end Wsarb.Library
