import Mathlib.Order.Bounds.Basic
import Wsarb.Race.Hearing
import Wsarb.Race.Positions

/-!
Owns the law of position racing: sources that each read out the same canonical list, in
any interleaving and with any of them falling silent, make `on_update` forward exactly
the longest prefix any one of them has read.
-/

namespace Wsarb

open Wsarb.Library

variable {β : Type} [Payload β]

/-- A race in which every source reads out the same messages. -/
abbrev raceStep (key : SubKey) (blocks : List (Nat × β)) :
    Talk Nat (Heard β) → Turn → Talk Nat (Heard β) :=
  Talk.step (fun _ => blockFrames blocks) Turn.source (hear key)

/-- `count` messages are out, which the leading source has read and no source has passed. -/
structure LongestPrefix (key : SubKey) (blocks : List (Nat × β)) (count : Nat)
    (talk : Talk Nat (Heard β)) : Prop where
  race : InRace blocks (talk.state.st.counters key) talk.said (fun _ => True) count
  inPlay : ∀ i, (talk.state.st.counters key).off i = false
  within : ∀ i, talk.said i ≤ upTo Prod.fst blocks (talk.state.st.counters key).last
  longest : IsGreatest (Set.range talk.said) count
  forwarded : talk.state.forwarded = (blockFrames blocks).take count

variable {key : SubKey} {blocks : List (Nat × β)}

namespace LongestPrefix

omit [Payload β] in
theorem start {st : AppState β} (fresh : st.counters key = Counters.fresh) :
    LongestPrefix key blocks 0 (Talk.start ⟨st, []⟩) where
  race := by
    simp only [Talk.start, fresh]
    exact ⟨by simp [Counters.fresh], Nat.zero_le _, by simp [Counters.fresh],
      by simp [Counters.fresh], by simp [Counters.fresh], by simp [Counters.fresh], by simp⟩
  inPlay := by simp [Talk.start, fresh, Counters.fresh]
  within := fun _ => Nat.zero_le _
  longest := ⟨⟨0, rfl⟩, by rintro _ ⟨i, rfl⟩; exact Nat.le_refl 0⟩
  forwarded := rfl

/-- The longest prefix after one more message is read, by how far its reader now is. -/
theorem isGreatest_update {said : Nat → Nat} {count src : Nat}
    (longest : IsGreatest (Set.range said) count) :
    IsGreatest (Set.range (Function.update said src (said src + 1)))
      (if said src = count then count + 1 else count) := by
  have behind : ∀ i, said i ≤ count := fun i => longest.2 ⟨i, rfl⟩
  obtain ⟨leader, leads⟩ := longest.1
  constructor
  · by_cases next : said src = count
    · exact ⟨src, by simp [next]⟩
    · have other : leader ≠ src := by
        rintro rfl
        exact next leads
      exact ⟨leader, by rw [if_neg next, Function.update_of_ne other, leads]⟩
  · rintro _ ⟨i, rfl⟩
    have := behind i
    have := behind src
    by_cases same : i = src
    · subst same
      rw [Function.update_self]
      split_ifs <;> omega
    · rw [Function.update_of_ne same]
      split_ifs <;> omega

variable (ascending : Ascending Prod.fst blocks)
  (counts : ∀ h, blocks.countP (fun block => block.1 = h) < 2 ^ 32)
include ascending counts

omit [Payload β] in
/-- The reader of a message is the first to reach it exactly when it goes out. -/
theorem frame {c : Counters} {said : Nat → Nat} {count src : Nat}
    (race : InRace blocks c said (fun _ => True) count) (inPlay : c.off src = false)
    (within : ∀ i, said i ≤ upTo Prod.fst blocks c.last) (behind : ∀ i, said i ≤ count)
    (inRange : said src < blocks.length) :
    (c.AcceptsBlock src blocks[said src].1 ↔ said src = count) ∧
      InRace blocks (c.block src blocks[said src].1)
        (Function.update said src (said src + 1)) (fun _ => True)
        (if said src = count then count + 1 else count) := by
  have behindSrc := behind src
  have atLeast := race.below_le
  have atMost := race.le_upTo
  rcases Nat.lt_trichotomy blocks[said src].1 c.last with lower | height | higher
  · have short := (lt_below_iff ascending c.last inRange).mpr lower
    have other : said src ≠ count := by omega
    obtain ⟨drops, after⟩ := race.older inPlay lower short
    exact ⟨iff_of_false drops other, by rwa [if_neg other]⟩
  · have inHeight := (InRace.in_height ascending inRange height).2
    -- A height of fewer than `2 ^ 32` messages never gets stuck before its end.
    have notStuck : said src = count → c.sent < 2 ^ 32 - 1 := by
      intro next
      have total := below_add_countP Prod.fst blocks c.last
      have fits := counts c.last
      have sent := race.sent
      omega
    have goesOut : c.AcceptsBlock src c.last ↔ said src = count :=
      (race.accepts_same ascending trivial inPlay inRange height).trans
        ⟨And.left, fun next => ⟨next, notStuck next⟩⟩
    rw [height]
    refine ⟨goesOut, ?_⟩
    by_cases next : said src = count
    · rw [if_pos next]
      exact race.same_accepted ascending trivial inPlay inRange height (goesOut.mpr next)
    · rw [if_neg next]
      exact race.same_refused ascending trivial inPlay inRange height (mt goesOut.mp next)
  · obtain ⟨opens, accepts, after⟩ :=
      InRace.newer ascending inPlay inRange higher (fun j (_ : True) => within j) trivial
    have next : said src = count := by omega
    refine ⟨iff_of_true accepts next, ?_⟩
    rw [if_pos next, ← next]
    exact after

/-- A message goes out exactly when its reader is first to reach it. -/
theorem step {count : Nat} {talk : Talk Nat (Heard β)} (holds : LongestPrefix key blocks count talk)
    (turn : Turn) : ∃ count, LongestPrefix key blocks count (raceStep key blocks talk turn) := by
  have behind : ∀ i, talk.said i ≤ count := fun i => holds.longest.2 ⟨i, rfl⟩
  cases next : talk.nextLine (fun _ => blockFrames blocks) Turn.source turn with
  | none => exact ⟨count, by rwa [raceStep, Talk.step_of_silent next]⟩
  | some line =>
      obtain ⟨inRange, rfl⟩ := blockFrames_getElem?.mp next
      have inPlay := holds.inPlay turn.source
      obtain ⟨goesOut, race⟩ :=
        frame ascending counts holds.race inPlay holds.within behind inRange
      refine ⟨if talk.said turn.source = count then count + 1 else count, ?_⟩
      rw [raceStep, Talk.step_of_line next]
      refine ⟨?_, ?_, ?_, isGreatest_update holds.longest, ?_⟩
      · simpa only [hear, AppState.counters_onUpdate_block] using race
      · simpa only [hear, AppState.counters_onUpdate_block, Counters.block_off]
          using holds.inPlay
      · intro i
        simp only [hear, AppState.counters_onUpdate_block, Counters.block_last inPlay]
        by_cases same : i = turn.source
        · subst same
          rw [Function.update_self]
          exact Nat.succ_le_of_lt
            (((lt_upTo_iff ascending _ inRange).mpr (Nat.le_refl _)).trans_le
              (upTo_mono (le_max_right _ _)))
        · rw [Function.update_of_ne same]
          exact (holds.within i).trans (upTo_mono (le_max_left _ _))
      · simp only [hear, AppState.forwards_block_iff, goesOut, holds.forwarded]
        split_ifs with first
        · rw [← first, take_succ_blockFrames inRange]
        · rfl

end LongestPrefix

/-- After any turns, what `on_update` has forwarded is the longest prefix of the canonical
messages that any one source has read out. -/
theorem forwarded_eq_longestPrefix (key : SubKey) (blocks : List (Nat × β))
    (ascending : Ascending Prod.fst blocks)
    (counts : ∀ h, blocks.countP (fun block => block.1 = h) < 2 ^ 32)
    (st : AppState β) (fresh : st.counters key = Counters.fresh) (turns : List Turn) :
    ∃ count,
      IsGreatest
        (Set.range (run (raceStep key blocks) (Talk.start ⟨st, []⟩) turns).said) count ∧
      (run (raceStep key blocks) (Talk.start ⟨st, []⟩) turns).state.forwarded =
        (blockFrames blocks).take count := by
  have keeps : ∀ turns (talk : Talk Nat (Heard β)),
      (∃ count, LongestPrefix key blocks count talk) →
        ∃ count, LongestPrefix key blocks count (run (raceStep key blocks) talk turns) := by
    intro turns
    induction turns with
    | nil => exact fun talk holds => holds
    | cons turn rest inductionHypothesis =>
        rintro talk ⟨count, holds⟩
        exact inductionHypothesis _ (holds.step ascending counts turn)
  obtain ⟨count, holds⟩ := keeps turns _ ⟨0, LongestPrefix.start fresh⟩
  exact ⟨count, holds.longest, holds.forwarded⟩

/-- Two sources share a block of two messages; the second falls silent and the first
closes the block and opens the next. -/
theorem forwarded_eq_longestPrefix_shared_block :
    ∃ count,
      IsGreatest
        (Set.range (run (raceStep (.l4Book "BTC") [(7, "a"), (7, "b"), (8, "c")])
          (Talk.start ⟨AppState.new [{ id := 0 }, { id := 1 }], []⟩)
          [⟨1, 10⟩, ⟨0, 11⟩, ⟨0, 12⟩, ⟨0, 13⟩]).said) count ∧
      (run (raceStep (.l4Book "BTC") [(7, "a"), (7, "b"), (8, "c")])
          (Talk.start ⟨AppState.new [{ id := 0 }, { id := 1 }], []⟩)
          [⟨1, 10⟩, ⟨0, 11⟩, ⟨0, 12⟩, ⟨0, 13⟩]).state.forwarded =
        (blockFrames [(7, "a"), (7, "b"), (8, "c")]).take count :=
  forwarded_eq_longestPrefix (.l4Book "BTC") [(7, "a"), (7, "b"), (8, "c")]
    (by simp [Ascending]) (fun _ => Nat.lt_of_le_of_lt List.countP_le_length (by decide))
    (AppState.new [{ id := 0 }, { id := 1 }]) rfl [⟨1, 10⟩, ⟨0, 11⟩, ⟨0, 12⟩, ⟨0, 13⟩]

end Wsarb
