import Wsarb.Library.Ladder
import Wsarb.Race.Counters

/-!
Owns how the counters track a canonical list of messages with non-decreasing heights.
`InRace` says what one height counter, one sent counter and the per-source counters mean
while messages go out in order: `sent` of them is the last position out, and each source's
counter is how far past the foot of the height in play it has come. The three lemmas are
the three things a block frame can be: a message of the height in play, the first of a
newer height, or one of an older height.

Counters of positions wrap at `2 ^ 32`. A height with that many messages gets stuck just
before, which the invariant says too.
-/

namespace Wsarb

open Wsarb.Library

variable {β : Type}

/-- The counters stand for `count` messages out, with source `j` having come as far as
`pos j`, for the sources that race for the height in play. -/
structure InRace (blocks : List (Nat × β)) (c : Counters) (pos : Nat → Nat)
    (racing : Nat → Prop) (count : Nat) : Prop where
  below_le : below Prod.fst blocks c.last ≤ count
  le_upTo : count ≤ upTo Prod.fst blocks c.last
  sent : c.sent = count - below Prod.fst blocks c.last
  sent_lt : c.sent < 2 ^ 32
  seen : ∀ j, racing j → c.seen j = (pos j - below Prod.fst blocks c.last) % 2 ^ 32
  idle : ∀ j, ¬ racing j → c.seen j = 0
  ahead : ∀ j, racing j → pos j ≤ count ∨ c.sent = 2 ^ 32 - 1

namespace InRace

variable {blocks : List (Nat × β)} {c : Counters} {pos : Nat → Nat} {racing : Nat → Prop}
  {count src : Nat}

/-- At a height that is not stuck, the next position goes out and no other does. -/
theorem accepts_iff (race : InRace blocks c pos racing count) (races : racing src)
    (inPlay : c.off src = false) (reached : below Prod.fst blocks c.last ≤ pos src) :
    c.AcceptsBlock src c.last ↔ pos src = count ∧ c.sent < 2 ^ 32 - 1 := by
  have seen := race.seen src races
  have sent := race.sent
  have sentLt := race.sent_lt
  have atLeast := race.below_le
  simp only [Counters.AcceptsBlock, inPlay, Nat.lt_irrefl, true_and, false_or]
  rcases race.ahead src races with behind | stuck
  · constructor
    · intro goesOut
      omega
    · rintro ⟨same, notStuck⟩
      omega
  · constructor
    · intro goesOut
      omega
    · rintro ⟨-, notStuck⟩
      omega

/-- A pardon changes nothing in the race. -/
theorem pardon (race : InRace blocks c pos racing count) (src : Nat) :
    InRace blocks (c.pardon src) pos racing count :=
  ⟨race.below_le, race.le_upTo, race.sent, race.sent_lt, race.seen, race.idle, race.ahead⟩

/-- One more source joins the race, no further than the foot of the height in play. -/
theorem join (race : InRace blocks c pos racing count) (rests : ¬ racing src)
    (low : pos src ≤ below Prod.fst blocks c.last) :
    InRace blocks c pos (fun j => racing j ∨ j = src) count := by
  have atLeast := race.below_le
  refine ⟨race.below_le, race.le_upTo, race.sent, race.sent_lt, ?_, ?_, ?_⟩
  · rintro j (races | rfl)
    · exact race.seen j races
    · rw [race.idle j rests, Nat.sub_eq_zero_of_le low, Nat.zero_mod]
  · intro j absent
    exact race.idle j fun races => absent (Or.inl races)
  · rintro j (races | rfl)
    · exact race.ahead j races
    · exact Or.inl (low.trans atLeast)

variable (ascending : Ascending Prod.fst blocks)
include ascending

/-- Where a message of the height in play stands. -/
theorem in_height (inRange : pos src < blocks.length) (height : blocks[pos src].1 = c.last) :
    below Prod.fst blocks c.last ≤ pos src ∧ pos src < upTo Prod.fst blocks c.last := by
  constructor
  · rw [← Nat.not_lt, lt_below_iff ascending _ inRange]
    omega
  · rw [lt_upTo_iff ascending _ inRange]
    omega

/-- A message of the height in play goes out exactly when it is the next one. -/
theorem accepts_same (race : InRace blocks c pos racing count) (races : racing src)
    (inPlay : c.off src = false) (inRange : pos src < blocks.length)
    (height : blocks[pos src].1 = c.last) :
    c.AcceptsBlock src c.last ↔ pos src = count ∧ c.sent < 2 ^ 32 - 1 :=
  race.accepts_iff races inPlay (in_height ascending inRange height).1

/-- A message of the height in play is counted for its source alone. -/
theorem counted_same (race : InRace blocks c pos racing count) (races : racing src)
    (inRange : pos src < blocks.length) (height : blocks[pos src].1 = c.last) :
    (∀ j, racing j → (c.counted src).seen j =
      (Function.update pos src (pos src + 1) j - below Prod.fst blocks c.last) % 2 ^ 32) ∧
      ∀ j, ¬ racing j → (c.counted src).seen j = 0 := by
  have seen := race.seen src races
  have atFoot := (in_height ascending inRange height).1
  have counter : (c.seen src + 1) % 2 ^ 32 =
      (pos src + 1 - below Prod.fst blocks c.last) % 2 ^ 32 := by
    omega
  constructor
  · intro j racesJ
    by_cases this : j = src
    · subst this
      simpa [Counters.counted] using counter
    · simpa [Counters.counted, Function.update_of_ne this] using race.seen j racesJ
  · intro j rests
    have this : j ≠ src := fun equal => rests (equal ▸ races)
    simpa [Counters.counted, Function.update_of_ne this] using race.idle j rests

/-- A message of the height in play that goes out. -/
theorem same_accepted (race : InRace blocks c pos racing count) (races : racing src)
    (inPlay : c.off src = false) (inRange : pos src < blocks.length)
    (height : blocks[pos src].1 = c.last) (accepts : c.AcceptsBlock src c.last) :
    InRace blocks (c.block src c.last) (Function.update pos src (pos src + 1)) racing
      (count + 1) := by
  obtain ⟨atFoot, inHeight⟩ := in_height ascending inRange height
  obtain ⟨next, notStuck⟩ := (race.accepts_same ascending races inPlay inRange height).mp accepts
  obtain ⟨seenAfter, idleAfter⟩ := race.counted_same ascending races inRange height
  have seen := race.seen src races
  have sent := race.sent
  have atLeast := race.below_le
  rw [Counters.block_of_same inPlay rfl]
  have sentAfter : (c.counted src).sent = c.sent + 1 := by
    simp only [Counters.counted]
    omega
  refine ⟨Nat.le_succ_of_le atLeast, ?_, ?_, ?_, seenAfter, idleAfter, ?_⟩
  · simp only [Counters.counted]
    omega
  · rw [sentAfter]
    simp only [Counters.counted]
    omega
  · omega
  · intro j racesJ
    left
    by_cases this : j = src
    · subst this
      simp [next]
    · rw [Function.update_of_ne this]
      rcases race.ahead j racesJ with behind | stuck
      · omega
      · omega

/-- A message of the height in play that is dropped: its position is out already, or the
height is stuck. -/
theorem same_refused (race : InRace blocks c pos racing count) (races : racing src)
    (inPlay : c.off src = false) (inRange : pos src < blocks.length)
    (height : blocks[pos src].1 = c.last) (refuses : ¬ c.AcceptsBlock src c.last) :
    InRace blocks (c.block src c.last) (Function.update pos src (pos src + 1)) racing count := by
  have goesOut := race.accepts_same ascending races inPlay inRange height
  obtain ⟨seenAfter, idleAfter⟩ := race.counted_same ascending races inRange height
  have sent := race.sent
  have sentLt := race.sent_lt
  rw [Counters.block_of_same inPlay rfl]
  have sentAfter : (c.counted src).sent = c.sent := by
    have bound : (c.seen src + 1) % 2 ^ 32 ≤ c.sent := by
      by_contra beyond
      exact refuses ⟨inPlay, Or.inr ⟨rfl, by omega⟩⟩
    simp only [Counters.counted]
    omega
  refine ⟨race.below_le, race.le_upTo, ?_, by omega, seenAfter, idleAfter, ?_⟩
  · rw [sentAfter]
    exact sent
  · intro j racesJ
    rw [sentAfter]
    by_cases this : j = src
    · subst this
      rw [Function.update_self]
      rcases race.ahead j races with behind | stuck
      · by_cases next : pos j = count
        · right
          have stuck : ¬ c.sent < 2 ^ 32 - 1 :=
            fun notStuck => refuses (goesOut.mpr ⟨next, notStuck⟩)
          omega
        · left
          omega
      · exact Or.inr stuck
    · rw [Function.update_of_ne this]
      exact race.ahead j racesJ

omit ascending in
/-- One message of an older height. -/
theorem older (race : InRace blocks c pos racing count)
    (inPlay : c.off src = false) {h : Nat} (lower : h < c.last)
    (short : pos src < below Prod.fst blocks c.last) :
    ¬ c.AcceptsBlock src h ∧
      InRace blocks (c.block src h) (Function.update pos src (pos src + 1)) racing count := by
  have atLeast := race.below_le
  constructor
  · rintro ⟨-, newer | ⟨equal, -⟩⟩ <;> omega
  · rw [Counters.block_of_older inPlay lower]
    refine ⟨race.below_le, race.le_upTo, race.sent, race.sent_lt, ?_, race.idle, ?_⟩
    · intro j races
      have seen := race.seen j races
      by_cases this : j = src
      · subst this
        rw [Function.update_self]
        omega
      · rw [Function.update_of_ne this]
        exact seen
    · intro j races
      by_cases this : j = src
      · subst this
        rw [Function.update_self]
        omega
      · rw [Function.update_of_ne this]
        exact race.ahead j races

/-- The first message of a newer height, whatever went before. -/
theorem newer (inPlay : c.off src = false) (inRange : pos src < blocks.length)
    (higher : c.last < blocks[pos src].1)
    (behind : ∀ j, racing j → pos j ≤ upTo Prod.fst blocks c.last) (races : racing src) :
    pos src = upTo Prod.fst blocks c.last ∧
      c.AcceptsBlock src blocks[pos src].1 ∧
      InRace blocks (c.block src blocks[pos src].1) (Function.update pos src (pos src + 1)) racing
        (pos src + 1) := by
  have notYet : ¬ pos src < upTo Prod.fst blocks c.last := by
    rw [lt_upTo_iff ascending _ inRange]
    omega
  have opens : pos src = upTo Prod.fst blocks c.last :=
    Nat.le_antisymm (behind src races) (Nat.not_lt.mp notYet)
  have foot : below Prod.fst blocks blocks[pos src].1 = pos src :=
    below_of_opens ascending inRange rfl
      ((Nat.le_of_eq opens).trans (upTo_le_below Prod.fst blocks higher))
  have inHeight : pos src < upTo Prod.fst blocks blocks[pos src].1 := by
    rw [lt_upTo_iff ascending _ inRange]
  refine ⟨opens, ⟨inPlay, Or.inl higher⟩, ?_⟩
  rw [Counters.block_of_newer inPlay higher]
  refine ⟨?_, ?_, ?_, by simp [Counters.opened], ?_, ?_, ?_⟩
  · simp only [Counters.opened, foot]
    omega
  · simp only [Counters.opened]
    omega
  · simp only [Counters.opened, foot]
    omega
  · intro j racesJ
    simp only [Counters.opened, foot]
    by_cases this : j = src
    · subst this
      simp
    · have := behind j racesJ
      rw [Function.update_of_ne ‹_›, Function.update_of_ne ‹_›]
      omega
  · intro j rests
    have this : j ≠ src := fun equal => rests (equal ▸ races)
    simp [Counters.opened, Function.update_of_ne this]
  · intro j racesJ
    left
    by_cases this : j = src
    · subst this
      simp
    · have := behind j racesJ
      rw [Function.update_of_ne ‹_›]
      omega

end InRace

end Wsarb
