import Wsarb.Library.Run
import Wsarb.Race.Hearing
import Wsarb.Race.Positions

/-!
Owns a raced key whose sources each open with a snapshot of their own and go on with the
canonical messages above it, and what `on_update` makes of any interleaving of them.

The frames forwarded after a shared snapshot continue it exactly as long as no source
sends a second message of the snapshot's own height into the race that the snapshot
opened, and no source opens the next height before the one in play is complete.
-/

namespace Wsarb

open Wsarb.Library

variable {β : Type}

/-- The last snapshot forwarded, by its height, and the frames forwarded since. -/
def sinceSnapshot (forwarded : List (Seq × β)) : Option (Nat × List (Seq × β)) :=
  forwarded.foldl
    (fun since frame =>
      match frame.1 with
      | .snapshot h => some (h, [])
      | _ => since.map fun last => (last.1, last.2 ++ [frame]))
    none

theorem sinceSnapshot_snapshot (forwarded : List (Seq × β)) (h : Nat) (payload : β) :
    sinceSnapshot (forwarded ++ [(.snapshot h, payload)]) = some (h, []) := by
  simp [sinceSnapshot]

theorem sinceSnapshot_block (forwarded : List (Seq × β)) (h : Nat) (payload : β) :
    sinceSnapshot (forwarded ++ [(.block h, payload)]) =
      (sinceSnapshot forwarded).map fun last => (last.1, last.2 ++ [(.block h, payload)]) := by
  simp [sinceSnapshot]

/-- What went out since the last snapshot starts the canonical messages above it. -/
def Continues (blocks : List (Nat × β)) (forwarded : List (Seq × β)) : Prop :=
  ∀ h tail, sinceSnapshot forwarded = some (h, tail) →
    tail <+: blockFrames (blocks.filter fun block => h < block.1)

section Sources

variable (blocks : List (Nat × β)) (opening : Nat → Nat × β)

/-- What source `i` reads out: its snapshot, then the messages above it. -/
def snapshotScript (i : Nat) : List (Seq × β) :=
  (.snapshot (opening i).1, (opening i).2) ::
    blockFrames (blocks.filter fun block => (opening i).1 < block.1)

/-- One turn among sources that each open with a snapshot. -/
abbrev snapshotStep [Payload β] (key : SubKey) : Talk Nat (Heard β) → Turn → Talk Nat (Heard β) :=
  Talk.step (snapshotScript blocks opening) Turn.source (hear key)

/-- A block frame neither adds a second message to the height a snapshot opened nor leaves
the height in play short. -/
def Orderly (c : Counters) (forwarded : List (Seq × β)) (src h : Nat) : Prop :=
  ∀ height tail, sinceSnapshot forwarded = some (height, tail) →
    (tail = [] → h = c.last → c.seen src = 0) ∧
    (tail ≠ [] → c.last < h → c.sent = blocks.countP fun block => block.1 = c.last)

/-- The block frame a turn brings, if it brings one, is orderly. -/
def OrderlyTurn (key : SubKey) (talk : Talk Nat (Heard β)) (turn : Turn) : Prop :=
  ∀ h payload,
    talk.nextLine (snapshotScript blocks opening) Turn.source turn = some (.block h, payload) →
    Orderly blocks (talk.state.st.counters key) talk.state.forwarded turn.source h

/-- How many of the canonical messages source `i` has behind it, its snapshot's included. -/
def position (said : Nat → Nat) (i : Nat) : Nat :=
  upTo Prod.fst blocks (opening i).1 + (said i - 1)

/-- The sources whose snapshot lies below the height in play. -/
def Racing (said : Nat → Nat) (last : Nat) (i : Nat) : Prop := 0 < said i ∧ (opening i).1 < last

/-- Nothing has followed the last snapshot yet, or the race above it stands at some count and
the frames that followed it are the messages up to there. -/
def Shape (c : Counters) (pos : Nat → Nat) (racing : Nat → Prop) (height : Nat)
    (tail : List (Seq × β)) : Prop :=
  (tail = [] ∧ c.last = height ∧ c.sent = 1 ∧ ∀ i, c.seen i ≤ 1) ∨
  (∃ count, InRace blocks c pos racing count ∧
    height < c.last ∧ upTo Prod.fst blocks height < count ∧
    tail = ((blockFrames blocks).take count).drop (upTo Prod.fst blocks height))

/-- What holds as long as every turn is orderly. -/
structure Shared (c : Counters) (said : Nat → Nat) (forwarded : List (Seq × β)) : Prop where
  inPlay : ∀ i, c.off i = false
  begun : ∀ i, 0 < said i → (opening i).1 ≤ c.last
  within : ∀ i, 0 < said i → position blocks opening said i ≤ upTo Prod.fst blocks c.last
  shape : ∀ h tail, sinceSnapshot forwarded = some (h, tail) →
    Shape blocks c (position blocks opening said) (Racing opening said c.last) h tail

end Sources

namespace Shared

variable {blocks : List (Nat × β)} {opening : Nat → Nat × β} {c : Counters} {said : Nat → Nat}
  {forwarded : List (Seq × β)} {src : Nat}

theorem position_update (begun : 0 < said src) :
    position blocks opening (Function.update said src (said src + 1)) =
      Function.update (position blocks opening said) src
        (position blocks opening said src + 1) := by
  funext i
  by_cases same : i = src
  · subst same
    simp only [position, Function.update_self]
    omega
  · simp only [position, Function.update_of_ne same]

/-- Its snapshot alone brings a source no further than it is counted from. -/
theorem position_first (silent : said src = 0) :
    position blocks opening (Function.update said src (said src + 1)) =
      position blocks opening said := by
  funext i
  by_cases same : i = src
  · subst same
    simp [position, silent]
  · simp only [position, Function.update_of_ne same]

theorem racing_update (begun : 0 < said src) (last : Nat) :
    Racing opening (Function.update said src (said src + 1)) last =
      Racing opening said last := by
  funext i
  by_cases same : i = src
  · subst same
    simp [Racing, begun]
  · simp [Racing, Function.update_of_ne same]

/-- The messages a tail has covered are a prefix of those above its snapshot. -/
theorem continues (ascending : Ascending Prod.fst blocks)
    (holds : Shared blocks opening c said forwarded) : Continues blocks forwarded := by
  intro h tail since
  rcases holds.shape h tail since with ⟨rfl, -⟩ | ⟨count, -, -, -, rfl⟩
  · exact List.nil_prefix
  · rw [filter_above ascending, blockFrames_drop, List.drop_take]
    exact List.take_prefix _ _

/-- A source joins the race when its snapshot lies below the height in play. -/
theorem racing_first (silent : said src = 0) (last : Nat) :
    Racing opening (Function.update said src (said src + 1)) last =
      fun i => Racing opening said last i ∨ i = src ∧ (opening src).1 < last := by
  funext i
  by_cases same : i = src
  · subst same
    simp [Racing, silent]
  · simp [Racing, same]

/-- A source that has not begun stands where its snapshot ends. -/
theorem position_of_silent (silent : said src = 0) :
    position blocks opening said src = upTo Prod.fst blocks (opening src).1 := by
  simp [position, silent]

/-- A snapshot above the height in play opens its own height. -/
theorem opens_above (holds : Shared blocks opening c said forwarded) (silent : said src = 0)
    (above : c.last < (opening src).1) :
    Shared blocks opening (c.snapshot src (opening src).1)
      (Function.update said src (said src + 1))
      (forwarded ++ [(.snapshot (opening src).1, (opening src).2)]) := by
  rw [Counters.snapshot_of_above above]
  refine ⟨?_, ?_, ?_, ?_⟩
  · intro i
    simp [Counters.opened, Counters.pardon, holds.inPlay i]
  · intro i begun
    by_cases same : i = src
    · rw [same]
      rfl
    · rw [Function.update_of_ne same] at begun
      exact (holds.begun i begun).trans (Nat.le_of_lt above)
  · intro i begun
    rw [position_first silent]
    by_cases same : i = src
    · rw [same, position_of_silent silent]
      rfl
    · rw [Function.update_of_ne same] at begun
      exact (holds.within i begun).trans (upTo_mono (Nat.le_of_lt above))
  · intro h tail since
    rw [sinceSnapshot_snapshot] at since
    obtain ⟨rfl, rfl⟩ : (opening src).1 = h ∧ [] = tail := by simpa using since
    refine Or.inl ⟨rfl, rfl, rfl, fun i => ?_⟩
    simp only [Counters.opened, Function.update_apply]
    split_ifs <;> omega

/-- A snapshot that is not above the height in play is dropped, and its source joins the race
if it lies below. -/
theorem opens_below (holds : Shared blocks opening c said forwarded) (silent : said src = 0)
    (notAbove : ¬ c.last < (opening src).1) :
    Shared blocks opening (c.snapshot src (opening src).1)
      (Function.update said src (said src + 1)) forwarded := by
  rw [Counters.snapshot_of_not_above notAbove]
  refine ⟨?_, ?_, ?_, ?_⟩
  · intro i
    simp [Counters.pardon, holds.inPlay i]
  · intro i begun
    by_cases same : i = src
    · rw [same]
      exact Nat.not_lt.mp notAbove
    · rw [Function.update_of_ne same] at begun
      exact holds.begun i begun
  · intro i begun
    rw [position_first silent]
    by_cases same : i = src
    · rw [same, position_of_silent silent]
      exact upTo_mono (Nat.not_lt.mp notAbove)
    · rw [Function.update_of_ne same] at begun
      exact holds.within i begun
  · intro h tail since
    rcases holds.shape h tail since with atSnapshot | ⟨count, race, past, far, same⟩
    · exact Or.inl atSnapshot
    · refine Or.inr ⟨count, ?_, past, far, same⟩
      have rests : ¬ Racing opening said c.last src := fun races => by
        have := races.1
        omega
      rw [position_first silent, racing_first silent]
      by_cases lower : (opening src).1 < c.last
      · have joins := (position_of_silent silent).trans_le (upTo_le_below Prod.fst blocks lower)
        simpa [Counters.pardon, lower] using (race.join rests joins).pardon src
      · simpa [Counters.pardon, lower] using race.pardon src

/-- A source opens with its snapshot. -/
theorem opens (holds : Shared blocks opening c said forwarded) (silent : said src = 0) :
    Shared blocks opening (c.snapshot src (opening src).1)
      (Function.update said src (said src + 1))
      (if c.last < (opening src).1 then
        forwarded ++ [(.snapshot (opening src).1, (opening src).2)] else forwarded) := by
  split
  · next above => exact opens_above holds silent above
  · next notAbove => exact opens_below holds silent notAbove

variable (ascending : Ascending Prod.fst blocks)
include ascending

omit ascending in
/-- What a forwarded block frame adds to the frames since the last snapshot. -/
theorem sinceSnapshot_eq_some_of_block {h height : Nat} {payload : β} {tail : List (Seq × β)}
    (since : sinceSnapshot (forwarded ++ [(.block h, payload)]) = some (height, tail)) :
    ∃ before, sinceSnapshot forwarded = some (height, before) ∧
      tail = before ++ [(.block h, payload)] := by
  rw [sinceSnapshot_block, Option.map_eq_some_iff] at since
  obtain ⟨⟨last, before⟩, found, same⟩ := since
  simp only [Prod.mk.injEq] at same
  obtain ⟨rfl, rfl⟩ := same
  exact ⟨before, found, rfl⟩

omit ascending in
/-- When an orderly frame opens the next height, everything up to it has gone out. -/
theorem window_of_higher (holds : Shared blocks opening c said forwarded) {h height : Nat}
    {before : List (Seq × β)} (orderly : Orderly blocks c forwarded src h)
    (earlier : sinceSnapshot forwarded = some (height, before)) (higher : c.last < h)
    {index : Nat} (opens : index = upTo Prod.fst blocks c.last) :
    height < h ∧ upTo Prod.fst blocks height ≤ index ∧
      before = ((blockFrames blocks).take index).drop (upTo Prod.fst blocks height) := by
  rcases holds.shape height before earlier with
    ⟨rfl, rfl, -, -⟩ | ⟨count, race, past, far, window⟩
  · exact ⟨higher, Nat.le_of_eq opens.symm, by simp [opens]⟩
  · have inRange := race.le_upTo.trans (upTo_le_length c.last)
    have nonempty : before ≠ [] := by
      rw [window, ne_eq, List.drop_eq_nil_iff, List.length_take]
      simp only [blockFrames, List.length_map]
      omega
    have whole := (orderly height before earlier).2 nonempty higher
    have total := below_add_countP Prod.fst blocks c.last
    have sent := race.sent
    have atLeast := race.below_le
    have complete : count = index := by omega
    exact ⟨past.trans higher, by omega, complete ▸ window⟩

/-- The shape of the forwarded frames after a message of an older height. -/
theorem shape_older (holds : Shared blocks opening c said forwarded) {index : Nat}
    (here : position blocks opening said src = index) (inRange : index < blocks.length)
    (lower : blocks[index].1 < c.last) {height : Nat} {tail : List (Seq × β)}
    (since : sinceSnapshot forwarded = some (height, tail)) :
    Shape blocks (c.block src blocks[index].1)
      (Function.update (position blocks opening said) src (index + 1))
      (Racing opening said (c.block src blocks[index].1).last) height tail := by
  have inPlay := holds.inPlay src
  subst here
  have short := (lt_below_iff ascending c.last inRange).mpr lower
  rcases holds.shape height tail since with atSnapshot | ⟨count, race, past, far, window⟩
  · left
    rwa [Counters.block_of_older inPlay lower]
  · right
    have after := (race.older inPlay lower short).2
    rw [Counters.block_of_older inPlay lower] at after ⊢
    exact ⟨count, after, past, far, window⟩

/-- The shape of the forwarded frames after a message of the height in play that goes out: the
height was not the one the snapshot opened. -/
theorem shape_same_accepted (holds : Shared blocks opening c said forwarded)
    {index : Nat} (here : position blocks opening said src = index)
    (inRange : index < blocks.length) (races : Racing opening said c.last src)
    (same : blocks[index].1 = c.last) (orderly : Orderly blocks c forwarded src c.last)
    (accepts : c.AcceptsBlock src c.last) {height : Nat} {before : List (Seq × β)}
    (earlier : sinceSnapshot forwarded = some (height, before)) :
    Shape blocks (c.block src c.last)
      (Function.update (position blocks opening said) src (index + 1))
      (Racing opening said c.last) height (before ++ [(.block c.last, blocks[index].2)]) := by
  have inPlay := holds.inPlay src
  subst here
  rcases holds.shape height before earlier with
    ⟨rfl, -, sent, -⟩ | ⟨count, race, past, far, window⟩
  · -- The height the snapshot opened: its one position is the snapshot itself.
    have seen := (orderly height [] earlier).1 rfl rfl
    obtain ⟨-, newer | ⟨-, ahead⟩⟩ := accepts
    · omega
    · rw [sent, seen] at ahead
      omega
  · have next := ((race.accepts_same ascending races inPlay inRange same).mp accepts).1
    have after := race.same_accepted ascending races inPlay inRange same accepts
    have height' := (Counters.block_last (h := c.last) inPlay).trans (max_self c.last)
    refine Or.inr ⟨count + 1, after, past.trans_eq height'.symm, by omega, ?_⟩
    subst next
    rw [drop_take_succ_blockFrames inRange (Nat.le_of_lt far), window, same]

/-- The shape of the forwarded frames after a message of the height in play that is dropped. -/
theorem shape_same_refused (holds : Shared blocks opening c said forwarded)
    {index : Nat} (here : position blocks opening said src = index)
    (inRange : index < blocks.length) (races : Racing opening said c.last src)
    (same : blocks[index].1 = c.last) (orderly : Orderly blocks c forwarded src c.last)
    (refuses : ¬ c.AcceptsBlock src c.last) {height : Nat} {tail : List (Seq × β)}
    (since : sinceSnapshot forwarded = some (height, tail)) :
    Shape blocks (c.block src c.last)
      (Function.update (position blocks opening said) src (index + 1))
      (Racing opening said c.last) height tail := by
  have inPlay := holds.inPlay src
  subst here
  rcases holds.shape height tail since with
    ⟨rfl, atHeight, sent, bound⟩ | ⟨count, race, past, far, window⟩
  · have seen := (orderly height [] since).1 rfl rfl
    rw [Counters.block_of_same inPlay rfl]
    refine Or.inl ⟨rfl, atHeight, by simp [Counters.counted, sent, seen], fun i => ?_⟩
    simp only [Counters.counted, seen, Function.update_apply]
    have := bound i
    split_ifs <;> omega
  · have after := race.same_refused ascending races inPlay inRange same refuses
    have height' := (Counters.block_last (h := c.last) inPlay).trans (max_self c.last)
    exact Or.inr ⟨count, after, past.trans_eq height'.symm, far, window⟩

/-- The shape of the forwarded frames after a message that opens a newer height: whatever was
in play before has gone out whole. -/
theorem shape_newer (holds : Shared blocks opening c said forwarded) (begun : 0 < said src)
    {index : Nat} (here : position blocks opening said src = index)
    (inRange : index < blocks.length) (above : (opening src).1 < blocks[index].1)
    (orderly : Orderly blocks c forwarded src blocks[index].1) (higher : c.last < blocks[index].1)
    {height : Nat} {before : List (Seq × β)}
    (earlier : sinceSnapshot forwarded = some (height, before)) :
    Shape blocks (c.block src blocks[index].1)
      (Function.update (position blocks opening said) src (index + 1))
      (Racing opening said (c.block src blocks[index].1).last) height
      (before ++ [(.block blocks[index].1, blocks[index].2)]) := by
  have inPlay := holds.inPlay src
  subst here
  obtain ⟨opens, -, race⟩ := InRace.newer ascending inPlay inRange higher
    (fun j (races : Racing opening said _ j) => holds.within j races.1) ⟨begun, above⟩
  obtain ⟨past, far, window⟩ := holds.window_of_higher orderly earlier higher opens
  have height' : (c.block src blocks[position blocks opening said src].1).last =
      blocks[position blocks opening said src].1 :=
    (Counters.block_last inPlay).trans (max_eq_right (Nat.le_of_lt higher))
  refine Or.inr ⟨position blocks opening said src + 1, ?_, ?_, by omega, ?_⟩
  · rw [height']
    exact race
  · rw [height']
    exact past
  · rw [drop_take_succ_blockFrames inRange far, window]

/-- The shape of the forwarded frames after an orderly block frame. -/
theorem shape_follows (holds : Shared blocks opening c said forwarded) (begun : 0 < said src)
    {index : Nat} (here : position blocks opening said src = index)
    (inRange : index < blocks.length) (above : (opening src).1 < blocks[index].1)
    (orderly : Orderly blocks c forwarded src blocks[index].1) {height : Nat}
    {tail : List (Seq × β)}
    (since : sinceSnapshot
      (if c.AcceptsBlock src blocks[index].1 then
        forwarded ++ [(.block blocks[index].1, blocks[index].2)] else forwarded) =
      some (height, tail)) :
    Shape blocks (c.block src blocks[index].1)
      (Function.update (position blocks opening said) src (index + 1))
      (Racing opening said (c.block src blocks[index].1).last) height tail := by
  have inPlay := holds.inPlay src
  rcases Nat.lt_trichotomy blocks[index].1 c.last with lower | same | higher
  · have drops : ¬ c.AcceptsBlock src blocks[index].1 := by
      rintro ⟨-, newer | ⟨equal, -⟩⟩ <;> omega
    rw [if_neg drops] at since
    exact shape_older ascending holds here inRange lower since
  · have races : Racing opening said c.last src := ⟨begun, Nat.lt_of_lt_of_eq above same⟩
    rw [Counters.block_last inPlay, same, max_self]
    rw [same] at since orderly
    split at since
    · next accepts =>
        obtain ⟨before, earlier, rfl⟩ := sinceSnapshot_eq_some_of_block since
        exact shape_same_accepted ascending holds here inRange races same orderly accepts earlier
    · next refuses =>
        exact shape_same_refused ascending holds here inRange races same orderly refuses since
  · have accepts : c.AcceptsBlock src blocks[index].1 := ⟨inPlay, Or.inl higher⟩
    rw [if_pos accepts] at since
    obtain ⟨before, earlier, rfl⟩ := sinceSnapshot_eq_some_of_block since
    exact shape_newer ascending holds begun here inRange above orderly higher earlier

/-- An orderly block frame. -/
theorem follows (holds : Shared blocks opening c said forwarded) (begun : 0 < said src)
    {index : Nat} (here : position blocks opening said src = index)
    (inRange : index < blocks.length) (above : (opening src).1 < blocks[index].1)
    (orderly : Orderly blocks c forwarded src blocks[index].1) :
    Shared blocks opening (c.block src blocks[index].1)
      (Function.update said src (said src + 1))
      (if c.AcceptsBlock src blocks[index].1 then
        forwarded ++ [(.block blocks[index].1, blocks[index].2)] else forwarded) := by
  have inPlay := holds.inPlay src
  have last := Counters.block_last (h := blocks[index].1) inPlay
  refine ⟨?_, ?_, ?_, ?_⟩
  · simpa using holds.inPlay
  · intro i started
    rw [last]
    by_cases same : i = src
    · rw [same]
      exact (holds.begun src begun).trans (le_max_left _ _)
    · rw [Function.update_of_ne same] at started
      exact (holds.begun i started).trans (le_max_left _ _)
  · intro i started
    rw [last, position_update begun, here]
    by_cases same : i = src
    · rw [same, Function.update_self]
      exact Nat.succ_le_of_lt
        (((lt_upTo_iff ascending _ inRange).mpr (Nat.le_refl _)).trans_le
          (upTo_mono (le_max_right _ _)))
    · rw [Function.update_of_ne same] at started ⊢
      exact (holds.within i started).trans (upTo_mono (le_max_left _ _))
  · intro height tail since
    rw [position_update begun, racing_update begun, here]
    exact shape_follows ascending holds begun here inRange above orderly since

/-- A block frame that leaves the forwarded frames a continuation was orderly. -/
theorem orderly_of_continues (holds : Shared blocks opening c said forwarded) {index : Nat}
    (inRange : index < blocks.length)
    (continues : Continues blocks
      (if c.AcceptsBlock src blocks[index].1 then
        forwarded ++ [(.block blocks[index].1, blocks[index].2)] else forwarded)) :
    Orderly blocks c forwarded src blocks[index].1 := by
  have inPlay := holds.inPlay src
  intro height tail since
  have goesOn : c.AcceptsBlock src blocks[index].1 →
      tail ++ [(.block blocks[index].1, blocks[index].2)] <+:
        (blockFrames blocks).drop (upTo Prod.fst blocks height) := by
    intro accepts
    rw [← blockFrames_drop, ← filter_above ascending]
    exact continues height _ (by rw [if_pos accepts, sinceSnapshot_block, since]; rfl)
  rcases holds.shape height tail since with
    ⟨rfl, rfl, sent, bound⟩ | ⟨count, race, past, far, window⟩
  · refine ⟨fun _ atSnapshot => ?_, fun nonempty => absurd rfl nonempty⟩
    -- A second message of the snapshot's height would go out at its foot.
    by_contra counted
    have seen : c.seen src = 1 := by
      have := bound src
      omega
    have accepts : c.AcceptsBlock src blocks[index].1 :=
      ⟨inPlay, Or.inr ⟨atSnapshot, by rw [sent, seen]; decide⟩⟩
    obtain ⟨inRange, same⟩ := blockFrames_getElem?.mp (getElem?_of_append_isPrefix (goesOn accepts))
    rw [Prod.mk.injEq, Seq.block.injEq, atSnapshot] at same
    exact Nat.lt_irrefl _ ((lt_upTo_iff ascending _ inRange).mpr same.1.ge)
  · have reaches := race.le_upTo.trans (upTo_le_length c.last)
    have length : tail.length = count - upTo Prod.fst blocks height := by
      rw [window, List.length_drop, List.length_take, blockFrames, List.length_map]
      omega
    refine ⟨fun empty _ => ?_, fun _ higher => ?_⟩
    · rw [empty, List.length_nil] at length
      omega
    -- A newer height leaves out what is still missing of the height in play.
    by_contra short
    have accepts : c.AcceptsBlock src blocks[index].1 := ⟨inPlay, Or.inl higher⟩
    obtain ⟨inRange, same⟩ := blockFrames_getElem?.mp (getElem?_of_append_isPrefix (goesOn accepts))
    rw [Prod.mk.injEq, Seq.block.injEq] at same
    have missing : count < upTo Prod.fst blocks c.last := by
      have total := below_add_countP Prod.fst blocks c.last
      have sent := race.sent
      have atLeast := race.below_le
      have atMost := race.le_upTo
      omega
    have lower := (lt_upTo_iff ascending c.last inRange).mp (by omega)
    omega

end Shared

section Run

variable {key : SubKey} (raced : key.singleSourced = false)
  {blocks : List (Nat × β)} (ascending : Ascending Prod.fst blocks) {opening : Nat → Nat × β}
  {talk : Talk Nat (Heard β)} {turn : Turn}

/-- The invariant of the run, read off its state. -/
def SharedTalk (key : SubKey) (blocks : List (Nat × β)) (opening : Nat → Nat × β)
    (talk : Talk Nat (Heard β)) : Prop :=
  Shared blocks opening (talk.state.st.counters key) talk.said talk.state.forwarded

theorem sharedTalk_start {st : AppState β} (fresh : st.counters key = Counters.fresh) :
    SharedTalk key blocks opening (Talk.start ⟨st, []⟩) := by
  unfold SharedTalk
  rw [Talk.start, fresh]
  exact ⟨fun _ => rfl, fun _ begun => absurd begun (Nat.lt_irrefl 0),
    fun _ begun => absurd begun (Nat.lt_irrefl 0), fun _ _ since => nomatch since⟩

include ascending in
/-- A turn brings its source's snapshot or the canonical message its position names. -/
theorem nextLine_cases {line : Seq × β}
    (next : talk.nextLine (snapshotScript blocks opening) Turn.source turn = some line) :
    (talk.said turn.source = 0 ∧
      line = (.snapshot (opening turn.source).1, (opening turn.source).2)) ∨
    (0 < talk.said turn.source ∧
      ∃ inRange : position blocks opening talk.said turn.source < blocks.length,
        (opening turn.source).1 < blocks[position blocks opening talk.said turn.source].1 ∧
        line = (.block blocks[position blocks opening talk.said turn.source].1,
          blocks[position blocks opening talk.said turn.source].2)) := by
  unfold Talk.nextLine snapshotScript at next
  unfold position
  cases said : talk.said turn.source with
  | zero =>
      rw [said, List.getElem?_cons_zero, Option.some.injEq] at next
      exact Or.inl ⟨rfl, next.symm⟩
  | succ index =>
      rw [said, List.getElem?_cons_succ, filter_above ascending, blockFrames_drop,
        List.getElem?_drop] at next
      obtain ⟨inRange, same⟩ := blockFrames_getElem?.mp next
      refine Or.inr ⟨Nat.succ_pos _, inRange, ?_, same⟩
      have past := (lt_upTo_iff ascending (opening turn.source).1 inRange).not
      rw [Nat.not_le] at past
      exact past.mp (Nat.not_lt.mpr (Nat.le_add_right _ _))

variable [Payload β]

include raced ascending in
/-- An orderly turn keeps the invariant. -/
theorem SharedTalk.step (holds : SharedTalk key blocks opening talk)
    (orderly : OrderlyTurn blocks opening key talk turn) :
    SharedTalk key blocks opening (snapshotStep blocks opening key talk turn) := by
  unfold SharedTalk snapshotStep
  cases next : talk.nextLine (snapshotScript blocks opening) Turn.source turn with
  | none => rwa [Talk.step_of_silent next]
  | some line =>
      rw [Talk.step_of_line next]
      rcases nextLine_cases ascending next with ⟨silent, rfl⟩ | ⟨begun, inRange, above, rfl⟩
      · have after := Shared.opens holds silent
        simpa only [hear, AppState.counters_onUpdate_snapshot _ _ _ _ raced,
          AppState.forwards_snapshot_iff _ _ _ _ raced] using after
      · have after := Shared.follows ascending holds begun rfl inRange above
          (orderly _ _ next)
        simpa only [hear, AppState.counters_onUpdate_block, AppState.forwards_block_iff]
          using after

include ascending in
/-- A turn that leaves the forwarded frames a continuation was orderly. -/
theorem SharedTalk.orderly (holds : SharedTalk key blocks opening talk)
    (continues :
      Continues blocks (snapshotStep blocks opening key talk turn).state.forwarded) :
    OrderlyTurn blocks opening key talk turn := by
  intro h payload next
  rw [snapshotStep, Talk.step_of_line next] at continues
  rcases nextLine_cases ascending next with ⟨-, same⟩ | ⟨-, inRange, -, same⟩
  · simp at same
  · rw [Prod.mk.injEq, Seq.block.injEq] at same
    obtain ⟨rfl, rfl⟩ := same
    apply Shared.orderly_of_continues ascending holds inRange
    simpa only [hear, AppState.forwards_block_iff] using continues

end Run

/-- On `l4Book`, what is forwarded after a shared snapshot continues it at every point of
a run exactly when every turn of the run is orderly. -/
theorem continues_iff_orderly [Payload β] (coin : String) (blocks : List (Nat × β))
    (ascending : Ascending Prod.fst blocks) (opening : Nat → Nat × β) (st : AppState β)
    (fresh : st.counters (.l4Book coin) = Counters.fresh) (turns : List Turn) :
    (∀ part, part <+: turns →
      Continues blocks
        (run (snapshotStep blocks opening (.l4Book coin)) (Talk.start ⟨st, []⟩)
          part).state.forwarded) ↔
    Throughout (snapshotStep blocks opening (.l4Book coin))
      (OrderlyTurn blocks opening (.l4Book coin)) (Talk.start ⟨st, []⟩) turns := by
  refine @throughout_iff_prefixes _ _ _ _ (SharedTalk (.l4Book coin) blocks opening)
    (fun talk => Continues blocks talk.state.forwarded) ?_ ?_ ?_ _ turns (sharedTalk_start fresh)
  · exact fun talk holds => Shared.continues ascending holds
  · exact fun talk turn holds orderly => SharedTalk.step rfl ascending holds orderly
  · exact fun talk turn holds continues => SharedTalk.orderly ascending holds continues

/-- Two sources with snapshots a block apart, the slower one silent after its own. -/
theorem continues_iff_orderly_one_speaker :
    (∀ part, part <+: ([⟨0, 1⟩, ⟨1, 2⟩, ⟨0, 3⟩] : List Turn) →
      Continues [(10, "first"), (11, "second")]
        (run (snapshotStep [(10, "first"), (11, "second")]
            (fun i => if i = 0 then (10, "book 10") else (9, "book 9")) (.l4Book "BTC"))
          (Talk.start ⟨AppState.new [{ id := 0 }, { id := 1 }], []⟩) part).state.forwarded) ↔
    Throughout
      (snapshotStep [(10, "first"), (11, "second")]
        (fun i => if i = 0 then (10, "book 10") else (9, "book 9")) (.l4Book "BTC"))
      (OrderlyTurn [(10, "first"), (11, "second")]
        (fun i => if i = 0 then (10, "book 10") else (9, "book 9")) (.l4Book "BTC"))
      (Talk.start ⟨AppState.new [{ id := 0 }, { id := 1 }], []⟩) [⟨0, 1⟩, ⟨1, 2⟩, ⟨0, 3⟩] :=
  continues_iff_orderly "BTC" [(10, "first"), (11, "second")] (by simp [Ascending])
    (fun i => if i = 0 then (10, "book 10") else (9, "book 9"))
    (AppState.new [{ id := 0 }, { id := 1 }]) rfl [⟨0, 1⟩, ⟨1, 2⟩, ⟨0, 3⟩]

/-- The first source's snapshot stands in for position one of block 10; the second source,
whose snapshot is one block older, then sends both messages of that block. -/
theorem snapshot_height_sent_again :
    ¬ ∀ part, part <+: ([⟨0, 1⟩, ⟨1, 2⟩, ⟨1, 3⟩, ⟨1, 4⟩] : List Turn) →
      Continues [(10, "first"), (10, "second")]
        (run (snapshotStep [(10, "first"), (10, "second")]
            (fun i => if i = 0 then (10, "book 10") else (9, "book 9")) (.l4Book "BTC"))
          (Talk.start ⟨AppState.new [{ id := 0 }, { id := 1 }], []⟩) part).state.forwarded := by
  intro always
  have repeated := always _ List.prefix_rfl 10 [(.block 10, "second")] (by decide)
  exact absurd repeated (by decide)

end Wsarb
