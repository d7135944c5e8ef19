import Wsarb.Library.Ladder
import Wsarb.Race.Hearing

/-!
Owns the race of a source that is never interrupted against sources that come and go, each
missing messages of the canonical list while it is away. A position is a count of what a
source has delivered of the height in play, and the count outlives the connection: a source
that missed messages of a height counts short. The messages are forwarded in order, and all
those of the uninterrupted source among them, as long as no other source brings a message
from beyond the first one missing.

Does not own: keys whose clients are rebuilt when a source is lost.
-/

namespace Wsarb

open Wsarb.Library

variable {β : Type}

/-! ### The counters -/

/-- No source is counted further than it has come. -/
def Counted (blocks : List (Nat × β)) (c : Counters) (pos : Nat → Nat) : Prop :=
  ∀ j, c.seen j ≤ pos j - below Prod.fst blocks c.last

/-- The first `count` messages are out, and `own` has brought none beyond them. -/
structure Unbroken (blocks : List (Nat × β)) (own : Nat) (c : Counters) (pos : Nat → Nat)
    (count : Nat) : Prop where
  below_le : below Prod.fst blocks c.last ≤ count
  le_upTo : count ≤ upTo Prod.fst blocks c.last
  sent : c.sent = count - below Prod.fst blocks c.last
  sound : c.Sound
  inPlay : ∀ j, c.off j = false
  counted : Counted blocks c pos
  exact : c.seen own = pos own - below Prod.fst blocks c.last
  behind : pos own ≤ count

/-- The message at `index` can no longer go out. -/
def Lost (blocks : List (Nat × β)) (c : Counters) (index : Nat) : Prop :=
  ∃ inRange : index < blocks.length,
    blocks[index].1 < c.last ∨
      blocks[index].1 = c.last ∧ index < below Prod.fst blocks c.last + c.sent

/-- A source at `index` brings nothing from beyond the first message missing, unless what it
brings is counted as a message that is out. -/
def Counters.InTurn (c : Counters) (count src index h : Nat) : Prop :=
  index ≤ count ∨ h = c.last ∧ c.seen src < c.sent

section Steps

variable {blocks : List (Nat × β)} {c : Counters} {pos : Nat → Nat} {own src count index : Nat}
  (ascending : Ascending Prod.fst blocks)

omit ascending in
/-- A source that comes further leaves the counts within what the sources have brought. -/
theorem Counted.further {missed : Nat} (counted : Counted blocks c pos) :
    Counted blocks c (Function.update pos src (pos src + missed)) := by
  intro j
  have before := counted j
  by_cases same : j = src
  · subst same
    rw [Function.update_self]
    omega
  · rwa [Function.update_of_ne same]

include ascending

/-- The counts stay within what the sources have brought. -/
theorem Counted.block (counted : Counted blocks c pos) (inRange : pos src < blocks.length) :
    Counted blocks (c.block src blocks[pos src].1)
      (Function.update pos src (pos src + 1)) := by
  cases off : c.off src with
  | true =>
      rw [Counters.block_of_off off]
      exact counted.further
  | false =>
      rcases Nat.lt_trichotomy c.last blocks[pos src].1 with newer | same | older
      · rw [Counters.block_of_newer off newer]
        intro j
        have foot : ¬ pos src < below Prod.fst blocks blocks[pos src].1 := by
          rw [lt_below_iff ascending _ inRange]
          omega
        by_cases same : j = src
        · subst same
          simp only [Counters.opened, Function.update_self]
          omega
        · simp [Counters.opened, Function.update_of_ne same]
      · rw [Counters.block_of_same off same.symm]
        intro j
        have before := counted j
        have foot : ¬ pos src < below Prod.fst blocks c.last := by
          rw [lt_below_iff ascending _ inRange]
          omega
        by_cases same : j = src
        · subst same
          simp only [Counters.counted, Function.update_self]
          omega
        · simpa [Counters.counted, Function.update_of_ne same] using before
      · rw [Counters.block_of_older off older]
        exact counted.further

/-- A message that can no longer go out never does. -/
theorem Lost.block (lost : Lost blocks c index) (counted : Counted blocks c pos)
    (inRange : pos src < blocks.length) :
    Lost blocks (c.block src blocks[pos src].1) index ∧
      (pos src = index → ¬ c.AcceptsBlock src blocks[pos src].1) := by
  obtain ⟨listed, gone⟩ := lost
  have before := counted src
  have refuses : pos src = index → ¬ c.AcceptsBlock src blocks[pos src].1 := by
    rintro rfl ⟨-, newer | ⟨same, ahead⟩⟩
    · omega
    · have wrapped := Nat.mod_le (c.seen src + 1) (2 ^ 32)
      have foot : ¬ pos src < below Prod.fst blocks c.last := by
        rw [lt_below_iff ascending _ inRange]
        omega
      omega
  refine ⟨⟨listed, ?_⟩, refuses⟩
  cases off : c.off src with
  | true => rwa [Counters.block_of_off off]
  | false =>
      rcases Nat.lt_trichotomy c.last blocks[pos src].1 with newer | same | older
      · rw [Counters.block_of_newer off newer]
        left
        show blocks[index].1 < blocks[pos src].1
        omega
      · rw [Counters.block_of_same off same.symm]
        refine gone.imp_right fun both => ⟨both.1, both.2.trans_le ?_⟩
        exact Nat.add_le_add_left (Nat.le_max_left _ _) _
      · rwa [Counters.block_of_older off older]

/-- In its turn, a message goes out only where it is the first one missing. -/
theorem Unbroken.next_of_accepts (unbroken : Unbroken blocks own c pos count)
    (inRange : pos src < blocks.length)
    (turn : c.InTurn count src (pos src) blocks[pos src].1)
    (accepts : c.AcceptsBlock src blocks[pos src].1) : pos src = count := by
  have atMost := unbroken.le_upTo
  have sent := unbroken.sent
  have counted := unbroken.counted src
  rcases accepts.2 with newer | ⟨same, ahead⟩
  · have notYet : ¬ pos src < upTo Prod.fst blocks c.last := by
      rw [lt_upTo_iff ascending _ inRange]
      omega
    rcases turn with reached | ⟨inHeight, -⟩
    · omega
    · omega
  · have wrapped := Nat.mod_le (c.seen src + 1) (2 ^ 32)
    rcases turn with reached | ⟨-, short⟩
    · have foot : ¬ pos src < below Prod.fst blocks c.last := by
        rw [lt_below_iff ascending _ inRange]
        omega
      omega
    · omega

variable (counts : ∀ h, blocks.countP (fun block => block.1 = h) < 2 ^ 32)
include counts

/-- The uninterrupted source's message goes out where it is the first one missing. -/
theorem Unbroken.own_accepts (unbroken : Unbroken blocks own c pos count)
    (inRange : pos own < blocks.length) (next : pos own = count) :
    c.AcceptsBlock own blocks[pos own].1 := by
  have atLeast := unbroken.below_le
  have sent := unbroken.sent
  have exact := unbroken.exact
  have low := lt_below_iff ascending c.last inRange
  refine ⟨unbroken.inPlay own, ?_⟩
  rcases Nat.lt_trichotomy c.last blocks[pos own].1 with newer | same | older
  · exact Or.inl newer
  · right
    have inHeight := (lt_upTo_iff ascending c.last inRange).mpr (Nat.le_of_eq same.symm)
    have total := below_add_countP Prod.fst blocks c.last
    have fits := counts c.last
    refine ⟨same.symm, ?_⟩
    rw [Nat.mod_eq_of_lt (by omega)]
    omega
  · omega

/-- The uninterrupted source brings nothing beyond the messages that are then out. -/
theorem Unbroken.behind_after (unbroken : Unbroken blocks own c pos count)
    (inRange : pos src < blocks.length) :
    Function.update pos src (pos src + 1) own ≤
      if c.AcceptsBlock src blocks[pos src].1 then count + 1 else count := by
  have behind := unbroken.behind
  by_cases same : own = src
  · subst same
    rw [Function.update_self]
    split
    · omega
    · next refuses =>
        have other : pos own ≠ count :=
          fun next => refuses (unbroken.own_accepts ascending counts inRange next)
        omega
  · rw [Function.update_of_ne same]
    split <;> omega

omit counts in
/-- A message that opens a height in its turn goes out. -/
theorem Unbroken.opens (unbroken : Unbroken blocks own c pos count)
    (inRange : pos src < blocks.length)
    (turn : c.InTurn count src (pos src) blocks[pos src].1) (newer : c.last < blocks[pos src].1)
    (behind : Function.update pos src (pos src + 1) own ≤ count + 1) :
    Unbroken blocks own (c.block src blocks[pos src].1) (Function.update pos src (pos src + 1))
      (count + 1) := by
  have inPlay := unbroken.inPlay src
  have counted := unbroken.counted.block ascending inRange
  have sound : (c.block src blocks[pos src].1).Sound := unbroken.sound.block
  have first := unbroken.next_of_accepts ascending inRange turn ⟨inPlay, Or.inl newer⟩
  have atMost := unbroken.le_upTo
  have own_behind := unbroken.behind
  have foot : below Prod.fst blocks blocks[pos src].1 = pos src :=
    below_of_opens ascending inRange rfl (by
      have opens := upTo_le_below Prod.fst blocks newer
      omega)
  have inHeight := (lt_upTo_iff ascending blocks[pos src].1 inRange).mpr (Nat.le_refl _)
  rw [Counters.block_of_newer inPlay newer] at counted sound ⊢
  refine ⟨?_, ?_, ?_, sound, unbroken.inPlay, counted, ?_, behind⟩
  · show below Prod.fst blocks blocks[pos src].1 ≤ count + 1
    omega
  · show count + 1 ≤ upTo Prod.fst blocks blocks[pos src].1
    omega
  · show 1 = count + 1 - below Prod.fst blocks blocks[pos src].1
    omega
  · show Function.update (fun _ => 0) src 1 own =
      Function.update pos src (pos src + 1) own - below Prod.fst blocks blocks[pos src].1
    by_cases mine : own = src
    · subst mine
      rw [Function.update_self, Function.update_self]
      omega
    · rw [Function.update_of_ne mine, Function.update_of_ne mine]
      omega

/-- The counts after a message of the height in play that is brought in its turn. -/
theorem Unbroken.counts_on (unbroken : Unbroken blocks own c pos count)
    (inRange : pos src < blocks.length)
    (turn : c.InTurn count src (pos src) blocks[pos src].1) (same : c.last = blocks[pos src].1) :
    (c.counted src).seen own =
        Function.update pos src (pos src + 1) own - below Prod.fst blocks c.last ∧
      (c.counted src).sent =
        (if c.AcceptsBlock src blocks[pos src].1 then count + 1 else count) -
          below Prod.fst blocks c.last := by
  have atMost := unbroken.le_upTo
  have atLeast := unbroken.below_le
  have behind := unbroken.behind
  have sent := unbroken.sent
  have exact := unbroken.exact
  have low := lt_below_iff ascending c.last inRange
  have high := lt_upTo_iff ascending c.last inRange
  have total := below_add_countP Prod.fst blocks c.last
  have fits := counts c.last
  constructor
  · by_cases mine : own = src
    · subst mine
      simp only [Counters.counted, Function.update_self]
      rw [Nat.mod_eq_of_lt (by omega)]
      omega
    · simpa [Counters.counted, Function.update_of_ne mine] using exact
  · have reached := unbroken.counted src
    have wrapped := Nat.mod_le (c.seen src + 1) (2 ^ 32)
    show max c.sent ((c.seen src + 1) % 2 ^ 32) = _
    split
    · next accepts =>
        have first := unbroken.next_of_accepts ascending inRange turn accepts
        rcases accepts.2 with newer | ⟨-, ahead⟩ <;> omega
    · next refuses =>
        have notAhead : ¬ c.sent < (c.seen src + 1) % 2 ^ 32 :=
          fun ahead => refuses ⟨unbroken.inPlay src, Or.inr ⟨same.symm, ahead⟩⟩
        omega

/-- A message of the height in play that is brought in its turn. -/
theorem Unbroken.goesOn (unbroken : Unbroken blocks own c pos count)
    (inRange : pos src < blocks.length)
    (turn : c.InTurn count src (pos src) blocks[pos src].1) (same : c.last = blocks[pos src].1)
    (behind : Function.update pos src (pos src + 1) own ≤
      if c.AcceptsBlock src blocks[pos src].1 then count + 1 else count) :
    Unbroken blocks own (c.block src blocks[pos src].1) (Function.update pos src (pos src + 1))
      (if c.AcceptsBlock src blocks[pos src].1 then count + 1 else count) := by
  have inPlay := unbroken.inPlay src
  have counted := unbroken.counted.block ascending inRange
  have sound : (c.block src blocks[pos src].1).Sound := unbroken.sound.block
  have atLeast := unbroken.below_le
  have atMost := unbroken.le_upTo
  have high := lt_upTo_iff ascending c.last inRange
  obtain ⟨exact, sent⟩ := unbroken.counts_on ascending counts inRange turn same
  rw [Counters.block_of_same inPlay same.symm] at counted sound ⊢
  refine ⟨?_, ?_, sent, sound, unbroken.inPlay, counted, exact, behind⟩
  · show below Prod.fst blocks c.last ≤ _
    split <;> omega
  · show _ ≤ upTo Prod.fst blocks c.last
    split
    · next accepts =>
        have first := unbroken.next_of_accepts ascending inRange turn accepts
        omega
    · exact atMost

omit counts in
/-- A message of an older height changes nothing but how far its source has come. -/
theorem Unbroken.isOld (unbroken : Unbroken blocks own c pos count)
    (inRange : pos src < blocks.length) (older : blocks[pos src].1 < c.last)
    (behind : Function.update pos src (pos src + 1) own ≤ count) :
    Unbroken blocks own (c.block src blocks[pos src].1) (Function.update pos src (pos src + 1))
      count := by
  have counted := unbroken.counted.block ascending inRange
  have exact := unbroken.exact
  have low := (lt_below_iff ascending c.last inRange).mpr older
  rw [Counters.block_of_older (unbroken.inPlay src) older] at counted ⊢
  refine ⟨unbroken.below_le, unbroken.le_upTo, unbroken.sent, unbroken.sound, unbroken.inPlay,
    counted, ?_, behind⟩
  by_cases mine : own = src
  · subst mine
    rw [Function.update_self]
    omega
  · rwa [Function.update_of_ne mine]

/-- Every message brought in its turn keeps the row of messages out unbroken. -/
theorem Unbroken.block (unbroken : Unbroken blocks own c pos count)
    (inRange : pos src < blocks.length)
    (turn : c.InTurn count src (pos src) blocks[pos src].1) :
    Unbroken blocks own (c.block src blocks[pos src].1) (Function.update pos src (pos src + 1))
      (if c.AcceptsBlock src blocks[pos src].1 then count + 1 else count) := by
  have behind := unbroken.behind_after ascending counts inRange
  rcases Nat.lt_trichotomy c.last blocks[pos src].1 with newer | same | older
  · have accepts : c.AcceptsBlock src blocks[pos src].1 :=
      ⟨unbroken.inPlay src, Or.inl newer⟩
    rw [if_pos accepts] at behind ⊢
    exact unbroken.opens ascending inRange turn newer behind
  · exact unbroken.goesOn ascending counts inRange turn same behind
  · have refuses : ¬ c.AcceptsBlock src blocks[pos src].1 := by
      rintro ⟨-, newer | ⟨same, -⟩⟩ <;> omega
    rw [if_neg refuses] at behind ⊢
    exact unbroken.isOld ascending inRange older behind

/-- A message brought out of turn goes out, and the first one missing no longer can. -/
theorem Unbroken.lost (unbroken : Unbroken blocks own c pos count)
    (inRange : pos src < blocks.length)
    (early : ¬ c.InTurn count src (pos src) blocks[pos src].1) :
    Lost blocks (c.block src blocks[pos src].1) count := by
  have inPlay := unbroken.inPlay src
  have atLeast := unbroken.below_le
  have atMost := unbroken.le_upTo
  have sent := unbroken.sent
  obtain ⟨beyond, level⟩ := not_or.mp early
  have listed : count < blocks.length := by omega
  have sorted : blocks[count].1 ≤ blocks[pos src].1 :=
    List.pairwise_iff_getElem.mp ascending count (pos src) listed inRange (by omega)
  refine ⟨listed, ?_⟩
  rcases Nat.lt_trichotomy c.last blocks[pos src].1 with newer | same | older
  · rw [Counters.block_of_newer inPlay newer]
    have opens := upTo_le_below Prod.fst blocks newer
    rcases Nat.lt_or_eq_of_le sorted with lower | equal
    · exact Or.inl lower
    · refine Or.inr ⟨equal, ?_⟩
      show count < below Prod.fst blocks blocks[pos src].1 + 1
      omega
  · have high := (lt_upTo_iff ascending c.last inRange).mpr (Nat.le_of_eq same.symm)
    have low := lt_below_iff ascending c.last listed
    have total := below_add_countP Prod.fst blocks c.last
    have fits := counts c.last
    have reached : c.sent ≤ c.seen src :=
      Nat.not_lt.mp fun short => level ⟨same.symm, short⟩
    have behind := unbroken.sound.seen_le src
    rw [Counters.block_of_same inPlay same.symm]
    refine Or.inr ⟨?_, ?_⟩
    · show blocks[count].1 = c.last
      omega
    · show count < below Prod.fst blocks c.last + max c.sent ((c.seen src + 1) % 2 ^ 32)
      rw [Nat.mod_eq_of_lt (by omega)]
      omega
  · have low := (lt_below_iff ascending c.last inRange).mpr older
    omega

end Steps

/-! ### The run -/

/-- What happens next: a source sends the message it has come to, or is lost and is back only
after some more messages. -/
inductive Happening
  | sends (source now : Nat)
  | drops (source missed : Nat)

/-- The race, with how far each source has come. -/
structure Relay (β : Type) extends Heard β where
  pos : Nat → Nat

namespace Relay

def step [Payload β] (user : String) (blocks : List (Nat × β)) (relay : Relay β) :
    Happening → Relay β
  | .sends source now =>
      match blocks[relay.pos source]? with
      | none => relay
      | some block =>
          { toHeard := hear (.orderUpdates user) relay.toHeard ⟨source, now⟩
              (.block block.1, block.2)
            pos := Function.update relay.pos source (relay.pos source + 1) }
  | .drops source missed =>
      { st := (relay.st.resyncAfterSourceLoss source).1
        forwarded := relay.forwarded
        pos := Function.update relay.pos source (relay.pos source + missed) }

def start (st : AppState β) : Relay β := { st := st, forwarded := [], pos := fun _ => 0 }

/-- The messages forwarded are in order, each once, and those the source has sent are all
among them. -/
structure Intact (blocks : List (Nat × β)) (own : Nat) (relay : Relay β) : Prop where
  ordered : relay.forwarded.Sublist (blockFrames blocks)
  once : relay.forwarded.Nodup
  complete : ∀ frame ∈ (blockFrames blocks).take (relay.pos own), frame ∈ relay.forwarded

/-- Unless it is the source that is never interrupted, a source sends nothing from beyond the
first message not forwarded yet, other than a message of the height in play of which it has
delivered fewer than have been forwarded. -/
def InTurn (user : String) (blocks : List (Nat × β)) (own : Nat) (relay : Relay β) :
    Happening → Prop
  | .sends source _ =>
      source ≠ own → ∀ block, blocks[relay.pos source]? = some block →
        (relay.st.counters (.orderUpdates user)).InTurn relay.forwarded.length source
          (relay.pos source) block.1
  | .drops .. => True

section Run

variable [Payload β] {user : String} {blocks : List (Nat × β)} {own : Nat} {relay : Relay β}

omit [Payload β] in
/-- The loss of a source leaves the race on such a key alone. -/
theorem counters_resyncAfterSourceLoss (st : AppState β) (source : Nat) :
    (st.resyncAfterSourceLoss source).1.counters (.orderUpdates user) =
      st.counters (.orderUpdates user) := by
  rw [AppState.counters, AppState.counters, AppState.getEntry_resyncAfterSourceLoss]
  cases st.getEntry (.orderUpdates user) with
  | none => rfl
  | some e =>
      have unchanged : (e.loseSource source (.orderUpdates user)).1 = e := by
        unfold SubEntry.loseSource
        split <;> rfl
      rw [Option.map_some, unchanged]

def counters (user : String) (relay : Relay β) : Counters :=
  relay.st.counters (.orderUpdates user)

theorem step_of_end {source now : Nat} (ended : blocks.length ≤ relay.pos source) :
    step user blocks relay (.sends source now) = relay := by
  rw [step, List.getElem?_eq_none ended]

theorem step_of_sends (user : String) (now : Nat) {source : Nat}
    (inRange : relay.pos source < blocks.length) :
    (step user blocks relay (.sends source now)).counters user =
        (relay.counters user).block source blocks[relay.pos source].1 ∧
      (step user blocks relay (.sends source now)).pos =
        Function.update relay.pos source (relay.pos source + 1) ∧
      (step user blocks relay (.sends source now)).forwarded =
        if (relay.counters user).AcceptsBlock source blocks[relay.pos source].1 then
          relay.forwarded ++ [(.block blocks[relay.pos source].1, blocks[relay.pos source].2)]
        else relay.forwarded := by
  rw [step, List.getElem?_eq_getElem inRange]
  refine ⟨?_, rfl, ?_⟩
  · exact relay.st.counters_onUpdate_block _ _ _ _ _
  · simp only [hear, AppState.forwards_block_iff]
    rfl

/-- The first messages are out in a row. -/
structure Running (user : String) (blocks : List (Nat × β)) (own : Nat) (relay : Relay β) :
    Prop where
  unbroken : Unbroken blocks own (relay.counters user) relay.pos relay.forwarded.length
  forwarded : relay.forwarded = (blockFrames blocks).take relay.forwarded.length

/-- One message can no longer go out, and has not. -/
structure Broken (user : String) (blocks : List (Nat × β)) (index : Nat) (relay : Relay β) :
    Prop where
  counted : Counted blocks (relay.counters user) relay.pos
  lost : Lost blocks (relay.counters user) index
  missing : ∀ frame, (blockFrames blocks)[index]? = some frame → frame ∉ relay.forwarded

omit [Payload β] in
theorem running_start {st : AppState β}
    (fresh : st.counters (.orderUpdates user) = Counters.fresh) :
    Running user blocks own (start st) where
  unbroken := by
    show Unbroken blocks own (st.counters (.orderUpdates user)) (fun _ => 0) 0
    rw [fresh]
    exact ⟨by simp [Counters.fresh], Nat.zero_le _, by simp [Counters.fresh],
      Counters.sound_fresh, fun _ => rfl, fun _ => Nat.zero_le _, by simp [Counters.fresh],
      Nat.le_refl 0⟩
  forwarded := rfl

omit [Payload β] in
theorem nodup_blockFrames (distinct : blocks.Nodup) : (blockFrames blocks).Nodup :=
  distinct.map fun first second same => by
    obtain ⟨height, payload⟩ := Prod.mk.inj same
    exact Prod.ext (Seq.block.inj height) payload

omit [Payload β] in
/-- Two places of the list hold two frames. -/
theorem frame_ne {index other : Nat} (distinct : blocks.Nodup) (apart : other ≠ index)
    {frame : Seq × β} (found : (blockFrames blocks)[index]? = some frame)
    (inRange : other < blocks.length) :
    frame ≠ (.block blocks[other].1, blocks[other].2) := by
  rintro rfl
  have inList : other < (blockFrames blocks).length := by simpa [blockFrames] using inRange
  have same := blockFrames_getElem?_of_lt inRange
  exact apart ((List.getElem?_inj inList (nodup_blockFrames distinct)).mp
    (same.trans found.symm))

omit [Payload β] in
/-- A place of the list does not hold an earlier frame. -/
theorem frame_notMem_take {index : Nat} (distinct : blocks.Nodup) {frame : Seq × β}
    (found : (blockFrames blocks)[index]? = some frame) :
    frame ∉ (blockFrames blocks).take index := by
  have longer := (nodup_blockFrames distinct).sublist (List.take_sublist (index + 1) _)
  rw [List.take_add_one, found] at longer
  intro member
  exact (List.nodup_append.mp longer).2.2 frame member frame (List.mem_singleton_self _) rfl

variable (ascending : Ascending Prod.fst blocks)
include ascending

/-- What can no longer go out never does. -/
theorem Broken.step (distinct : blocks.Nodup) {index : Nat}
    (broken : Broken user blocks index relay) (happening : Happening) :
    Broken user blocks index (step user blocks relay happening) := by
  cases happening with
  | drops source missed =>
      have same : (Relay.step user blocks relay (.drops source missed)).counters user =
          relay.counters user := counters_resyncAfterSourceLoss relay.st source
      refine ⟨?_, ?_, broken.missing⟩
      · rw [same]
        exact broken.counted.further
      · rw [same]
        exact broken.lost
  | sends source now =>
      rcases Nat.lt_or_ge (relay.pos source) blocks.length with inRange | ended
      · obtain ⟨counters, pos, forwarded⟩ :=
          step_of_sends user now inRange
        obtain ⟨lost, refuses⟩ := broken.lost.block ascending broken.counted inRange
        refine ⟨?_, counters ▸ lost, ?_⟩
        · rw [counters, pos]
          exact broken.counted.block ascending inRange
        · intro frame found
          have before := broken.missing frame found
          rw [forwarded]
          split
          · next accepts =>
              have other : relay.pos source ≠ index := fun same => refuses same accepts
              rw [List.mem_append, List.mem_singleton]
              exact not_or.mpr ⟨before, frame_ne distinct other found inRange⟩
          · exact before
      · rwa [step_of_end ended]

/-- A happening in its turn keeps the messages out in a row. -/
theorem Running.step (counts : ∀ h, blocks.countP (fun block => block.1 = h) < 2 ^ 32)
    (running : Running user blocks own relay) {happening : Happening}
    (kept : ∀ missed, happening ≠ .drops own missed)
    (turn : InTurn user blocks own relay happening) :
    Running user blocks own (step user blocks relay happening) := by
  cases happening with
  | drops source missed =>
      have same : (Relay.step user blocks relay (.drops source missed)).counters user =
          relay.counters user := counters_resyncAfterSourceLoss relay.st source
      have other : own ≠ source := fun mine => kept missed (by rw [mine])
      have unbroken := running.unbroken
      refine ⟨?_, running.forwarded⟩
      have position : (Relay.step user blocks relay (.drops source missed)).pos own =
          relay.pos own := Function.update_of_ne other _ _
      rw [same]
      refine ⟨unbroken.below_le, unbroken.le_upTo, unbroken.sent, unbroken.sound,
        unbroken.inPlay, unbroken.counted.further, ?_, ?_⟩
      · rw [position]
        exact unbroken.exact
      · rw [position]
        exact unbroken.behind
  | sends source now =>
      rcases Nat.lt_or_ge (relay.pos source) blocks.length with inRange | ended
      · have turn : (relay.counters user).InTurn relay.forwarded.length source
            (relay.pos source) blocks[relay.pos source].1 := by
          by_cases mine : source = own
          · exact Or.inl (mine ▸ running.unbroken.behind)
          · exact turn mine _ (List.getElem?_eq_getElem inRange)
        have unbroken := running.unbroken.block ascending counts inRange turn
        have next := running.unbroken.next_of_accepts ascending inRange turn
        obtain ⟨counters, pos, forwarded⟩ :=
          step_of_sends user now inRange
        by_cases accepts : (relay.counters user).AcceptsBlock source blocks[relay.pos source].1
        · rw [if_pos accepts] at unbroken forwarded
          have length : (Relay.step user blocks relay (.sends source now)).forwarded.length =
              relay.forwarded.length + 1 := by rw [forwarded, List.length_append]; rfl
          refine ⟨?_, ?_⟩
          · rwa [counters, pos, length]
          · have row : relay.forwarded = (blockFrames blocks).take (relay.pos source) := by
              rw [next accepts]
              exact running.forwarded
            rw [length, forwarded, ← next accepts, take_succ_blockFrames inRange, ← row]
        · rw [if_neg accepts] at unbroken forwarded
          refine ⟨?_, ?_⟩
          · rwa [counters, pos, forwarded]
          · rw [forwarded]
            exact running.forwarded
      · rwa [step_of_end ended]

/-- A happening out of turn leaves a message missing for good. -/
theorem Running.broken (counts : ∀ h, blocks.countP (fun block => block.1 = h) < 2 ^ 32)
    (distinct : blocks.Nodup) (running : Running user blocks own relay) {happening : Happening}
    (early : ¬ InTurn user blocks own relay happening) :
    Broken user blocks relay.forwarded.length (Relay.step user blocks relay happening) := by
  cases happening with
  | drops source missed => exact absurd trivial early
  | sends source now =>
      rw [InTurn] at early
      push Not at early
      obtain ⟨-, block, found, early⟩ := early
      obtain ⟨inRange, rfl⟩ := List.getElem?_eq_some_iff.mp found
      have lost := running.unbroken.lost ascending counts inRange early
      have beyond : relay.pos source ≠ relay.forwarded.length :=
        fun same => early (Or.inl (Nat.le_of_eq same))
      obtain ⟨counters, pos, forwarded⟩ :=
        step_of_sends user now inRange
      refine ⟨?_, counters ▸ lost, ?_⟩
      · rw [counters, pos]
        exact running.unbroken.counted.block ascending inRange
      · intro frame found
        have notYet : frame ∉ relay.forwarded := by
          rw [running.forwarded]
          exact frame_notMem_take distinct found
        rw [forwarded]
        split
        · rw [List.mem_append, List.mem_singleton]
          exact not_or.mpr ⟨notYet, frame_ne distinct beyond found inRange⟩
        · exact notYet

omit [Payload β] ascending in
theorem Running.intact (distinct : blocks.Nodup) (running : Running user blocks own relay) :
    Intact blocks own relay := by
  have sublist : relay.forwarded.Sublist (blockFrames blocks) := by
    rw [running.forwarded]
    exact List.take_sublist _ _
  refine ⟨sublist, (nodup_blockFrames distinct).sublist sublist, fun frame member => ?_⟩
  rw [running.forwarded]
  exact (List.take_prefix_take_left running.unbroken.behind).subset member

omit ascending in
/-- A source that reads on comes to the end. -/
theorem pos_reads_on (user : String) (blocks : List (Nat × β)) (own now count : Nat)
    (relay : Relay β) :
    min blocks.length (relay.pos own + count) ≤
      (run (Relay.step user blocks) relay (List.replicate count (.sends own now))).pos own := by
  induction count generalizing relay with
  | zero => exact Nat.min_le_right _ _
  | succ count inductionHypothesis =>
      rw [List.replicate_succ, run_cons]
      apply Nat.le_trans _ (inductionHypothesis _)
      rcases Nat.lt_or_ge (relay.pos own) blocks.length with inRange | ended
      · rw [(step_of_sends user now inRange).2.1, Function.update_self]
        omega
      · rw [step_of_end ended]
        omega

omit [Payload β] ascending in
/-- Once the source has come past a message that cannot go out, the row is not intact. -/
theorem Broken.not_intact {index : Nat} (broken : Broken user blocks index relay)
    (past : index < relay.pos own) : ¬ Intact blocks own relay := by
  intro intact
  obtain ⟨inRange, -⟩ := broken.lost
  have found := blockFrames_getElem?_of_lt inRange
  apply broken.missing _ found
  apply intact.complete
  apply List.mem_of_getElem? (i := index)
  rw [List.getElem?_take_of_lt past]
  exact found

/-- Out of turn once, and the source that reads on comes past a message that is missing. -/
theorem inTurn_of_intact (counts : ∀ h, blocks.countP (fun block => block.1 = h) < 2 ^ 32)
    (distinct : blocks.Nodup) (now : Nat) (happenings : List Happening)
    (kept : ∀ missed, .drops own missed ∉ happenings) (running : Running user blocks own relay)
    (intact : ∀ count, Intact blocks own (run (Relay.step user blocks) relay
      (happenings ++ List.replicate count (.sends own now)))) :
    Throughout (Relay.step user blocks) (InTurn user blocks own) relay happenings := by
  induction happenings generalizing relay with
  | nil => trivial
  | cons happening rest inductionHypothesis =>
      by_cases turn : InTurn user blocks own relay happening
      · refine ⟨turn, inductionHypothesis ?_ ?_ intact⟩
        · exact fun missed member => kept missed (List.mem_cons_of_mem _ member)
        · apply running.step ascending counts _ turn
          rintro missed rfl
          exact kept missed List.mem_cons_self
      · exfalso
        have broken : ∀ happenings, Broken user blocks relay.forwarded.length
            (run (Relay.step user blocks) (Relay.step user blocks relay happening) happenings) :=
          fun happenings => Reachable.invariant ⟨happenings, rfl⟩
            (running.broken ascending counts distinct turn)
            fun _ happening broken => broken.step ascending distinct happening
        have past := pos_reads_on user blocks own now blocks.length
          (run (Relay.step user blocks) (Relay.step user blocks relay happening) rest)
        obtain ⟨inRange, -⟩ := (broken []).lost
        refine (broken (rest ++ List.replicate blocks.length (.sends own now))).not_intact ?_
          (intact blocks.length)
        rw [run_append]
        omega

end Run

/-- The messages go out in order, each once, with all those of the uninterrupted source among
them, in a run and however far that source reads on, exactly when every other source's
messages come in their turn. -/
theorem intact_iff_in_turn [Payload β] (user : String) (blocks : List (Nat × β))
    (distinct : blocks.Nodup) (ascending : Ascending Prod.fst blocks)
    (counts : ∀ h, blocks.countP (fun block => block.1 = h) < 2 ^ 32) (st : AppState β)
    (fresh : st.counters (.orderUpdates user) = Counters.fresh) (own opens now : Nat)
    (happenings : List Happening) (kept : ∀ missed, .drops own missed ∉ happenings) :
    (∀ count, Intact blocks own (run (Relay.step user blocks)
        ((start st).step user blocks (.sends own opens))
        (happenings ++ List.replicate count (.sends own now)))) ↔
      Throughout (Relay.step user blocks) (InTurn user blocks own)
        ((start st).step user blocks (.sends own opens)) happenings := by
  have opened : Running user blocks own ((start st).step user blocks (.sends own opens)) :=
    (running_start fresh).step ascending counts (fun _ => Happening.noConfusion)
      fun other => absurd rfl other
  constructor
  · exact inTurn_of_intact ascending counts distinct now happenings kept opened
  · intro turns count
    have readsOn : ∀ relay, Throughout (Relay.step user blocks) (InTurn user blocks own) relay
        (List.replicate count (.sends own now)) := by
      intro relay
      apply throughout_of_forall
      intro happening member relay
      rw [List.eq_of_mem_replicate member]
      exact fun other => absurd rfl other
    have uninterrupted : Throughout (Relay.step user blocks)
        (fun _ happening => ∀ missed, happening ≠ .drops own missed)
        ((start st).step user blocks (.sends own opens))
        (happenings ++ List.replicate count (.sends own now)) := by
      apply throughout_of_forall
      rintro happening member - missed rfl
      rcases List.mem_append.mp member with mine | reads
      · exact kept missed mine
      · cases List.eq_of_mem_replicate reads
    have meets := uninterrupted.and
      ((throughout_append _ _ _ _ _).mpr ⟨turns, readsOn _⟩)
    have keeps : ∀ relay happening, Running user blocks own relay →
        (∀ missed, happening ≠ .drops own missed) ∧ InTurn user blocks own relay happening →
        Running user blocks own (Relay.step user blocks relay happening) :=
      fun _ _ running both => running.step ascending counts both.1 both.2
    exact (run_keeps keeps _ opened meets).intact distinct

/-- Source 1 is away for messages 2 and 3 of a block of four. -/
def awayInBlock : List Happening := [.sends 1 2, .drops 1 2]

/-- It is back for the fourth once the second and third are out. -/
def backInTurn : List Happening := [.sends 1 2, .drops 1 2, .sends 0 3, .sends 0 4, .sends 1 5]

/-- It is counted short, and nothing is lost. -/
theorem intact_iff_in_turn_back :
    Intact [(7, "m1"), (7, "m2"), (7, "m3"), (7, "m4")] 0
      (run (Relay.step "0xa" [(7, "m1"), (7, "m2"), (7, "m3"), (7, "m4")])
        ((start (AppState.new [{ id := 0 }, { id := 1 }])).step "0xa"
          [(7, "m1"), (7, "m2"), (7, "m3"), (7, "m4")] (.sends 0 1))
        (backInTurn ++ List.replicate 1 (.sends 0 6))) :=
  (intact_iff_in_turn "0xa" [(7, "m1"), (7, "m2"), (7, "m3"), (7, "m4")] (by decide)
    (by simp [Ascending]) (fun _ => Nat.lt_of_le_of_lt List.countP_le_length (by decide))
    (AppState.new [{ id := 0 }, { id := 1 }]) rfl 0 1 6 backInTurn (by simp [backInTurn])).mpr
    ⟨fun _ _ _ => Or.inl (Nat.zero_le _), trivial, fun other => absurd rfl other,
      fun other => absurd rfl other, fun _ _ _ => Or.inl (by decide), trivial⟩ 1

/-- Back in the block, source 1 brings its fourth message as its second: it goes out, and the
second message of source 0 no longer does. -/
theorem reconnect_loses_message :
    ¬ ∀ (user : String) (blocks : List (Nat × String)) (sources : List Source)
      (own opens : Nat) (happenings : List Happening),
      blocks.Nodup → Ascending Prod.fst blocks →
      (∀ missed, .drops own missed ∉ happenings) →
      Intact blocks own (run (Relay.step user blocks)
        ((start (AppState.new sources)).step user blocks (.sends own opens)) happenings) := by
  intro always
  have intact := always "0xa" [(7, "m1"), (7, "m2"), (7, "m3"), (7, "m4")]
    [{ id := 0 }, { id := 1 }] 0 1 (awayInBlock ++ [.sends 1 3, .sends 0 4])
    (by decide) (by simp [Ascending]) (by simp [awayInBlock])
  have missing := intact.complete (.block 7, "m2") (by decide)
  exact absurd missing (by decide)

end Relay

end Wsarb
