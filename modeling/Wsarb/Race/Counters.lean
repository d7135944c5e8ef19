import Wsarb.State.Effects

/-!
Owns the race on one key in its own terms: the height in play, how many of its messages
have gone out, how many each source has delivered, and which sources are written off.
`update_counters_block` and `update_counters_snapshot` connect it to the critical
section of `on_update`; the properties of the race are proved over the counters alone.

Does not own: single-sourced keys, where the leader decides and nothing is raced.
-/

namespace Wsarb

open Wsarb.Library

/-- What the race on a key goes by. -/
@[ext] structure Counters where
  last : Nat
  sent : Nat
  seen : Nat → Nat
  off : Nat → Bool

namespace Counters

def fresh : Counters := ⟨0, 0, fun _ => 0, fun _ => false⟩

def AcceptsBlock (c : Counters) (src h : Nat) : Prop :=
  c.off src = false ∧ (c.last < h ∨ h = c.last ∧ c.sent < (c.seen src + 1) % 2 ^ 32)

instance (c : Counters) (src h : Nat) : Decidable (c.AcceptsBlock src h) :=
  inferInstanceAs (Decidable (_ ∧ _))

/-- The counters of a height with one message out, from `src`. -/
def opened (c : Counters) (src h : Nat) : Counters where
  last := h
  sent := 1
  seen := Function.update (fun _ => 0) src 1
  off := c.off

/-- One more message of the height in play, from `src`. -/
def counted (c : Counters) (src : Nat) : Counters :=
  { c with
    sent := max c.sent ((c.seen src + 1) % 2 ^ 32)
    seen := Function.update c.seen src ((c.seen src + 1) % 2 ^ 32) }

def block (c : Counters) (src h : Nat) : Counters :=
  if c.off src = true then c
  else if c.last < h then c.opened src h
  else if h = c.last then c.counted src
  else c

/-- A source, and with it every source that shares its bit, back in play. -/
def pardon (c : Counters) (src : Nat) : Counters :=
  { c with off := fun id => c.off id && decide (id % 64 ≠ src % 64) }

/-- A snapshot, on a key whose snapshots any source may supply. -/
def snapshot (c : Counters) (src h : Nat) : Counters :=
  if c.last < h then (c.pardon src).opened src h else c.pardon src

variable {c : Counters} {src h : Nat}

theorem block_of_off (off : c.off src = true) : c.block src h = c := if_pos off

theorem block_of_newer (inPlay : c.off src = false) (newer : c.last < h) :
    c.block src h = c.opened src h := by
  rw [block, if_neg (by simp [inPlay]), if_pos newer]

theorem block_of_same (inPlay : c.off src = false) (same : h = c.last) :
    c.block src h = c.counted src := by
  rw [block, if_neg (by simp [inPlay]), if_neg (by omega), if_pos same]

theorem block_of_older (inPlay : c.off src = false) (older : h < c.last) :
    c.block src h = c := by
  rw [block, if_neg (by simp [inPlay]), if_neg (by omega), if_neg (by omega)]

@[simp] theorem block_off : (c.block src h).off = c.off := by
  unfold block
  split_ifs <;> rfl

theorem block_last (inPlay : c.off src = false) : (c.block src h).last = max c.last h := by
  rcases Nat.lt_trichotomy c.last h with newer | same | older
  · rw [block_of_newer inPlay newer]
    exact (max_eq_right (Nat.le_of_lt newer)).symm
  · rw [block_of_same inPlay same.symm, same, max_self]
    exact same
  · rw [block_of_older inPlay older, max_eq_left (Nat.le_of_lt older)]

/-- A refused block frame puts nothing more out. -/
theorem block_sent_of_refused (refuses : ¬ c.AcceptsBlock src h) :
    (c.block src h).sent = c.sent := by
  cases off : c.off src with
  | true => rw [block_of_off off]
  | false =>
      rcases Nat.lt_trichotomy c.last h with newer | same | older
      · exact absurd ⟨off, Or.inl newer⟩ refuses
      · rw [block_of_same off same.symm]
        apply max_eq_left
        by_contra ahead
        exact refuses ⟨off, Or.inr ⟨same.symm, Nat.not_le.mp ahead⟩⟩
      · rw [block_of_older off older]

theorem snapshot_of_above (above : c.last < h) :
    c.snapshot src h = (c.pardon src).opened src h := if_pos above

theorem snapshot_of_not_above (notAbove : ¬ c.last < h) : c.snapshot src h = c.pardon src :=
  if_neg notAbove

/-- No source has delivered more of the height in play than has gone out. -/
structure Sound (c : Counters) : Prop where
  sent_lt : c.sent < 2 ^ 32
  seen_le : ∀ i, c.seen i ≤ c.sent

theorem sound_fresh : fresh.Sound := ⟨by decide, fun _ => Nat.le_refl 0⟩

theorem sound_opened : (c.opened src h).Sound := by
  refine ⟨(by decide : 1 < 2 ^ 32), fun i => ?_⟩
  simp only [opened, Function.update_apply]
  split_ifs <;> omega

theorem Sound.counted (sound : c.Sound) : (c.counted src).Sound := by
  have bound := sound.sent_lt
  refine ⟨?_, fun i => ?_⟩
  · simp only [Counters.counted]
    omega
  · have behind := sound.seen_le i
    simp only [Counters.counted, Function.update_apply]
    split_ifs <;> omega

theorem Sound.block (sound : c.Sound) : (c.block src h).Sound := by
  unfold Counters.block
  split_ifs
  · exact sound
  · exact sound_opened
  · exact sound.counted
  · exact sound

theorem Sound.snapshot (sound : c.Sound) : (c.snapshot src h).Sound := by
  unfold Counters.snapshot
  split_ifs
  · exact sound_opened
  · exact ⟨sound.sent_lt, sound.seen_le⟩

end Counters

namespace SubEntry

variable {β : Type}

def counters (e : SubEntry β) : Counters where
  last := e.last
  sent := e.blockSent
  seen := e.seenBy
  off := e.writtenOff

theorem counters_new (now : Nat) : (SubEntry.new now : SubEntry β).counters = Counters.fresh := by
  ext id
  · rfl
  · rfl
  · rfl
  · simp [counters, writtenOff_eq_getLsbD, SubEntry.new, Counters.fresh]

theorem accepts_block_iff (e : SubEntry β) (key : SubKey) (src h : Nat) :
    e.Accepts key src (.block h) ↔ e.counters.AcceptsBlock src h := Iff.rfl

theorem accepts_snapshot_iff (e : SubEntry β) {key : SubKey} (src h : Nat)
    (raced : key.singleSourced = false) :
    e.Accepts key src (.snapshot h) ↔ e.counters.last < h := by
  simp [Accepts, counters, raced]

/-- Clearing a bit puts back exactly the sources that share it. -/
theorem writtenOff_pardoned (e : SubEntry β) (src id : Nat) :
    writtenOff { e with needsSnapshot := e.needsSnapshot &&& ~~~ sourceBit src } id =
      (e.writtenOff id && decide (id % 64 ≠ src % 64)) := by
  have below : id % 64 < 64 := Nat.mod_lt _ (by decide)
  rw [writtenOff_eq_getLsbD, writtenOff_eq_getLsbD, BitVec.getLsbD_and, BitVec.getLsbD_not,
    getLsbD_sourceBit]
  simp [below]

theorem counters_openBlock (e : SubEntry β) (src : Nat) :
    (e.openBlock src).counters = e.counters.opened src e.last := by
  ext id
  · rfl
  · rfl
  · simp only [counters, seenBy_openBlock, Counters.opened, Function.update_apply]
  · rfl

theorem seenBy_counted (e : SubEntry β) (src : Nat) :
    (e.bumpBlockCount src).1.seenBy =
      Function.update e.seenBy src ((e.seenBy src + 1) % 2 ^ 32) := by
  funext id
  rw [seenBy_bumpBlockCount, Function.update_apply]

variable [Payload β] (e : SubEntry β) (key : SubKey) (now src h : Nat) (payload : β)

theorem update_counters (seq : Seq) :
    (e.update key now src seq payload).1.counters = (e.arbitrate key now src seq).1.counters := by
  rw [update_entry]
  split <;> rfl

/-- A block frame moves the counters as the race says. -/
theorem update_counters_block :
    (e.update key now src (.block h) payload).1.counters = e.counters.block src h := by
  rw [update_counters, arbitrate]
  by_cases off : e.writtenOff src = true
  · rw [arbitrateBlock_stale e now src (Or.inl off)]
    exact (Counters.block_of_off off).symm
  · have inPlay : e.writtenOff src = false := by simpa using off
    rcases Nat.lt_trichotomy e.last h with newer | same | older
    · rw [arbitrateBlock_opens e now src inPlay newer, counters_openBlock]
      exact (Counters.block_of_newer (c := e.counters) inPlay newer).symm
    · refine Eq.trans ?_ (Counters.block_of_same (c := e.counters) inPlay same.symm).symm
      by_cases ahead : e.blockSent < (e.seenBy src + 1) % 2 ^ 32
      · rw [arbitrateBlock_continues e now src inPlay same.symm ahead]
        ext id
        · rfl
        · exact (max_eq_right (Nat.le_of_lt ahead)).symm
        · exact congrFun (seenBy_counted e src) id
        · rfl
      · obtain ⟨sampled, late, repeats⟩ := arbitrateBlock_repeats e now src inPlay same.symm ahead
        rw [repeats]
        ext id
        · rfl
        · exact (max_eq_left (Nat.not_lt.mp ahead)).symm
        · exact congrFun (seenBy_counted e src) id
        · rfl
    · rw [arbitrateBlock_stale e now src (Or.inr older)]
      exact (Counters.block_of_older (c := e.counters) inPlay older).symm

/-- A snapshot moves the counters as the race says. -/
theorem update_counters_snapshot (raced : key.singleSourced = false) :
    (e.update key now src (.snapshot h) payload).1.counters = e.counters.snapshot src h := by
  rw [update_counters, arbitrate]
  have pardoned : ∀ e : SubEntry β,
      counters { e with needsSnapshot := e.needsSnapshot &&& ~~~ sourceBit src } =
        e.counters.pardon src := by
    intro e
    ext id
    · rfl
    · rfl
    · rfl
    · exact writtenOff_pardoned e src id
  by_cases above : e.last < h
  · have accepts : e.Accepts key src (.snapshot h) := (accepts_snapshot_iff e src h raced).mpr above
    rw [arbitrateSnapshot_of_accepts e key now src accepts, counters_openBlock,
      Counters.snapshot_of_above above, ← pardoned]
    rfl
  · have refuses : ¬ e.Accepts key src (.snapshot h) :=
      mt (accepts_snapshot_iff e src h raced).mp above
    rw [arbitrateSnapshot_of_not_accepts e key now src refuses,
      Counters.snapshot_of_not_above above]
    exact pardoned e

end SubEntry

end Wsarb
