import Mathlib.Algebra.Order.Ring.Nat
import Mathlib.Data.List.GetD
import Mathlib.Data.List.Basic
import Wsarb.State.SubKey

/-!
Owns one subscription's record: the arbitration counters, the attached clients and
the clients parked until a snapshot of their own arrives. Owns the two operations on
the per-block position counters and the per-source mask bits.

Clients are named by their ids: every handle to a client is a handle to the same
client. Counters of positions are `u32` and wrap, as they do in the release build.

Does not own: the arbitration rule itself.
-/

namespace Wsarb

/-- What the code asks of a payload, which it never otherwise looks into. -/
class Payload (β : Type) where
  len : β → Nat

/-- The text of a frame, as the source passes it on. -/
instance : Payload String where
  len text := text.utf8ByteSize

/-- A client waiting for its own snapshot, with the frames piled up behind it:
source, height, payload. -/
structure Pending (β : Type) where
  client : Nat
  held : List (Nat × Nat × β)
  bytes : Nat

/-- Cap on what is held back for one client awaiting its snapshot. -/
def pendingMaxBytes : Nat := 64 * 1024 * 1024

/-- Per-subscription arbitration state and the set of clients subscribed to it. -/
structure SubEntry (β : Type) where
  /-- Newest stamp seen across all sources. -/
  last : Nat
  lastSeenAt : Nat
  upstreamSubscribed : Bool
  subscribers : List Nat
  pinned : Bool
  pending : List (Pending β)
  blockLeader : Option Nat
  blockSampled : BitVec 64
  /-- How many messages of the current block have gone out. -/
  blockSent : Nat
  /-- Messages each source has delivered for the current block, by source id. -/
  blockSeen : List Nat
  /-- Sources written off after going silent mid-block. -/
  needsSnapshot : BitVec 64

/-- Bit for a source in the per-entry masks; sources 64 apart share one. -/
def sourceBit (id : Nat) : BitVec 64 := 1#64 <<< (id % 64)

namespace SubEntry

variable {β : Type}

/-- The entry `or_default` creates, at the time it creates it. -/
def new (now : Nat) : SubEntry β where
  last := 0
  lastSeenAt := now
  upstreamSubscribed := false
  subscribers := []
  pinned := false
  pending := []
  blockLeader := none
  blockSampled := 0
  blockSent := 0
  blockSeen := []
  needsSnapshot := 0

/-- Which source is carrying this subscription right now, if any. -/
def leader (e : SubEntry β) : Option Nat := e.blockLeader

/-- Whether this client is parked awaiting a snapshot of its own. -/
def isRebuilding (e : SubEntry β) (client : Nat) : Bool :=
  e.pending.any (·.client == client)

/-- Whether the source was written off: its increments are ignored until it sends a
snapshot again. -/
def writtenOff (e : SubEntry β) (id : Nat) : Bool :=
  e.needsSnapshot &&& sourceBit id != 0

/-- Grow the counters with zeros until `id` has one. -/
def resizeFor (seen : List Nat) (id : Nat) : List Nat :=
  if seen.length ≤ id then seen ++ List.replicate (id + 1 - seen.length) 0 else seen

/-- Count one more message of the current block from `id`, with that source's running
total for the block. -/
def bumpBlockCount (e : SubEntry β) (id : Nat) : SubEntry β × Nat :=
  let seen := resizeFor e.blockSeen id
  let count := (seen.getD id 0 + 1) % 2 ^ 32
  ({ e with blockSeen := seen.set id count }, count)

/-- Start a new block, with `id` having supplied its first message. -/
def openBlock (e : SubEntry β) (id : Nat) : SubEntry β :=
  ({ e with blockSeen := e.blockSeen.map fun _ => 0, blockSent := 1 }.bumpBlockCount id).1

/-- The messages of the current block `id` has delivered, zero if none are on record. -/
def seenBy (e : SubEntry β) (id : Nat) : Nat := e.blockSeen.getD id 0

/-! ### Counting positions -/

theorem length_resizeFor (seen : List Nat) (id : Nat) : id < (resizeFor seen id).length := by
  unfold resizeFor
  split
  · simp only [List.length_append, List.length_replicate]
    omega
  · omega

theorem getD_resizeFor (seen : List Nat) (id other : Nat) :
    (resizeFor seen id).getD other 0 = seen.getD other 0 := by
  unfold resizeFor
  split
  · simp only [List.getD_eq_getElem?_getD, List.getElem?_append, List.getElem?_replicate]
    by_cases inRange : other < seen.length
    · rw [if_pos inRange]
    · rw [if_neg inRange, List.getElem?_eq_none (by omega)]
      split <;> rfl
  · rfl

section Counting

variable (e : SubEntry β) (id : Nat)

@[simp] theorem bumpBlockCount_last : (e.bumpBlockCount id).1.last = e.last := rfl
@[simp] theorem bumpBlockCount_blockLeader :
    (e.bumpBlockCount id).1.blockLeader = e.blockLeader := rfl
@[simp] theorem bumpBlockCount_blockSent :
    (e.bumpBlockCount id).1.blockSent = e.blockSent := rfl
@[simp] theorem bumpBlockCount_needsSnapshot :
    (e.bumpBlockCount id).1.needsSnapshot = e.needsSnapshot := rfl

theorem bumpBlockCount_count : (e.bumpBlockCount id).2 = (e.seenBy id + 1) % 2 ^ 32 := by
  simp only [bumpBlockCount, getD_resizeFor, seenBy]

theorem seenBy_bumpBlockCount (other : Nat) :
    (e.bumpBlockCount id).1.seenBy other =
      if other = id then (e.seenBy id + 1) % 2 ^ 32 else e.seenBy other := by
  simp only [seenBy, bumpBlockCount, getD_resizeFor]
  rw [List.getD_eq_getElem?_getD, List.getElem?_set]
  by_cases same : other = id
  · subst same
    simp [length_resizeFor]
  · rw [if_neg (Ne.symm same), if_neg same, ← List.getD_eq_getElem?_getD, getD_resizeFor]

@[simp] theorem openBlock_last : (e.openBlock id).last = e.last := rfl
@[simp] theorem openBlock_blockLeader : (e.openBlock id).blockLeader = e.blockLeader := rfl
@[simp] theorem openBlock_needsSnapshot :
    (e.openBlock id).needsSnapshot = e.needsSnapshot := rfl
@[simp] theorem openBlock_blockSent : (e.openBlock id).blockSent = 1 := rfl

theorem seenBy_openBlock (other : Nat) :
    (e.openBlock id).seenBy other = if other = id then 1 else 0 := by
  have zeroed : ∀ position, (e.blockSeen.map fun _ => 0).getD position 0 = 0 := by
    intro position
    rw [List.getD_eq_getElem?_getD, List.getElem?_map]
    cases e.blockSeen[position]? <;> rfl
  rw [openBlock, seenBy_bumpBlockCount]
  simp only [seenBy, zeroed]
  rfl

end Counting

/-! ### Written-off sources -/

/-- The bit of one source is at the position of another exactly when the two share it. -/
theorem getLsbD_sourceBit (src id : Nat) :
    (sourceBit src).getLsbD (id % 64) = decide (id % 64 = src % 64) := by
  have below : id % 64 < 64 := Nat.mod_lt _ (by decide)
  rw [sourceBit, BitVec.getLsbD_shiftLeft, Bool.eq_iff_iff]
  simp only [below, decide_true, Bool.true_and, BitVec.getLsbD_one, Bool.and_eq_true,
    Bool.not_eq_true', decide_eq_false_iff_not, decide_eq_true_eq]
  omega

/-- A source is written off exactly when the bit it shares is set. -/
theorem writtenOff_eq_getLsbD (e : SubEntry β) (id : Nat) :
    e.writtenOff id = e.needsSnapshot.getLsbD (id % 64) := by
  have below : id % 64 < 64 := Nat.mod_lt _ (by decide)
  have masked : e.needsSnapshot &&& sourceBit id =
      if e.needsSnapshot.getLsbD (id % 64) then sourceBit id else 0#64 := by
    apply BitVec.eq_of_getLsbD_eq
    intro i inRange
    by_cases same : i = id % 64
    · subst same
      cases bit : e.needsSnapshot.getLsbD (id % 64) <;> simp [bit]
    · have clear : (sourceBit id).getLsbD i = false := by
        simp [sourceBit, BitVec.getLsbD_shiftLeft]
        omega
      split <;> simp [clear]
  unfold writtenOff
  rw [masked]
  cases bit : e.needsSnapshot.getLsbD (id % 64)
  · simp
  · have set : (sourceBit id).getLsbD (id % 64) = true := by
      simp [sourceBit, below]
    have nonzero : sourceBit id ≠ 0 := by
      intro zero
      rw [zero] at set
      simp at set
    simpa using nonzero

end SubEntry

end Wsarb
