import Wsarb.Race.Counters
import Wsarb.State.Transitions

/-!
Owns who is written off on an entry, operation by operation: the loss of the leader of an
incremental key marks the source lost, a snapshot clears the mark of the source it comes from,
and nothing else touches a mark. Sources whose ids agree modulo 64 share one. Owns that the
arbitration looks at a mask for nothing but the blocks of the source in question.
-/

namespace Wsarb

open Wsarb.Library

namespace SubEntry

variable {β : Type}

def unmarked (e : SubEntry β) : SubEntry β := { e with needsSnapshot := 0 }

variable (e : SubEntry β) (key : SubKey) (src id : Nat)

/-- Setting a bit writes off exactly the sources that share it. -/
theorem writtenOff_marked :
    writtenOff { e with needsSnapshot := e.needsSnapshot ||| sourceBit src } id =
      (e.writtenOff id || decide (id % 64 = src % 64)) := by
  rw [writtenOff_eq_getLsbD, writtenOff_eq_getLsbD, BitVec.getLsbD_or,
    getLsbD_sourceBit]

/-- Whether a source is written off is read off the mask alone. -/
theorem writtenOff_congr {other : SubEntry β} (same : other.needsSnapshot = e.needsSnapshot) :
    other.writtenOff id = e.writtenOff id := by
  rw [writtenOff, same, writtenOff]

@[simp] theorem writtenOff_new (now : Nat) :
    (SubEntry.new now : SubEntry β).writtenOff id = false := by
  rw [writtenOff_eq_getLsbD]
  exact BitVec.getLsbD_zero

/-- A frame leaves the mask, but for a snapshot, which clears its own source's bit. -/
theorem arbitrate_needsSnapshot (now : Nat) (seq : Seq) :
    (e.arbitrate key now src seq).1.needsSnapshot =
      if seq.isSnapshot then e.needsSnapshot &&& ~~~ sourceBit src else e.needsSnapshot := by
  cases seq with
  | point v =>
      simp only [arbitrate, arbitratePoint, Seq.isSnapshot]
      split_ifs <;> simp_all
  | lead v =>
      simp only [arbitrate, arbitrateLead, Seq.isSnapshot]
      split_ifs <;> simp_all
  | sticky v =>
      simp only [arbitrate, arbitrateSticky, Seq.isSnapshot]
      split
      · simp
      · split_ifs <;> simp_all
  | snapshot h =>
      simp only [arbitrate, arbitrateSnapshot, Seq.isSnapshot]
      split <;> simp
  | block h =>
      simp only [arbitrate, arbitrateBlock, Seq.isSnapshot]
      split_ifs <;> simp_all

theorem update_needsSnapshot [Payload β] (now : Nat) (seq : Seq) (payload : β) :
    (e.update key now src seq payload).1.needsSnapshot =
      if seq.isSnapshot then e.needsSnapshot &&& ~~~ sourceBit src else e.needsSnapshot := by
  rw [update_entry, ← arbitrate_needsSnapshot e key src now seq]
  split <;> rfl

/-- Who is written off after a frame. -/
theorem writtenOff_update [Payload β] (now : Nat) (seq : Seq) (payload : β) :
    (e.update key now src seq payload).1.writtenOff id =
      (e.writtenOff id && !(seq.isSnapshot && decide (id % 64 = src % 64))) := by
  have mask := update_needsSnapshot e key src now seq payload
  cases snapshot : seq.isSnapshot with
  | false =>
      rw [snapshot, if_neg Bool.false_ne_true] at mask
      rw [writtenOff_congr e id mask, Bool.false_and, Bool.not_false, Bool.and_true]
  | true =>
      rw [snapshot, if_pos rfl] at mask
      have pardoned := writtenOff_pardoned e src id
      rw [writtenOff_congr { e with needsSnapshot := e.needsSnapshot &&& ~~~ sourceBit src } id
        mask, pardoned, Bool.true_and, ← decide_not]

/-- Who is written off after the loss of a source. -/
theorem writtenOff_loseSource :
    (e.loseSource src key).1.writtenOff id =
      (e.writtenOff id || (decide (e.blockLeader = some src) && key.isIncremental &&
        decide (id % 64 = src % 64))) := by
  by_cases leads : e.blockLeader = some src
  · cases incremental : key.isIncremental with
    | false =>
        have kept : (e.loseSource src key).1.needsSnapshot = e.needsSnapshot := by
          unfold loseSource
          split_ifs <;> first | rfl | simp_all
        rw [writtenOff_congr e id kept, Bool.and_false, Bool.false_and, Bool.or_false]
    | true =>
        have mask : (e.loseSource src key).1.needsSnapshot =
            e.needsSnapshot ||| sourceBit src := by
          rw [loseSource_of_leads e key src leads incremental]
        rw [writtenOff_congr { e with needsSnapshot := e.needsSnapshot ||| sourceBit src } id mask,
          writtenOff_marked]
        simp [leads]
  · rw [loseSource_of_other e key src leads]
    simp [leads]

end SubEntry

/-! ### The mask and the arms -/

@[simp] theorem SubEntry.unmarked_last {β : Type} (e : SubEntry β) : e.unmarked.last = e.last :=
  rfl

@[simp] theorem SubEntry.unmarked_blockLeader {β : Type} (e : SubEntry β) :
    e.unmarked.blockLeader = e.blockLeader := rfl

@[simp] theorem SubEntry.unmarked_blockSampled {β : Type} (e : SubEntry β) :
    e.unmarked.blockSampled = e.blockSampled := rfl

theorem SubEntry.bumpBlockCount_blockSampled {β : Type} (e : SubEntry β) (id : Nat) :
    (e.bumpBlockCount id).1.blockSampled = e.blockSampled := rfl

@[simp] theorem SubEntry.writtenOff_unmarked {β : Type} (e : SubEntry β) (id : Nat) :
    e.unmarked.writtenOff id = false := by
  rw [SubEntry.writtenOff_eq_getLsbD]
  exact BitVec.getLsbD_zero

section InPlay

variable {β : Type} (e : SubEntry β) (key : SubKey) (now src : Nat) (seq : Seq)
  (inPlay : ∀ h, seq = .block h → e.writtenOff src = false)
include inPlay

/-- Where the source is in play the arms do not look at the mask. -/
theorem accepts_of_inPlay : e.Accepts key src seq ↔ e.unmarked.Accepts key src seq := by
  cases seq with
  | block h =>
      simp only [SubEntry.Accepts, inPlay h rfl, e.writtenOff_unmarked]
      rfl
  | _ => exact Iff.rfl

theorem arbitrate_of_inPlay :
    (e.arbitrate key now src seq).1.unmarked =
      (e.unmarked.arbitrate key now src seq).1.unmarked := by
  cases seq with
  | point v =>
      by_cases newer : e.last < v
      · simp only [SubEntry.arbitrate, SubEntry.arbitratePoint, SubEntry.unmarked_last, newer,
          if_true]
        rfl
      · by_cases same : v = e.last <;>
          simp only [SubEntry.arbitrate, SubEntry.arbitratePoint, SubEntry.unmarked_last, newer,
            same, Nat.lt_irrefl, if_true, if_false] <;> rfl
  | lead v =>
      by_cases newer : e.last < v
      · simp only [SubEntry.arbitrate, SubEntry.arbitrateLead, SubEntry.unmarked_last, newer,
          if_true]
        rfl
      · by_cases same : v = e.last
        · by_cases leads : e.blockLeader = some src <;>
            simp only [SubEntry.arbitrate, SubEntry.arbitrateLead, SubEntry.unmarked_last,
              SubEntry.unmarked_blockLeader, same, leads, Nat.lt_irrefl, if_true, if_false] <;> rfl
        · simp only [SubEntry.arbitrate, SubEntry.arbitrateLead, SubEntry.unmarked_last, newer,
            same, if_false]
          rfl
  | sticky v =>
      cases led : e.blockLeader with
      | none =>
          simp only [SubEntry.arbitrate, SubEntry.arbitrateSticky, SubEntry.unmarked_blockLeader,
            led]
          rfl
      | some id =>
          by_cases leads : id = src
          · by_cases fresh : e.last ≤ v <;>
              simp only [SubEntry.arbitrate, SubEntry.arbitrateSticky, SubEntry.unmarked_last,
                SubEntry.unmarked_blockLeader, led, leads, fresh, if_true, if_false] <;> rfl
          · simp only [SubEntry.arbitrate, SubEntry.arbitrateSticky,
              SubEntry.unmarked_blockLeader, led, leads, if_false]
            rfl
  | snapshot h =>
      have accepts : e.Accepts key src (.snapshot h) ↔
          e.unmarked.Accepts key src (.snapshot h) := Iff.rfl
      simp only [SubEntry.arbitrate]
      by_cases goesOut : e.Accepts key src (.snapshot h)
      · rw [SubEntry.arbitrateSnapshot_of_accepts e key now src goesOut,
          SubEntry.arbitrateSnapshot_of_accepts _ key now src (accepts.mp goesOut)]
        rfl
      · rw [SubEntry.arbitrateSnapshot_of_not_accepts e key now src goesOut,
          SubEntry.arbitrateSnapshot_of_not_accepts _ key now src (mt accepts.mpr goesOut)]
        rfl
  | block h =>
      have clear := e.writtenOff_unmarked src
      have inPlay := inPlay h rfl
      simp only [SubEntry.arbitrate]
      rcases Nat.lt_trichotomy e.last h with newer | same | older
      · rw [SubEntry.arbitrateBlock_opens e now src inPlay newer,
          SubEntry.arbitrateBlock_opens _ now src clear newer]
        rfl
      · by_cases ahead : e.blockSent < (e.seenBy src + 1) % 2 ^ 32
        · rw [SubEntry.arbitrateBlock_continues e now src inPlay same.symm ahead,
            SubEntry.arbitrateBlock_continues _ now src clear same.symm ahead]
          rfl
        · have behind : ¬ e.unmarked.blockSent < (e.unmarked.seenBy src + 1) % 2 ^ 32 := ahead
          by_cases sampled : e.blockSampled &&& sourceBit src = 0 <;>
            simp only [SubEntry.arbitrateBlock, inPlay, clear, Bool.false_eq_true, if_false,
              SubEntry.unmarked_last, same, Nat.lt_irrefl, if_true,
              SubEntry.bumpBlockCount_count, SubEntry.bumpBlockCount_blockSent, ahead, behind,
              SubEntry.bumpBlockCount_blockSampled, SubEntry.unmarked_blockSampled, sampled] <;> rfl
      · rw [SubEntry.arbitrateBlock_stale e now src (Or.inr older),
          SubEntry.arbitrateBlock_stale e.unmarked now src (Or.inr older)]
        rfl

theorem update_of_inPlay [Payload β] (payload : β) :
    (e.update key now src seq payload).1.unmarked =
      (e.unmarked.update key now src seq payload).1.unmarked := by
  have same := arbitrate_of_inPlay e key now src seq inPlay
  have accepts := accepts_of_inPlay e key src seq inPlay
  rw [SubEntry.update_entry, SubEntry.update_entry]
  by_cases goesOut : e.Accepts key src seq
  · rw [if_pos goesOut, if_pos (accepts.mp goesOut)]
    show ({ (e.arbitrate key now src seq).1.unmarked with
          pending := e.pendingAfter src seq payload } : SubEntry β) =
      { (e.unmarked.arbitrate key now src seq).1.unmarked with
        pending := e.pendingAfter src seq payload }
    rw [same]
  · rw [if_neg goesOut, if_neg (mt accepts.mpr goesOut)]
    exact same

end InPlay

/-- A frame barred by the mask leaves the entry as it was. -/
theorem update_of_barred {β : Type} [Payload β] (e : SubEntry β) (key : SubKey)
    (now src h : Nat) (payload : β) (off : e.writtenOff src = true) :
    (e.update key now src (.block h) payload).1 = e ∧ ¬ e.Accepts key src (.block h) := by
  have refuses : ¬ e.Accepts key src (.block h) := by
    intro accepts
    rw [accepts.1] at off
    cases off
  rw [SubEntry.update_entry, if_neg refuses, SubEntry.arbitrate,
    SubEntry.arbitrateBlock_stale e now src (Or.inl off)]
  exact ⟨rfl, refuses⟩

/-- How a frame is treated depends on the mark of its own source, and on no other. -/
theorem update_alike {β : Type} [Payload β] {e other : SubEntry β} {src : Nat}
    (rest : e.unmarked = other.unmarked) (mark : e.writtenOff src = other.writtenOff src)
    (key : SubKey) (now : Nat) (seq : Seq) (payload : β) :
    (e.Accepts key src seq ↔ other.Accepts key src seq) ∧
      (e.update key now src seq payload).1.unmarked =
        (other.update key now src seq payload).1.unmarked := by
  by_cases inPlay : ∀ h, seq = .block h → e.writtenOff src = false
  · have inPlay' : ∀ h, seq = .block h → other.writtenOff src = false :=
      fun h block => mark ▸ inPlay h block
    rw [accepts_of_inPlay e key src seq inPlay, accepts_of_inPlay other key src seq inPlay',
      update_of_inPlay e key now src seq inPlay, update_of_inPlay other key now src seq inPlay',
      rest]
    exact ⟨Iff.rfl, rfl⟩
  · simp only [not_forall, Bool.not_eq_false] at inPlay
    obtain ⟨h, rfl, off⟩ := inPlay
    obtain ⟨kept, refuses⟩ := update_of_barred e key now src h payload off
    obtain ⟨kept', refuses'⟩ := update_of_barred other key now src h payload (mark ▸ off)
    rw [kept, kept']
    exact ⟨iff_of_false refuses refuses', rest⟩

theorem unmarked_of_clear {β : Type} {e : SubEntry β} (clear : e.needsSnapshot = 0) :
    e.unmarked = e := by
  rw [SubEntry.unmarked, ← clear]

/-- The loss of a source does not look at the mask. -/
theorem loseSource_unmarked {β : Type} (e : SubEntry β) (key : SubKey) (source : Nat) :
    (e.loseSource source key).1.unmarked = (e.unmarked.loseSource source key).1.unmarked := by
  by_cases leads : e.blockLeader = some source
  · cases incremental : key.isIncremental with
    | true =>
        rw [loseSource_of_leads e key source leads incremental,
          loseSource_of_leads e.unmarked key source leads incremental]
        rfl
    | false =>
        cases single : key.singleSourced with
        | true =>
            rw [loseSource_of_leads_whole e key source leads incremental single,
              loseSource_of_leads_whole e.unmarked key source leads incremental single]
            rfl
        | false =>
            rw [loseSource_of_raced e key source incremental single,
              loseSource_of_raced e.unmarked key source incremental single]
            rfl
  · rw [loseSource_of_other e key source leads, loseSource_of_other e.unmarked key source leads]
    rfl

end Wsarb
