import Mathlib.Data.Finset.Erase
import Mathlib.Data.Finset.Insert
import Wsarb.State.Marks
import Wsarb.State.Waiting
import Wsarb.Stream.Parking

/-!
Owns the reference the mask of written-off sources is meant to equal: an entry that keeps them as
an exact set. Owns that the mask decides as the set does while no two sources share a bit, and a
run on which it does not once two of them do.

Does not own: the delay samples, which a mask of their own charges.
-/

namespace Wsarb

open Wsarb.Library AppState

/-- An entry whose own mask stays clear, with the sources written off kept as a set. -/
structure ExactEntry where
  entry : SubEntry Message
  off : Finset Nat
  clear : entry.needsSnapshot = 0

namespace ExactEntry

variable (x : ExactEntry) (key : SubKey)

/-- The entry `or_default` creates. -/
def fresh (now : Nat) : ExactEntry := ⟨SubEntry.new now, ∅, rfl⟩

/-- The frame is one of a block from a source that is written off. -/
def Bars (message : Message) : Prop :=
  message.seq = .block message.seq.stamp ∧ message.source ∈ x.off

instance (message : Message) : Decidable (x.Bars message) :=
  inferInstanceAs (Decidable (_ ∧ _))

def Accepts (message : Message) : Prop :=
  ¬ x.Bars message ∧ x.entry.Accepts key message.source message.seq

instance (message : Message) : Decidable (x.Accepts key message) :=
  inferInstanceAs (Decidable (_ ∧ _))

/-- A frame: the arms of the code, with the set consulted, and cleared by a snapshot. -/
def hear (now : Nat) (message : Message) : ExactEntry :=
  if x.Bars message then x
  else
    { entry := (x.entry.update key now message.source message.seq message).1
      off := if message.seq.isSnapshot then x.off.erase message.source else x.off
      clear := by
        rw [SubEntry.update_needsSnapshot, x.clear]
        simp }

/-- The loss of a source: the arms of the code, with the leader of an incremental key added to
the set. -/
def lose (source : Nat) : ExactEntry where
  entry := (x.entry.loseSource source key).1.unmarked
  off :=
    if x.entry.blockLeader = some source ∧ key.isIncremental = true then insert source x.off
    else x.off
  clear := rfl

/-- One call on the entry of a key, if there is one. -/
def step (key : SubKey) (x : Option ExactEntry) : Op → Option ExactEntry
  | .onUpdate now message =>
      if message.key = key then some ((x.getD (fresh now)).hear key now message) else x
  | .resyncAfterSourceLoss source => x.map fun x => x.lose key source
  | _ => x

def forwardedBy (key : SubKey) (x : Option ExactEntry) : Op → List Message
  | .onUpdate now message =>
      if message.key = key ∧ (x.getD (fresh now)).Accepts key message then [message] else []
  | _ => []

def forwardedOver (key : SubKey) : Option ExactEntry → List Op → List Message
  | _, [] => []
  | x, op :: rest => forwardedBy key x op ++ forwardedOver key (step key x op) rest

end ExactEntry

/-- A frame or a loss, of one of the first `n` sources. -/
def Op.Arbitrates (n : Nat) : Op → Prop
  | .onUpdate _ message => message.source < n
  | .resyncAfterSourceLoss source => source < n
  | _ => False

/-- The mask and the set agree on the first `n` sources, and the entries in everything else. -/
structure Mirrors (n : Nat) (e : SubEntry Message) (x : ExactEntry) : Prop where
  rest : e.unmarked = x.entry
  off : ∀ id < n, e.writtenOff id = true ↔ id ∈ x.off

variable {n : Nat} {key : SubKey} {e : SubEntry Message} {x : ExactEntry} {message : Message}

/-! ### One call -/

theorem mirrors_fresh (now : Nat) : Mirrors n (SubEntry.new now) (ExactEntry.fresh now) where
  rest := rfl
  off := by simp [ExactEntry.fresh]

/-- Whoever is not barred is in play. -/
theorem Mirrors.inPlay (mirrors : Mirrors n e x) (known : message.source < n)
    (passes : ¬ x.Bars message) :
    ∀ h, message.seq = .block h → e.writtenOff message.source = false := by
  intro h block
  rw [← Bool.not_eq_true, mirrors.off _ known]
  intro off
  exact passes ⟨by rw [block]; rfl, off⟩

/-- The mask lets a frame through exactly when the set does. -/
theorem Mirrors.accepts_iff (mirrors : Mirrors n e x) (known : message.source < n) :
    e.Accepts key message.source message.seq ↔ x.Accepts key message := by
  rw [ExactEntry.Accepts]
  by_cases barred : x.Bars message
  · obtain ⟨block, off⟩ := barred
    have marked := (mirrors.off _ known).mpr off
    have refuses := (update_of_barred e key 0 message.source message.seq.stamp message marked).2
    rw [← block] at refuses
    exact iff_of_false refuses fun both => both.1 ⟨block, off⟩
  · rw [accepts_of_inPlay e key message.source message.seq (mirrors.inPlay known barred),
      mirrors.rest]
    exact (and_iff_right barred).symm

section Apart

variable (apart : n ≤ 64)
include apart

/-- A frame keeps the mask and the set in agreement. -/
theorem Mirrors.hear (mirrors : Mirrors n e x) (known : message.source < n) (now : Nat) :
    Mirrors n (e.update key now message.source message.seq message).1
      (x.hear key now message) := by
  rw [ExactEntry.hear]
  by_cases barred : x.Bars message
  · obtain ⟨block, off⟩ := barred
    have marked := (mirrors.off _ known).mpr off
    have kept := (update_of_barred e key now message.source message.seq.stamp message marked).1
    rw [← block] at kept
    rwa [if_pos ⟨block, off⟩, kept]
  · rw [if_neg barred]
    have same := update_of_inPlay e key now message.source message.seq
      (mirrors.inPlay known barred) message
    constructor
    · rw [same, mirrors.rest]
      apply unmarked_of_clear
      rw [SubEntry.update_needsSnapshot, x.clear]
      simp
    · intro id listed
      have shares : id % 64 = message.source % 64 ↔ id = message.source := by omega
      rw [SubEntry.writtenOff_update]
      cases snapshot : message.seq.isSnapshot with
      | false => simpa using mirrors.off id listed
      | true => simp [shares, mirrors.off id listed, and_comm]

/-- The loss of a source keeps the mask and the set in agreement. -/
theorem Mirrors.lose (mirrors : Mirrors n e x) {source : Nat} (known : source < n) :
    Mirrors n (e.loseSource source key).1 (x.lose key source) := by
  have leader : x.entry.blockLeader = e.blockLeader := by
    rw [← mirrors.rest]
    rfl
  constructor
  · show (e.loseSource source key).1.unmarked = (x.entry.loseSource source key).1.unmarked
    rw [← mirrors.rest]
    exact loseSource_unmarked e key source
  · intro id listed
    have shares : id % 64 = source % 64 ↔ id = source := by omega
    rw [SubEntry.writtenOff_loseSource, ExactEntry.lose, leader]
    have agrees := mirrors.off id listed
    split
    · next both => simp [both, shares, agrees, or_comm]
    · next neither =>
        have off : (decide (e.blockLeader = some source) && key.isIncremental) = false := by
          simpa using neither
        simp [off, agrees]

end Apart

/-! ### Runs -/

/-- The first `n` sources, nothing heard or sent yet. -/
def firstSources (n : Nat) : Live := AppState.new ((List.range n).map fun id => { id := id })

/-- On the calls of a run the mask and the set forward the same frames of the key, and leave it
with the same height and leader. -/
def Agree (n : Nat) (key : SubKey) (ops : List Op) : Prop :=
  forwardedOver key (firstSources n) ops = ExactEntry.forwardedOver key none ops ∧
    ((run step (firstSources n) ops).getEntry key).map (fun e => (e.last, e.blockLeader)) =
      (run (ExactEntry.step key) none ops).map fun x => (x.entry.last, x.entry.blockLeader)

/-- The code's entry of a key and the reference's: both there and in agreement, or neither. -/
def Tallies (n : Nat) (key : SubKey) (st : Live) (x : Option ExactEntry) : Prop :=
  Option.Rel (Mirrors n) (st.getEntry key) x

variable {st : Live} {y : Option ExactEntry} {op : Op}

/-- The entry used is the one there is, or the one made for the occasion. -/
theorem Tallies.used (tallies : Tallies n key st y) (now : Nat) :
    Mirrors n (st.entryOr now key) (y.getD (ExactEntry.fresh now)) := by
  unfold Tallies at tallies
  rw [entryOr]
  generalize st.getEntry key = before at tallies
  cases tallies with
  | none => exact mirrors_fresh now
  | some mirrors => exact mirrors

/-- One call forwards the same and keeps the agreement. -/
theorem Tallies.step (apart : n ≤ 64) (tallies : Tallies n key st y) (known : op.Arbitrates n) :
    st.forwardedBy key op = ExactEntry.forwardedBy key y op ∧
      Tallies n key (st.step op) (ExactEntry.step key y op) := by
  rw [Tallies, getEntry_step]
  cases op with
  | onUpdate now message =>
      have used := tallies.used now
      rw [forwardedBy, ExactEntry.forwardedBy, entryAfter, ExactEntry.step]
      by_cases routed : message.key = key
      · simp only [routed, true_and, if_true, used.accepts_iff known]
        exact Option.Rel.some (used.hear apart known now)
      · simp only [routed, false_and, if_false, true_and]
        exact tallies
  | resyncAfterSourceLoss source =>
      refine ⟨rfl, ?_⟩
      rw [entryAfter, ExactEntry.step]
      unfold Tallies at tallies
      generalize st.getEntry key = before at tallies ⊢
      cases tallies with
      | none => exact Option.Rel.none
      | some mirrors => exact Option.Rel.some (mirrors.lose apart known)
  | _ => exact absurd known not_false

/-- A run forwards the same and keeps the agreement. -/
theorem Tallies.run (apart : n ≤ 64) (tallies : Tallies n key st y) {ops : List Op}
    (known : ∀ op ∈ ops, op.Arbitrates n) :
    forwardedOver key st ops = ExactEntry.forwardedOver key y ops ∧
      Tallies n key (run AppState.step st ops) (Library.run (ExactEntry.step key) y ops) := by
  induction ops generalizing st y with
  | nil => exact ⟨rfl, tallies⟩
  | cons op rest inductionHypothesis =>
      obtain ⟨same, next⟩ := tallies.step apart (known op List.mem_cons_self)
      obtain ⟨later, last⟩ := inductionHypothesis next
        fun op member => known op (List.mem_cons_of_mem _ member)
      refine ⟨?_, last⟩
      rw [forwardedOver, ExactEntry.forwardedOver, same, later]

theorem Tallies.agree (tallies : Tallies n key st y) :
    (st.getEntry key).map (fun e => (e.last, e.blockLeader)) =
      y.map fun x => (x.entry.last, x.entry.blockLeader) := by
  unfold Tallies at tallies
  generalize st.getEntry key = before at tallies ⊢
  cases tallies with
  | none => rfl
  | some mirrors =>
      rw [Option.map_some, Option.map_some, ← mirrors.rest]
      rfl

/-! ### Beyond one source a bit -/

/-- Which operations come is all that the entries depend on. -/
theorem forwardedOver_congr (st other : Live) (same : ∀ key, st.getEntry key = other.getEntry key)
    {ops : List Op} (known : ∀ op ∈ ops, op.Arbitrates n) :
    forwardedOver key st ops = forwardedOver key other ops := by
  induction ops generalizing st other with
  | nil => rfl
  | cons op rest inductionHypothesis =>
      have entryOr (now : Nat) (key : SubKey) : st.entryOr now key = other.entryOr now key := by
        rw [AppState.entryOr, same, AppState.entryOr]
      have next (key : SubKey) : (st.step op).getEntry key = (other.step op).getEntry key := by
        rw [getEntry_step, getEntry_step]
        cases op with
        | onUpdate now message => simp only [entryAfter, entryOr, same]
        | resyncAfterSourceLoss source => simp only [entryAfter, same]
        | _ => exact absurd (known _ List.mem_cons_self) not_false
      have now_ : st.forwardedBy key op = other.forwardedBy key op := by
        cases op with
        | onUpdate now message => simp only [forwardedBy, entryOr]
        | _ => rfl
      rw [forwardedOver, forwardedOver, now_,
        inductionHypothesis _ _ next fun op member => known op (List.mem_cons_of_mem _ member)]

/-- Source 0 leads a block and is lost; source 64, which shares its bit, supplies the next. -/
def sharedBit : List Op :=
  [.onUpdate 0 (.l4Block 0 "BTC" 7 "a7"), .resyncAfterSourceLoss 0,
    .onUpdate 1 (.l4Block 64 "BTC" 8 "b8")]

/-- Source 64 is ignored on account of source 0. -/
theorem sharedBit_disagrees (n : Nat) (beyond : 64 < n) : ¬ Agree n (.l4Book "BTC") sharedBit := by
  intro agree
  have known : ∀ op ∈ sharedBit, op.Arbitrates n := by
    simp [sharedBit, Op.Arbitrates, Message.l4Block]
    omega
  have same := agree.1
  rw [forwardedOver_congr (firstSources n) (AppState.new []) (fun _ => rfl) known] at same
  exact absurd same (by decide)

/-- With `n` sources the mask decides as an exact set of sources does, on every key and for every
sequence of frames and losses, if and only if no two of them share a bit. -/
theorem masks_agree_iff (n : Nat) :
    (∀ (key : SubKey) (ops : List Op), (∀ op ∈ ops, op.Arbitrates n) → Agree n key ops) ↔
      n ≤ 64 := by
  constructor
  · intro always
    by_contra beyond
    have known : ∀ op ∈ sharedBit, op.Arbitrates n := by
      simp [sharedBit, Op.Arbitrates, Message.l4Block]
      omega
    exact sharedBit_disagrees n (Nat.not_le.mp beyond) (always _ _ known)
  · intro apart key ops known
    have start : Tallies n key (firstSources n) none := Option.Rel.none
    obtain ⟨same, tallies⟩ := start.run apart known
    exact ⟨same, tallies.agree⟩

/-- Sixty-five sources are too many. -/
theorem not_masks_agree :
    ¬ ∀ (n : Nat) (key : SubKey) (ops : List Op), (∀ op ∈ ops, op.Arbitrates n) →
      Agree n key ops := by
  intro always
  refine sharedBit_disagrees 65 (by decide) (always 65 _ _ ?_)
  simp [sharedBit, Op.Arbitrates, Message.l4Block]

end Wsarb
