import Wsarb.Library.Run
import Wsarb.Race.Counters
import Wsarb.State.Transitions

/-!
Owns how an attached client stays attached: which operations can take it off its key's
subscribers, and that no other does. Owns what a led `l2Diff` entry accepts, and from whom.
-/

namespace Wsarb

open Wsarb.Library AppState

/-- The operation leaves the client attached to the key, whose entry is `e`. -/
def Remains (key : SubKey) (client : Nat) (e : SubEntry Message) : Op → Prop
  | .unsubscribe who left => left = key → who ≠ client
  | .cleanupClient who => who ≠ client
  | .resyncAfterSourceLoss source => e.blockLeader ≠ some source
  | _ => True

def AppState.attached (st : Live) (key : SubKey) (client : Nat) : Bool :=
  (st.getEntry key).any fun e => decide (client ∈ e.subscribers)

variable {st : Live} {key : SubKey} {e : SubEntry Message} {client : Nat}

theorem attached_iff : st.attached key client = true ↔
    ∃ e, st.getEntry key = some e ∧ client ∈ e.subscribers := by
  simp [attached, Option.any_eq_true]

theorem detached_of_mem {who : Nat} (other : who ≠ client) (member : client ∈ e.subscribers) :
    detached who (some e) = some (without e who) := by
  have listed : client ∈ (without e who).subscribers := by
    simp [without, member, Ne.symm other]
  have nonempty : (without e who).subscribers ≠ [] := List.ne_nil_of_mem listed
  have stays : leave e who = (without e who, false) := by
    rw [leave, if_neg]
    simp [abandoned, nonempty]
  simp [detached, stays]

/-- A client that remains is on the subscribers of the entry the operation leaves. -/
theorem stays (found : st.getEntry key = some e) (member : client ∈ e.subscribers) {op : Op}
    (remains : Remains key client e op) :
    ∃ after, (st.step op).getEntry key = some after ∧ client ∈ after.subscribers := by
  rw [getEntry_step]
  cases op with
  | subscribe now who subscribed =>
      rw [entryAfter, entryOr_of_some found]
      split
      · exact ⟨_, rfl, (mem_attach_subscribers _ _ _).mpr (Or.inl member)⟩
      · exact ⟨e, found, member⟩
  | pin now pinned =>
      rw [entryAfter, entryOr_of_some found]
      split
      · exact ⟨_, rfl, member⟩
      · exact ⟨e, found, member⟩
  | unsubscribe who left =>
      rw [entryAfter, found]
      split
      · next leaves =>
          refine ⟨without e who, detached_of_mem (remains leaves.1) member, ?_⟩
          simp [without, member, Ne.symm (remains leaves.1)]
      · exact ⟨e, rfl, member⟩
  | onUpdate now message =>
      rw [entryAfter, entryOr_of_some found]
      split
      · exact ⟨_, rfl, by rwa [SubEntry.update_subscribers]⟩
      · exact ⟨e, found, member⟩
  | deliverSnapshot who fetched =>
      rw [entryAfter, found]
      split
      · exact ⟨_, rfl, (mem_rebuild_subscribers _ _ _ _ _ _).mpr (Or.inl member)⟩
      · exact ⟨e, rfl, member⟩
  | failPending failed who =>
      rw [entryAfter, found]
      split
      · exact ⟨_, rfl, member⟩
      · exact ⟨e, rfl, member⟩
  | resyncAfterSourceLoss source =>
      rw [entryAfter, found]
      refine ⟨(e.loseSource source key).1, rfl, ?_⟩
      rwa [loseSource_of_other _ _ _ remains]
  | cleanupClient who =>
      rw [entryAfter, found]
      split
      · refine ⟨without e who, detached_of_mem remains member, ?_⟩
        simp [without, member, Ne.symm remains]
      · exact ⟨e, rfl, member⟩
  | registerClient ip => exact ⟨e, found, member⟩
  | receive who => exact ⟨e, found, member⟩
  | close who => exact ⟨e, found, member⟩

section Led

variable (single : key.singleSourced = true) {message : Message} (routed : message.key = key)

include single routed in
/-- On such a key only snapshots and sticky increments are forwarded. -/
theorem seq_cases : message.seq.isSnapshot = true ∨ ∃ v, message.seq = .sticky v := by
  have admitted := message.admitted
  rw [routed] at admitted
  cases key <;> cases seq : message.seq <;>
    simp_all [SubKey.singleSourced, SubKey.admits, Seq.isSnapshot]

include single routed in
theorem seq_ne_point (v : Nat) : message.seq ≠ .point v := by
  intro point
  rcases seq_cases single routed with snapshot | ⟨v, sticky⟩
  · rw [point] at snapshot
    cases snapshot
  · rw [point] at sticky
    cases sticky

include single routed in
/-- On such a key a led entry accepts from its leader alone. -/
theorem leads_of_accepts (accepts : e.Accepts key message.source message.seq) {leader : Nat}
    (leads : e.blockLeader = some leader) : leader = message.source := by
  have own : e.blockLeader = none ∨ e.blockLeader = some message.source := by
    rcases seq_cases single routed with snapshot | ⟨v, sticky⟩
    · cases seq : message.seq <;> simp_all [Seq.isSnapshot, SubEntry.Accepts]
    · rw [sticky] at accepts
      exact accepts.imp_right And.left
  rcases own with free | same
  · rw [free] at leads
    cases leads
  · exact Option.some.inj (leads.symm.trans same)

end Led

/-! ### Raced incremental keys -/

section Raced

variable (incremental : key.isIncremental = true) (raced : key.singleSourced = false)
  {message : Message} (routed : message.key = key)

include incremental raced routed in
/-- On such a key only snapshots and block messages are forwarded. -/
theorem raced_seq_cases : (∃ h, message.seq = .snapshot h) ∨ ∃ h, message.seq = .block h := by
  have admitted := message.admitted
  rw [routed] at admitted
  cases key <;> cases seq : message.seq <;>
    simp_all [SubKey.isIncremental, SubKey.singleSourced, SubKey.admits]

include incremental raced routed in
/-- A refused frame leaves the count of what has gone out. -/
theorem update_blockSent_of_refused (now : Nat)
    (refuses : ¬ e.Accepts key message.source message.seq) :
    (e.update key now message.source message.seq message).1.blockSent = e.blockSent := by
  show (e.update key now message.source message.seq message).1.counters.sent = e.counters.sent
  rcases raced_seq_cases incremental raced routed with ⟨h, seq⟩ | ⟨h, seq⟩
  · rw [seq] at refuses ⊢
    rw [SubEntry.update_counters_snapshot _ _ _ _ _ _ raced, Counters.snapshot_of_not_above]
    · rfl
    · exact mt (SubEntry.accepts_snapshot_iff e message.source h raced).mpr refuses
  · rw [seq] at refuses ⊢
    rw [SubEntry.update_counters_block, Counters.block_sent_of_refused]
    exact mt (SubEntry.accepts_block_iff e key message.source h).mpr refuses

end Raced

end Wsarb
