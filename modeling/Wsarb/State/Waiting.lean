import Wsarb.State.Roster

/-!
Owns what one operation can make of the clients parked on a key, as a list of cases: a parked
client stays as it was, has one more frame piled up behind it, or is parked just now, by its
own subscription or by the loss of the source that led.

Does not own: what the frames held behind a client add up to.
-/

namespace Wsarb

open Wsarb.Library

namespace AppState

def parked (st : Live) (key : SubKey) (client : Nat) : Bool :=
  (st.getEntry key).any (·.isRebuilding client)

/-- The frame of the key an operation forwards, if it forwards one. -/
def forwardedBy (st : Live) (key : SubKey) : Op → List Message
  | .onUpdate now message =>
      if message.key = key ∧ (st.entryOr now key).Accepts key message.source message.seq then
        [message]
      else []
  | _ => []

variable {st : Live} {key : SubKey} {op : Op} {e : SubEntry Message} {p : Pending Message}
  {client : Nat}

theorem parked_of_mem (found : st.getEntry key = some e) (member : p ∈ e.pending) :
    st.parked key p.client = true := by
  rw [parked, found, Option.any_some, SubEntry.isRebuilding, List.any_eq_true]
  exact ⟨p, member, beq_self_eq_true _⟩

theorem parked_iff : st.parked key client = true ↔
    ∃ e, st.getEntry key = some e ∧ ∃ p ∈ e.pending, p.client = client := by
  simp [parked, Option.any_eq_true, SubEntry.isRebuilding]

/-- A client attached to the key is not parked on it. -/
theorem Seated.not_parked_of_attached (seated : st.Seated) (found : st.getEntry key = some e)
    (attached : client ∈ e.subscribers) : st.parked key client = false := by
  rw [parked, found, Option.any_some, seated.attached_alone found attached]

theorem forwardedBy_onUpdate_iff {now : Nat} {message : Message} :
    st.forwardedBy key (.onUpdate now message) = [message] ↔
      message.key = key ∧ (st.entryOr now key).Accepts key message.source message.seq := by
  simp [forwardedBy]

theorem forwardedBy_of_apart (apart : op.carries ≠ some key) : st.forwardedBy key op = [] := by
  cases op with
  | onUpdate now message => exact if_neg fun both => apart (congrArg some both.1)
  | _ => rfl

/-- The ways an operation can leave the key with `p` waiting on it. -/
inductive Waits (st : Live) (key : SubKey) : Op → Pending Message → Prop
  | stayed {op : Op} {e : SubEntry Message} {p : Pending Message}
      (before : st.getEntry key = some e) (member : p ∈ e.pending)
      (silent : st.forwardedBy key op = [] ∨ key.isIncremental = false) : Waits st key op p
  | piled {now : Nat} {message : Message} {e : SubEntry Message} {p : Pending Message}
      (before : st.getEntry key = some e) (member : p ∈ e.pending)
      (goesOut : st.forwardedBy key (.onUpdate now message) = [message])
      (fits : p.bytes + Payload.len message ≤ pendingMaxBytes) :
      Waits st key (.onUpdate now message) (p.pile message.source message.seq.stamp message)
  | joined {now client : Nat} (incremental : key.isIncremental = true)
      (absent : key ∉ st.subscriptions client)
      (live : (st.entryOr now key).upstreamSubscribed = true)
      (alone : st.parked key client = false) :
      Waits st key (.subscribe now client key) { client := client, held := [], bytes := 0 }
  | orphaned {source client : Nat} {e : SubEntry Message} (before : st.getEntry key = some e)
      (incremental : key.isIncremental = true) (leads : e.blockLeader = some source)
      (member : client ∈ e.subscribers) :
      Waits st key (.resyncAfterSourceLoss source) { client := client, held := [], bytes := 0 }

/-- A fresh entry has nobody waiting, so whoever waits on the entry used waits already. -/
theorem entry_of_mem_used (now : Nat) (member : p ∈ (st.entryOr now key).pending) :
    ∃ e, st.getEntry key = some e ∧ st.entryOr now key = e ∧ p ∈ e.pending := by
  cases found : st.getEntry key with
  | none =>
      rw [entryOr_of_none found] at member
      exact absurd member List.not_mem_nil
  | some e =>
      rw [entryOr_of_some found] at member
      exact ⟨e, rfl, entryOr_of_some found now, member⟩

theorem parked_of_rebuilding {now : Nat} :
    (st.entryOr now key).isRebuilding client = st.parked key client := by
  rw [parked, entryOr]
  cases st.getEntry key <;> rfl

/-- A client waiting after an operation came to wait in one of the ways listed. -/
theorem waits (found : (st.step op).getEntry key = some e) (member : p ∈ e.pending) :
    Waits st key op p := by
  cases becomes found with
  | kept before apart => exact .stayed before member (Or.inl (forwardedBy_of_apart apart))
  | @subscribed now client absent =>
      rcases (mem_attach_pending _ _ _).mp member with old | ⟨live, incremental, alone, rfl⟩
      · obtain ⟨e, before, -, listed⟩ := entry_of_mem_used now old
        exact .stayed before listed (Or.inl rfl)
      · rw [parked_of_rebuilding] at alone
        exact .joined incremental absent live alone
  | @pinned now =>
      obtain ⟨e, before, -, listed⟩ := entry_of_mem_used now member
      exact .stayed before listed (Or.inl rfl)
  | left before leaves stays =>
      have silent : st.forwardedBy key op = [] := by rcases leaves with rfl | rfl <;> rfl
      exact .stayed before (List.mem_of_mem_filter member) (Or.inl silent)
  | @heard now message routed =>
      rw [SubEntry.update_pending] at member
      split at member
      · next accepts =>
          have goesOut : st.forwardedBy key (.onUpdate now message) = [message] :=
            forwardedBy_onUpdate_iff.mpr ⟨routed, accepts⟩
          unfold SubEntry.pendingAfter at member
          cases height : message.seq.heldHeight with
          | none =>
              rw [height] at member
              obtain ⟨e, before, -, listed⟩ := entry_of_mem_used now member
              refine .stayed before listed (Or.inr ?_)
              by_contra incremental
              rw [Bool.not_eq_false] at incremental
              rw [heldHeight_of_incremental incremental routed] at height
              cases height
          | some h =>
              obtain rfl := Seq.stamp_of_heldHeight height
              rw [height] at member
              obtain ⟨piled, fits⟩ := List.mem_filter.mp member
              obtain ⟨old, listed, rfl⟩ := List.mem_map.mp piled
              obtain ⟨e, before, -, listed⟩ := entry_of_mem_used now listed
              exact .piled before listed goesOut (of_decide_eq_true fits)
      · next refuses =>
          obtain ⟨e, before, -, listed⟩ := entry_of_mem_used now member
          exact .stayed before listed (Or.inl (if_neg fun both => refuses both.2))
  | rebuilt before routed =>
      exact .stayed before (mem_of_mem_rebuild_pending _ _ _ _ _ _ member) (Or.inl rfl)
  | gaveUp before => exact .stayed before (List.mem_of_mem_eraseP member) (Or.inl rfl)
  | @lost source before entry =>
      by_cases leads : before.blockLeader = some source
      · cases incremental : key.isIncremental with
        | true =>
            rw [loseSource_of_leads _ _ _ leads incremental] at member
            rcases List.mem_append.mp member with old | fresh
            · exact .stayed entry old (Or.inl rfl)
            · obtain ⟨client, attached, rfl⟩ := List.mem_map.mp fresh
              exact .orphaned entry incremental leads attached
        | false =>
            have same : (before.loseSource source key).1.pending = before.pending := by
              unfold SubEntry.loseSource
              split_ifs <;> first | rfl | simp_all
            exact .stayed entry (same ▸ member) (Or.inl rfl)
      · rw [loseSource_of_other _ _ _ leads] at member
        exact .stayed entry member (Or.inl rfl)

/-! ### What ends a wait -/

/-- A snapshot delivered to a client takes it off the parked. -/
theorem Seated.not_parked_deliverSnapshot (seated : st.Seated) (client : Nat)
    (fetched : Fetched) :
    (st.step (.deliverSnapshot client fetched)).parked fetched.key client = false := by
  have after : (st.step (.deliverSnapshot client fetched)).Seated :=
    seated_step seated (.deliverSnapshot client fetched) trivial
  rw [parked, getEntry_step, entryAfter, if_pos rfl]
  cases found : st.getEntry fetched.key with
  | none => rfl
  | some e =>
      rw [Option.map_some, Option.any_some]
      have entry : (st.step (.deliverSnapshot client fetched)).getEntry fetched.key =
          some (e.rebuild fetched.key client fetched.source fetched.height fetched.message).1 := by
        rw [getEntry_step, entryAfter, if_pos rfl, found]
        rfl
      cases waits : e.isRebuilding client with
      | true =>
          apply after.attached_alone entry
          exact (mem_rebuild_subscribers _ _ _ _ _ _).mpr (Or.inr ⟨rfl, waits⟩)
      | false =>
          rw [rebuild_of_absent _ _ _ _ _ _ waits]
          exact waits

/-- A client given up is parked no more. -/
theorem Seated.not_parked_failPending (seated : st.Seated) (client : Nat) (key : SubKey) :
    (st.step (.failPending key client)).parked key client = false := by
  rw [parked, getEntry_step, entryAfter, if_pos rfl]
  cases found : st.getEntry key with
  | none => rfl
  | some e => exact SubEntry.givenUp_alone e client (seated.once key e found)

/-- A client waits on a key once. -/
theorem Seated.waits_once (seated : st.Seated) (found : st.getEntry key = some e)
    {other : Pending Message} (member : p ∈ e.pending) (member' : other ∈ e.pending)
    (same : p.client = other.client) : p = other := by
  have parked : (e.pending.map (·.client)).Nodup :=
    (List.nodup_append.mp (seated.once key e found)).2.1
  exact List.inj_on_of_nodup_map parked member member' same

end AppState

end Wsarb
