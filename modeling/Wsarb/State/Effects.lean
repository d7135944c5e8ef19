import Wsarb.State.Delivery

/-!
Owns the effect of every operation on the two things the properties are about: a key's
entry, and what has been queued to a client. Each operation has one law for the entry
of an arbitrary key and one for the queue of an arbitrary client; nothing above this
module unfolds an operation again.
-/

namespace Wsarb

open Wsarb.Library

variable {β : Type}

namespace Client

@[simp] theorem forward_tx (client : Client β) (incremental : Bool) (msg : β) :
    (client.forward incremental msg).tx = client.tx.push msg := by
  unfold forward sendOrHangUp sendOrDrop
  by_cases fits : 0 < client.tx.room
  · simp [fits]
  · rw [Mailbox.push_of_full msg (Nat.eq_zero_of_not_pos fits)]
    simp only [fits, if_false]
    split_ifs <;> rfl

@[simp] theorem forward_subscriptions (client : Client β) (incremental : Bool) (msg : β) :
    (client.forward incremental msg).subscriptions = client.subscriptions := by
  unfold forward sendOrHangUp sendOrDrop
  split_ifs <;> rfl

end Client

namespace SubEntry

/-! ### The critical section on an entry -/

section Update

variable [Payload β] (e : SubEntry β) (key : SubKey) (now src : Nat) (seq : Seq) (payload : β)

/-- Who is parked after a frame that goes out: everyone whose backlog still fits. -/
def pendingAfter : List (Pending β) :=
  match seq.heldHeight with
  | none => e.pending
  | some h => (e.pending.map (·.pile src h payload)).filter (·.bytes ≤ pendingMaxBytes)

theorem update_entry :
    (e.update key now src seq payload).1 =
      if e.Accepts key src seq then
        { (e.arbitrate key now src seq).1 with pending := e.pendingAfter src seq payload }
      else (e.arbitrate key now src seq).1 := by
  have parked := (e.arbitrate_members key now src seq).2.1
  by_cases accepts : e.Accepts key src seq
  · have delivers := (e.arbitrate_deliver_iff key now src seq).mpr accepts
    simp only [update, delivers, if_true, accepts, hold, pendingAfter]
    cases seq.heldHeight with
    | none => simp [← parked]
    | some h => simp [parked]
  · have drops := mt (e.arbitrate_deliver_iff key now src seq).mp accepts
    simp [update, drops, accepts]

theorem update_verdict :
    (e.update key now src seq payload).2.verdict = (e.arbitrate key now src seq).2 := by
  unfold update
  dsimp only
  split <;> rfl

theorem update_recipients :
    (e.update key now src seq payload).2.subscribers =
      if e.Accepts key src seq then e.subscribers else [] := by
  have members := (e.arbitrate_members key now src seq).1
  by_cases accepts : e.Accepts key src seq
  · have delivers := (e.arbitrate_deliver_iff key now src seq).mpr accepts
    simp only [update, delivers, if_true, accepts, hold]
    cases seq.heldHeight <;> simp [members]
  · have drops := mt (e.arbitrate_deliver_iff key now src seq).mp accepts
    simp [update, drops, accepts]

theorem update_last :
    (e.update key now src seq payload).1.last =
      if e.Accepts key src seq then seq.stamp else e.last := by
  have last := e.arbitrate_last key now src seq
  simp only [e.arbitrate_deliver_iff key now src seq] at last
  rw [update_entry, ← last]
  split <;> rfl

theorem update_blockLeader (ordered : ∀ v, seq ≠ .point v) :
    (e.update key now src seq payload).1.blockLeader =
      if e.Accepts key src seq then some src else e.blockLeader := by
  have leader := e.arbitrate_blockLeader key now src seq
  simp only [e.arbitrate_deliver_iff key now src seq, ne_eq, ordered, not_false_eq_true,
    and_true] at leader
  rw [update_entry, ← leader]
  split <;> rfl

@[simp] theorem update_subscribers :
    (e.update key now src seq payload).1.subscribers = e.subscribers := by
  rw [update_entry, ← (e.arbitrate_members key now src seq).1]
  split <;> rfl

@[simp] theorem update_upstreamSubscribed :
    (e.update key now src seq payload).1.upstreamSubscribed = e.upstreamSubscribed := by
  rw [update_entry, ← (e.arbitrate_members key now src seq).2.2.1]
  split <;> rfl

@[simp] theorem update_pinned :
    (e.update key now src seq payload).1.pinned = e.pinned := by
  rw [update_entry, ← (e.arbitrate_members key now src seq).2.2.2]
  split <;> rfl

theorem update_pending :
    (e.update key now src seq payload).1.pending =
      if e.Accepts key src seq then e.pendingAfter src seq payload else e.pending := by
  rw [update_entry]
  split
  · rfl
  · exact (e.arbitrate_members key now src seq).2.1

end Update

end SubEntry

namespace AppState

variable (st : AppState β)

/-! ### Primitive steps -/

theorem getEntry_setEntry (key other : SubKey) (e : SubEntry β) :
    (st.setEntry key e).getEntry other = if other = key then some e else st.getEntry other := by
  unfold setEntry getEntry
  by_cases same : other = key
  · subst same
    rw [if_pos rfl]
    exact AList.lookup_insert _
  · rw [if_neg same]
    exact AList.lookup_insert_ne same

theorem getEntry_removeEntry (key other : SubKey) :
    (st.removeEntry key).getEntry other = if other = key then none else st.getEntry other := by
  unfold removeEntry getEntry
  by_cases same : other = key
  · subst same
    rw [if_pos rfl]
    exact AList.lookup_erase _ _
  · rw [if_neg same]
    exact AList.lookup_erase_ne same

@[simp] theorem getEntry_modifyClient (client : Nat) (f : Client β → Client β) (key : SubKey) :
    (st.modifyClient client f).getEntry key = st.getEntry key := rfl
@[simp] theorem getEntry_modifySource (id : Nat) (f : Source → Source) (key : SubKey) :
    (st.modifySource id f).getEntry key = st.getEntry key := rfl
@[simp] theorem getEntry_broadcastCtrl (req : SubRequest) (key : SubKey) :
    (st.broadcastCtrl req).getEntry key = st.getEntry key := rfl
@[simp] theorem getEntry_insertSubscription (client : Nat) (added key : SubKey) :
    (st.insertSubscription client added).getEntry key = st.getEntry key := rfl
@[simp] theorem getEntry_removeSubscription (client : Nat) (gone key : SubKey) :
    (st.removeSubscription client gone).getEntry key = st.getEntry key := rfl
@[simp] theorem getEntry_notifyKill (client : Nat) (key : SubKey) :
    (st.notifyKill client).getEntry key = st.getEntry key := rfl

@[simp] theorem heap_setEntry (key : SubKey) (e : SubEntry β) :
    (st.setEntry key e).heap = st.heap := rfl
@[simp] theorem heap_removeEntry (key : SubKey) : (st.removeEntry key).heap = st.heap := rfl
@[simp] theorem heap_modifySource (id : Nat) (f : Source → Source) :
    (st.modifySource id f).heap = st.heap := rfl
@[simp] theorem heap_broadcastCtrl (req : SubRequest) : (st.broadcastCtrl req).heap = st.heap :=
  rfl

theorem heap_modifyClient (client other : Nat) (f : Client β → Client β) :
    (st.modifyClient client f).heap other =
      if other = client then f (st.heap client) else st.heap other := by
  unfold modifyClient
  by_cases same : other = client
  · subst same
    simp
  · simp [same]

theorem tx_modifyClient_of_tx {client : Nat} {f : Client β → Client β}
    (keeps : (f (st.heap client)).tx = (st.heap client).tx) (other : Nat) :
    ((st.modifyClient client f).heap other).tx = (st.heap other).tx := by
  rw [heap_modifyClient]
  split
  · next same => rw [keeps, same]
  · rfl

@[simp] theorem tx_insertSubscription (client other : Nat) (key : SubKey) :
    ((st.insertSubscription client key).heap other).tx = (st.heap other).tx :=
  st.tx_modifyClient_of_tx rfl other
@[simp] theorem tx_removeSubscription (client other : Nat) (key : SubKey) :
    ((st.removeSubscription client key).heap other).tx = (st.heap other).tx :=
  st.tx_modifyClient_of_tx rfl other
@[simp] theorem tx_notifyKill (client other : Nat) :
    ((st.notifyKill client).heap other).tx = (st.heap other).tx :=
  st.tx_modifyClient_of_tx rfl other

/-! ### Subscribing and leaving -/

/-- What a client's leaving makes of a key's entry. -/
def detached (client : Nat) : Option (SubEntry β) → Option (SubEntry β)
  | none => none
  | some e => if (leave e client).2 then none else some (leave e client).1

theorem getEntry_subscribeEntry (now client : Nat) (key other : SubKey) :
    (st.subscribeEntry now client key).1.getEntry other =
      if other = key then some (attach (st.entryOr now key) key client).1
      else st.getEntry other := by
  rw [subscribeEntry, getEntry_setEntry]

@[simp] theorem heap_subscribeEntry (now client : Nat) (key : SubKey) :
    (st.subscribeEntry now client key).1.heap = st.heap := rfl

theorem getEntry_subscribe (now client : Nat) (key other : SubKey) :
    (st.subscribe now client key).1.getEntry other =
      if other = key ∧ key ∉ st.subscriptions client then
        some (attach (st.entryOr now key) key client).1
      else st.getEntry other := by
  unfold subscribe
  by_cases held : key ∈ st.subscriptions client
  · simp [held]
  · have entered := (st.insertSubscription client key).getEntry_subscribeEntry now client key other
    simp only [held, if_false, not_false_eq_true, and_true]
    split_ifs <;> simp_all [entryOr]

theorem tx_subscribe (now client : Nat) (key : SubKey) (other : Nat) :
    ((st.subscribe now client key).1.heap other).tx = (st.heap other).tx := by
  unfold subscribe
  by_cases held : key ∈ st.subscriptions client
  · simp [held]
  · simp only [held, if_false]
    split_ifs <;> simp

theorem getEntry_pin (now : Nat) (key other : SubKey) :
    (st.pin now key).getEntry other =
      if other = key then
        some { st.entryOr now key with pinned := true, upstreamSubscribed := true }
      else st.getEntry other := by
  rw [← getEntry_setEntry]
  unfold pin
  dsimp only
  split_ifs <;> rfl

@[simp] theorem heap_pin (now : Nat) (key : SubKey) : (st.pin now key).heap = st.heap := by
  unfold pin
  dsimp only
  split_ifs <;> rfl

theorem getEntry_detach (client : Nat) (key other : SubKey) :
    (st.detach client key).getEntry other =
      if other = key then detached client (st.getEntry key) else st.getEntry other := by
  unfold detach detachEntry
  cases found : st.getEntry key with
  | none =>
      by_cases same : other = key
      · subst same
        simp [detached, found]
      · simp [same]
  | some e =>
      simp only [detached]
      split_ifs with last same same
      · subst same
        simp [getEntry_removeEntry]
      · simp [getEntry_removeEntry, getEntry_setEntry, same]
      · simp [getEntry_setEntry, same]
      · simp [getEntry_setEntry, same]

@[simp] theorem heap_detach (client : Nat) (key : SubKey) :
    (st.detach client key).heap = st.heap := by
  unfold detach detachEntry
  cases st.getEntry key with
  | none => rfl
  | some e =>
      dsimp only
      split_ifs <;> rfl

theorem getEntry_unsubscribe (client : Nat) (key other : SubKey) :
    (st.unsubscribe client key).1.getEntry other =
      if other = key ∧ key ∈ st.subscriptions client then detached client (st.getEntry key)
      else st.getEntry other := by
  unfold unsubscribe
  by_cases held : key ∈ st.subscriptions client
  · simp [held, getEntry_detach]
  · simp [held]

theorem tx_unsubscribe (client : Nat) (key : SubKey) (other : Nat) :
    ((st.unsubscribe client key).1.heap other).tx = (st.heap other).tx := by
  unfold unsubscribe
  split_ifs <;> simp

/-- Leaving twice is leaving once. -/
theorem detached_detached (client : Nat) (e : Option (SubEntry β)) :
    detached client (detached client e) = detached client e := by
  cases e with
  | none => rfl
  | some e =>
      have again : without (without e client) client = without e client := by
        simp [without, List.filter_filter]
      by_cases last : abandoned (without e client) = true
      · simp [detached, leave, last]
      · simp [detached, leave, last, again]

theorem getEntry_cleanupClient (client : Nat) (key : SubKey) :
    (st.cleanupClient client).getEntry key =
      if key ∈ st.subscriptions client then detached client (st.getEntry key)
      else st.getEntry key := by
  have overKeys : ∀ (keys : List SubKey) (st : AppState β),
      (keys.foldl (fun st key => st.detach client key) st).getEntry key =
        if key ∈ keys then detached client (st.getEntry key) else st.getEntry key := by
    intro keys
    induction keys with
    | nil => intro st; simp
    | cons first rest inductionHypothesis =>
        intro st
        rw [List.foldl_cons, inductionHypothesis, getEntry_detach]
        by_cases same : key = first
        · subst same
          simp [detached_detached]
        · simp [same]
  rw [cleanupClient, overKeys]
  rfl

theorem heap_detachAll (client : Nat) (keys : List SubKey) :
    (keys.foldl (fun st key => st.detach client key) st).heap = st.heap := by
  induction keys generalizing st with
  | nil => rfl
  | cons first rest inductionHypothesis =>
      rw [List.foldl_cons, inductionHypothesis, heap_detach]

theorem tx_cleanupClient (client other : Nat) :
    ((st.cleanupClient client).heap other).tx = (st.heap other).tx := by
  rw [cleanupClient, heap_detachAll]
  exact tx_modifyClient_of_tx _ rfl other

/-! ### A frame -/

theorem getEntry_fanOut (incremental : Bool) (payload : β) (recipients : List Nat) (key : SubKey) :
    (st.fanOut incremental payload recipients).getEntry key = st.getEntry key := by
  induction recipients generalizing st with
  | nil => rfl
  | cons client rest inductionHypothesis =>
      exact (inductionHypothesis (st.modifyClient client _)).trans rfl

/-- A client receives one copy for each time it is listed, as far as they fit. -/
theorem tx_fanOut (incremental : Bool) (payload : β) (recipients : List Nat) (client : Nat) :
    ((st.fanOut incremental payload recipients).heap client).tx =
      (st.heap client).tx.offer (List.replicate (recipients.count client) payload) := by
  induction recipients generalizing st with
  | nil => rfl
  | cons first rest inductionHypothesis =>
      have next := inductionHypothesis (st.modifyClient first (·.forward incremental payload))
      rw [fanOut, List.foldl_cons, ← fanOut, next, heap_modifyClient]
      by_cases same : client = first
      · subst same
        rw [if_pos rfl, Client.forward_tx, List.count_cons_self, List.replicate_succ,
          Mailbox.offer_cons]
      · rw [if_neg same, List.count_cons_of_ne (Ne.symm same)]

theorem getEntry_notifyKills (clients : List Nat) (key : SubKey) :
    (clients.foldl notifyKill st).getEntry key = st.getEntry key := by
  induction clients generalizing st with
  | nil => rfl
  | cons client rest inductionHypothesis => exact inductionHypothesis (st.notifyKill client)

theorem tx_notifyKills (clients : List Nat) (client : Nat) :
    ((clients.foldl notifyKill st).heap client).tx = (st.heap client).tx := by
  induction clients generalizing st with
  | nil => rfl
  | cons first rest inductionHypothesis =>
      rw [List.foldl_cons, inductionHypothesis, tx_notifyKill]

section Frame

variable [Payload β] (now src : Nat) (key : SubKey) (seq : Seq) (payload : β)

def recipients : List Nat :=
  ((st.entryOr now key).update key now src seq payload).2.subscribers

theorem mem_recipients (client : Nat) :
    client ∈ st.recipients now src key seq payload ↔
      ∃ e, st.getEntry key = some e ∧ e.Accepts key src seq ∧ client ∈ e.subscribers := by
  rw [recipients, SubEntry.update_recipients, entryOr]
  cases found : st.getEntry key with
  | none =>
      simp only [Option.getD_none, reduceCtorEq, false_and, exists_false, iff_false]
      split <;> simp [SubEntry.new]
  | some e =>
      simp only [Option.getD_some, Option.some.injEq, exists_eq_left']
      split <;> simp_all

theorem getEntry_onUpdate (other : SubKey) :
    (st.onUpdate now src key seq payload).getEntry other =
      if other = key then
        some ((st.entryOr now key).update key now src seq payload).1
      else st.getEntry other := by
  simp only [onUpdate, onUpdateEntry, getEntry_fanOut, getEntry_notifyKills, countVerdict,
    getEntry_modifySource, getEntry_setEntry]

theorem tx_onUpdate (client : Nat) :
    ((st.onUpdate now src key seq payload).heap client).tx =
      (st.heap client).tx.offer
        (List.replicate ((st.recipients now src key seq payload).count client) payload) := by
  simp only [onUpdate, onUpdateEntry, tx_fanOut, tx_notifyKills, countVerdict,
    heap_modifySource, heap_setEntry, recipients]

end Frame

/-! ### A snapshot -/

theorem getEntry_release (client : Nat) (backlog : List β) (key : SubKey) :
    (st.release client backlog).getEntry key = st.getEntry key := by
  induction backlog generalizing st with
  | nil => rfl
  | cons msg rest inductionHypothesis =>
      unfold release
      dsimp only
      split_ifs
      · rw [inductionHypothesis]
        rfl
      · rfl

/-- The release loop adds the part of the backlog that fits. -/
theorem tx_release (client other : Nat) (backlog : List β) :
    ((st.release client backlog).heap other).tx =
      if other = client then (st.heap client).tx.offer backlog else (st.heap other).tx := by
  induction backlog generalizing st with
  | nil => simp only [release, Mailbox.offer_nil]; split <;> simp_all
  | cons msg rest inductionHypothesis =>
      unfold release
      by_cases fits : 0 < (st.heap client).tx.room
      · simp only [Client.sendOrHangUp, if_pos fits, if_true, inductionHypothesis,
          heap_modifyClient, Mailbox.offer_cons]
        split <;> rfl
      · have full : (st.heap client).tx.room = 0 := Nat.eq_zero_of_not_pos fits
        simp only [Client.sendOrHangUp, if_neg fits, Bool.false_eq_true, if_false,
          heap_modifyClient, Mailbox.offer_of_full _ full]
        split <;> rfl

/-- The backlog `deliver_snapshot` releases, if the client was parked. -/
def backlog? (key : SubKey) (client source height : Nat) (snapshot : β) : Option (List β) :=
  (st.getEntry key).bind fun e => (e.rebuild key client source height snapshot).2

theorem getEntry_deliverSnapshot (key : SubKey) (client source height : Nat) (snapshot : β)
    (other : SubKey) :
    (st.deliverSnapshot key client source height snapshot).getEntry other =
      if other = key then
        (st.getEntry key).map fun e => (e.rebuild key client source height snapshot).1
      else st.getEntry other := by
  unfold deliverSnapshot deliverSnapshotEntry
  cases found : st.getEntry key with
  | none =>
      dsimp only
      split
      · next same => rw [same, found]; rfl
      · rfl
  | some e =>
      dsimp only
      split
      · rw [getEntry_release, getEntry_setEntry]
        rfl
      · rw [getEntry_setEntry]
        rfl

theorem tx_deliverSnapshot (key : SubKey) (client source height : Nat) (snapshot : β)
    (other : Nat) :
    ((st.deliverSnapshot key client source height snapshot).heap other).tx =
      if other = client then
        (st.heap client).tx.offer ((st.backlog? key client source height snapshot).getD [])
      else (st.heap other).tx := by
  unfold deliverSnapshot deliverSnapshotEntry backlog?
  cases found : st.getEntry key with
  | none =>
      simp only [Option.bind_none, Option.getD_none, Mailbox.offer_nil]
      split <;> simp_all
  | some e =>
      simp only [Option.bind_some]
      cases (e.rebuild key client source height snapshot).2 with
      | none =>
          simp only [Option.getD_none, Mailbox.offer_nil, heap_setEntry]
          split <;> simp_all
      | some backlog =>
          simp only [tx_release, heap_setEntry, Option.getD_some]

/-- What giving a parked client up makes of its key's entry. -/
def givenUp (client : Nat) (e : SubEntry β) : SubEntry β :=
  { e with pending := e.pending.eraseP (·.client == client) }

theorem givenUp_of_absent {client : Nat} {e : SubEntry β} (absent : e.isRebuilding client ≠ true) :
    givenUp client e = e := by
  have nobody : e.pending.eraseP (·.client == client) = e.pending := by
    apply List.eraseP_of_forall_not
    intro p member holds
    exact absent (List.any_eq_true.mpr ⟨p, member, holds⟩)
  rw [givenUp, nobody]

theorem getEntry_failPending (key : SubKey) (client : Nat) (other : SubKey) :
    (st.failPending key client).getEntry other =
      if other = key then (st.getEntry key).map (givenUp client) else st.getEntry other := by
  unfold failPending
  cases found : st.getEntry key with
  | none =>
      dsimp only
      split
      · next same => rw [same, found]; rfl
      · rfl
  | some e =>
      dsimp only
      by_cases parked : e.isRebuilding client = true
      · rw [if_pos parked, getEntry_notifyKill, getEntry_setEntry]
        rfl
      · rw [if_neg parked]
        split
        · next same => rw [same, found, Option.map_some, givenUp_of_absent parked]
        · rfl

theorem tx_failPending (key : SubKey) (client other : Nat) :
    ((st.failPending key client).heap other).tx = (st.heap other).tx := by
  unfold failPending
  split
  · rfl
  · split_ifs <;> simp

/-! ### The loss of a source -/

theorem getEntry_resyncAfterSourceLoss (source : Nat) (key : SubKey) :
    (st.resyncAfterSourceLoss source).1.getEntry key =
      (st.getEntry key).map fun e => (e.loseSource source key).1 :=
  KeyedMap.lookup_mapValues _ _ _

end AppState

end Wsarb
