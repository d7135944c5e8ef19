import Wsarb.Library.Run
import Wsarb.State.Effects

/-!
Owns the shared state as a machine: the operations its tasks perform, each taken as one
atomic step, and the two laws of a step. `getEntry_step` says what any operation makes of
any key's entry, and `log_step` what it adds to any client's queue.

A message here is a frame's text together with the connection it came in on and what
`route` reads off it; the operations themselves look at nothing but its length.

Does not own: which frames a source sends, or when.
-/

namespace Wsarb

open Wsarb.Library

/-- A frame as the proxy carries it: its text, the source it came from, and the key and
ordering tag it was routed by. -/
structure Message where
  source : Nat
  key : SubKey
  seq : Seq
  text : String
  admitted : key.admits seq = true
  deriving DecidableEq

namespace Message

def l4Snapshot (source : Nat) (coin : String) (height : Nat) (text : String) : Message :=
  ⟨source, .l4Book coin, .snapshot height, text, rfl⟩

/-- One message of an `l4Book` block. -/
def l4Block (source : Nat) (coin : String) (height : Nat) (text : String) : Message :=
  ⟨source, .l4Book coin, .block height, text, rfl⟩

/-- An increment of the plain `l2Diff` stream of a coin. -/
def l2Increment (source : Nat) (coin : String) (time : Nat) (text : String) : Message :=
  ⟨source, .l2Diff coin none none none, .sticky time, text, rfl⟩

end Message

instance : Payload Message where
  len message := message.text.utf8ByteSize

/-- A snapshot fetched over a throwaway connection. -/
structure Fetched where
  source : Nat
  key : SubKey
  height : Nat
  text : String
  incremental : key.isIncremental = true

def Fetched.message (fetched : Fetched) : Message where
  source := fetched.source
  key := fetched.key
  seq := .snapshot fetched.height
  text := fetched.text
  admitted := by
    have incremental := fetched.incremental
    cases same : fetched.key <;> simp_all [SubKey.isIncremental, SubKey.admits]

/-- One atomic step of the proxy. `receive` is a client's writer taking a frame off its
queue and `close` the end of that writer. -/
inductive Op
  | registerClient (ip : String)
  | subscribe (now client : Nat) (key : SubKey)
  | pin (now : Nat) (key : SubKey)
  | unsubscribe (client : Nat) (key : SubKey)
  | onUpdate (now : Nat) (message : Message)
  | deliverSnapshot (client : Nat) (fetched : Fetched)
  | failPending (key : SubKey) (client : Nat)
  | resyncAfterSourceLoss (source : Nat)
  | cleanupClient (client : Nat)
  | receive (client : Nat)
  | close (client : Nat)

namespace AppState

/-- The shared state over routed messages. -/
abbrev Live := AppState Message

def step (st : Live) : Op → Live
  | .registerClient ip => (st.registerClient ip).1
  | .subscribe now client key => (st.subscribe now client key).1
  | .pin now key => st.pin now key
  | .unsubscribe client key => (st.unsubscribe client key).1
  | .onUpdate now message =>
      st.onUpdate now message.source message.key message.seq message
  | .deliverSnapshot client fetched =>
      st.deliverSnapshot fetched.key client fetched.source fetched.height fetched.message
  | .failPending key client => st.failPending key client
  | .resyncAfterSourceLoss source => (st.resyncAfterSourceLoss source).1
  | .cleanupClient client => st.cleanupClient client
  | .receive client => st.modifyClient client fun c => { c with tx := c.tx.receive }
  | .close client => st.modifyClient client fun c => { c with tx := c.tx.close }

/-- The states a run of operations from start-up can reach. -/
def Reached (st : Live) : Prop := ∃ sources, Reachable step (AppState.new sources) st

variable (st : Live)

/-- What an operation makes of a key's entry. -/
def entryAfter (key : SubKey) : Op → Option (SubEntry Message)
  | .subscribe now client subscribed =>
      if subscribed = key ∧ key ∉ st.subscriptions client then
        some (attach (st.entryOr now key) key client).1
      else st.getEntry key
  | .pin now pinned =>
      if pinned = key then
        some { st.entryOr now key with pinned := true, upstreamSubscribed := true }
      else st.getEntry key
  | .unsubscribe client left =>
      if left = key ∧ key ∈ st.subscriptions client then detached client (st.getEntry key)
      else st.getEntry key
  | .onUpdate now message =>
      if message.key = key then
        some ((st.entryOr now key).update key now message.source message.seq message).1
      else st.getEntry key
  | .deliverSnapshot client fetched =>
      if fetched.key = key then
        (st.getEntry key).map fun e =>
          (e.rebuild key client fetched.source fetched.height fetched.message).1
      else st.getEntry key
  | .failPending failed client =>
      if failed = key then (st.getEntry key).map (givenUp client) else st.getEntry key
  | .resyncAfterSourceLoss source => (st.getEntry key).map fun e => (e.loseSource source key).1
  | .cleanupClient client =>
      if key ∈ st.subscriptions client then detached client (st.getEntry key) else st.getEntry key
  | .registerClient _ | .receive _ | .close _ => st.getEntry key

theorem getEntry_step (op : Op) (key : SubKey) :
    (st.step op).getEntry key = st.entryAfter key op := by
  cases op with
  | registerClient ip => rfl
  | subscribe now client subscribed =>
      rw [step, getEntry_subscribe, entryAfter]
      by_cases same : subscribed = key
      · subst same
        simp
      · rw [if_neg fun both => same both.1.symm, if_neg fun both => same both.1]
  | pin now pinned =>
      simp only [step, entryAfter, getEntry_pin, eq_comm (a := key)]
      split_ifs with same <;> simp_all
  | unsubscribe client left =>
      rw [step, getEntry_unsubscribe, entryAfter]
      by_cases same : left = key
      · subst same
        simp
      · rw [if_neg fun both => same both.1.symm, if_neg fun both => same both.1]
  | onUpdate now message =>
      simp only [step, entryAfter, getEntry_onUpdate, eq_comm (a := key)]
      split_ifs with same <;> simp_all
  | deliverSnapshot client fetched =>
      simp only [step, entryAfter, getEntry_deliverSnapshot, eq_comm (a := key)]
      split_ifs with same <;> simp_all
  | failPending failed client =>
      simp only [step, entryAfter, getEntry_failPending, eq_comm (a := key)]
      split_ifs with same <;> simp_all
  | resyncAfterSourceLoss source => exact st.getEntry_resyncAfterSourceLoss source key
  | cleanupClient client => exact st.getEntry_cleanupClient client key
  | receive client => rfl
  | close client => rfl

/-- The messages an operation would queue to a client had its queue room for all. -/
def offered (client : Nat) : Op → List Message
  | .onUpdate now message =>
      List.replicate
        ((st.recipients now message.source message.key message.seq message).count client) message
  | .deliverSnapshot who fetched =>
      if client = who then
        (st.backlog? fetched.key who fetched.source fetched.height fetched.message).getD []
      else []
  | _ => []

/-- The messages an operation queues to a client. -/
def queued (client : Nat) (op : Op) : List Message :=
  (st.offered client op).take (st.heap client).tx.room

/-- Whether an operation hands this client's handle out, its queue still empty. -/
def Registers (client : Nat) (op : Op) : Prop :=
  (∃ ip, op = .registerClient ip) ∧ client = st.nextClientId

theorem not_registers {op : Op} (other : ∀ ip, op ≠ .registerClient ip) (client : Nat) :
    ¬ st.Registers client op := by
  intro registers
  obtain ⟨ip, same⟩ := registers.1
  exact other ip same

/-- What an operation makes of a client's log: a fresh handle has none yet, every other
log grows by what is queued. -/
theorem log_step (op : Op) (client : Nat) (old : ¬ st.Registers client op) :
    (st.step op).log client = st.log client ++ st.queued client op := by
  cases op with
  | registerClient ip =>
      have other : client ≠ st.nextClientId := fun same => old ⟨⟨ip, rfl⟩, same⟩
      simp [step, registerClient, Function.update_of_ne other, queued, offered, log]
  | subscribe now who key => simp [step, tx_subscribe, queued, offered, log]
  | pin now key => simp [step, queued, offered, log]
  | unsubscribe who key => simp [step, tx_unsubscribe, queued, offered, log]
  | onUpdate now message =>
      simp only [step, tx_onUpdate, Mailbox.accepted_offer, queued, offered, log]
  | deliverSnapshot who fetched =>
      simp only [step, tx_deliverSnapshot, queued, offered, log]
      split
      · next same => rw [Mailbox.accepted_offer, same]
      · simp
  | failPending key who => simp [step, tx_failPending, queued, offered, log]
  | resyncAfterSourceLoss source =>
      simp [step, resyncAfterSourceLoss, queued, offered, log]
  | cleanupClient who => simp [step, tx_cleanupClient, queued, offered, log]
  | receive who =>
      simp only [step, heap_modifyClient, queued, offered, log]
      split
      · next same => simp [same]
      · simp
  | close who =>
      simp only [step, heap_modifyClient, queued, offered, log]
      split
      · next same => simp [same]
      · simp

/-- A queue whose reader is gone stays without one. -/
theorem closed_step {op : Op} {client : Nat} (old : ¬ st.Registers client op)
    (closed : (st.heap client).tx.closed = true) :
    ((st.step op).heap client).tx.closed = true := by
  cases op with
  | registerClient ip =>
      have other : client ≠ st.nextClientId := fun same => old ⟨⟨ip, rfl⟩, same⟩
      simpa [step, registerClient, Function.update_of_ne other] using closed
  | subscribe now who key => simpa [step, tx_subscribe] using closed
  | pin now key => simpa [step] using closed
  | unsubscribe who key => simpa [step, tx_unsubscribe] using closed
  | onUpdate now message => simpa [step, tx_onUpdate, Mailbox.closed_offer] using closed
  | deliverSnapshot who fetched =>
      simp only [step, tx_deliverSnapshot]
      split
      · next same => rwa [Mailbox.closed_offer, ← same]
      · exact closed
  | failPending key who => simpa [step, tx_failPending] using closed
  | resyncAfterSourceLoss source => exact closed
  | cleanupClient who => simpa [step, tx_cleanupClient] using closed
  | receive who =>
      simp only [step, heap_modifyClient]
      split
      · next same => simpa [← same] using closed
      · exact closed
  | close who =>
      simp only [step, heap_modifyClient]
      split
      · rfl
      · exact closed

theorem log_step_of_registers {op : Op} {client : Nat} (registers : st.Registers client op) :
    (st.step op).log client = [] := by
  obtain ⟨⟨ip, rfl⟩, rfl⟩ := registers
  simp [step, registerClient, log, Client.new, Mailbox.new]

/-! ### What is queued, and to whom -/

theorem mem_queued_onUpdate {now client : Nat} {message item : Message}
    (member : item ∈ st.queued client (.onUpdate now message)) :
    item = message ∧
      ∃ e, st.getEntry message.key = some e ∧
        e.Accepts message.key message.source message.seq ∧ client ∈ e.subscribers := by
  have offer := List.mem_of_mem_take member
  simp only [offered, List.mem_replicate] at offer
  obtain ⟨listed, rfl⟩ := offer
  exact ⟨rfl, (st.mem_recipients _ _ _ _ _ client).mp
    (List.count_pos_iff.mp (Nat.pos_of_ne_zero listed))⟩

/-- The held frames a snapshot is to release, as messages. -/
theorem offered_deliverSnapshot {client who : Nat} {fetched : Fetched} {item : Message}
    (offer : item ∈ st.offered client (.deliverSnapshot who fetched)) :
    client = who ∧ ∃ e p, st.getEntry fetched.key = some e ∧
      e.pending.find? (·.client == who) = some p ∧
      item ∈ fetched.message ::
        SubEntry.backlogOf fetched.key fetched.source fetched.height p.held := by
  simp only [offered, backlog?] at offer
  split at offer
  · next same =>
      cases found : st.getEntry fetched.key with
      | none => simp [found] at offer
      | some e =>
          simp only [found, Option.bind_some, SubEntry.rebuild] at offer
          cases parked : e.pending.find? (·.client == who) with
          | none => simp [parked] at offer
          | some p =>
              simp only [parked, Option.getD_some] at offer
              exact ⟨same, e, p, rfl, parked, offer⟩
  · simp at offer

/-- The held frames a snapshot releases, as messages. -/
theorem queued_deliverSnapshot {client who : Nat} {fetched : Fetched} {item : Message}
    (member : item ∈ st.queued client (.deliverSnapshot who fetched)) :
    client = who ∧ ∃ e p, st.getEntry fetched.key = some e ∧
      e.pending.find? (·.client == who) = some p ∧
      item ∈ fetched.message ::
        SubEntry.backlogOf fetched.key fetched.source fetched.height p.held :=
  st.offered_deliverSnapshot (List.mem_of_mem_take member)

end AppState

end Wsarb
