import Wsarb.Library.Sends
import Wsarb.State.Roster

/-!
Owns the shared state with the clients' writers at work inside an operation. Only
`deliver_snapshot` sends one client several frames, so only there can its writer act between
two sends: the release loop is taken one send at a time, with whatever the writer does before
each. Anywhere else a writer's doings are operations of their own, `receive` and `close`.

Does not own: the hang-up, which is a `close` and a `cleanup_client` some steps later.
-/

namespace Wsarb

open Wsarb.Library

/-- An operation, and what the writer of the client it releases a backlog to does before each
of the sends. -/
structure Move where
  op : Op
  pulls : List (List Mailbox.Pull) := []

namespace AppState

/-! ### The release loop -/

section Release

variable {β : Type} (st : AppState β)

def pulled (client : Nat) (pulls : List Mailbox.Pull) : AppState β :=
  st.modifyClient client fun c => { c with tx := c.tx.pulled pulls }

/-- The release loop with the client's writer at work. -/
def releaseAmid (st : AppState β) (client : Nat) :
    List β → List (List Mailbox.Pull) → AppState β
  | [], _ => st
  | msg :: rest, pulls =>
      let st := st.pulled client (pulls.headD [])
      let (c, sent) := (st.heap client).sendOrHangUp msg
      let st := st.modifyClient client fun _ => c
      if sent then st.releaseAmid client rest pulls.tail else st

/-- `deliver_snapshot` with the client's writer at work. -/
def deliverSnapshotAmid (key : SubKey) (client source height : Nat) (snapshot : β)
    (pulls : List (List Mailbox.Pull)) : AppState β :=
  let (st, backlog) := st.deliverSnapshotEntry key client source height snapshot
  match backlog with
  | some backlog => st.releaseAmid client backlog pulls
  | none => st

/-- What the state holds apart from the clients' queues: the entries, the handles given out and
the keys each client holds. -/
def books : KeyedMap SubKey (SubEntry β) × Nat × (Nat → List SubKey) :=
  (st.subs, st.nextClientId, st.subscriptions)

theorem books_modifyClient {client : Nat} {f : Client β → Client β}
    (keeps : (f (st.heap client)).subscriptions = (st.heap client).subscriptions) :
    (st.modifyClient client f).books = st.books := by
  have same : (st.modifyClient client f).subscriptions = st.subscriptions := by
    funext who
    show ((st.modifyClient client f).heap who).subscriptions = (st.heap who).subscriptions
    rw [heap_modifyClient]
    split
    · next own => rw [keeps, own]
    · rfl
  rw [books, same]
  rfl

theorem subscriptions_sendOrHangUp (client : Client β) (msg : β) :
    (client.sendOrHangUp msg).1.subscriptions = client.subscriptions := by
  unfold Client.sendOrHangUp
  split_ifs <;> rfl

theorem books_sent (client : Nat) (msg : β) :
    (st.modifyClient client fun _ => ((st.heap client).sendOrHangUp msg).1).books = st.books :=
  st.books_modifyClient (f := fun _ => ((st.heap client).sendOrHangUp msg).1)
    (subscriptions_sendOrHangUp (st.heap client) msg)

theorem books_release (client : Nat) (backlog : List β) :
    (st.release client backlog).books = st.books := by
  induction backlog generalizing st with
  | nil => rfl
  | cons msg rest inductionHypothesis =>
      unfold release
      dsimp only
      split
      · rw [inductionHypothesis, books_sent]
      · exact st.books_sent client msg

theorem books_releaseAmid (client : Nat) (backlog : List β) (pulls : List (List Mailbox.Pull)) :
    (st.releaseAmid client backlog pulls).books = st.books := by
  induction backlog generalizing st pulls with
  | nil => rfl
  | cons msg rest inductionHypothesis =>
      have drained : (st.pulled client (pulls.headD [])).books = st.books :=
        st.books_modifyClient rfl
      unfold releaseAmid
      dsimp only
      split
      · rw [inductionHypothesis, books_sent, drained]
      · rw [books_sent, drained]

/-- The release loop sends one frame at a time into the client's queue. -/
theorem tx_releaseAmid (client other : Nat) (backlog : List β)
    (pulls : List (List Mailbox.Pull)) :
    ((st.releaseAmid client backlog pulls).heap other).tx =
      if other = client then (st.heap client).tx.offerAmid backlog pulls
      else (st.heap other).tx := by
  induction backlog generalizing st pulls with
  | nil =>
      split
      · next same => rw [same]; rfl
      · rfl
  | cons msg rest inductionHypothesis =>
      have drained : ((st.pulled client (pulls.headD [])).heap client).tx =
          (st.heap client).tx.pulled (pulls.headD []) := by
        rw [pulled, heap_modifyClient, if_pos rfl]
      have apart : other ≠ client →
          (st.pulled client (pulls.headD [])).heap other = st.heap other := by
        intro differs
        rw [pulled, heap_modifyClient, if_neg differs]
      unfold releaseAmid Mailbox.offerAmid
      by_cases fits : 0 < ((st.heap client).tx.pulled (pulls.headD [])).room
      · simp only [Client.sendOrHangUp, drained, if_pos fits, if_true, inductionHypothesis,
          heap_modifyClient]
        split
        · rfl
        · next differs => rw [apart differs]
      · simp only [Client.sendOrHangUp, drained, if_neg fits, Bool.false_eq_true, if_false,
          heap_modifyClient]
        split
        · rfl
        · next differs => rw [apart differs]

theorem tx_deliverSnapshotAmid (key : SubKey) (client source height : Nat) (snapshot : β)
    (pulls : List (List Mailbox.Pull)) (other : Nat) :
    ((st.deliverSnapshotAmid key client source height snapshot pulls).heap other).tx =
      if other = client then
        (st.heap client).tx.offerAmid
          ((st.backlog? key client source height snapshot).getD []) pulls
      else (st.heap other).tx := by
  unfold deliverSnapshotAmid deliverSnapshotEntry backlog?
  cases found : st.getEntry key with
  | none =>
      simp only [Option.bind_none, Option.getD_none, Mailbox.offerAmid]
      split <;> simp_all
  | some e =>
      simp only [Option.bind_some]
      cases (e.rebuild key client source height snapshot).2 with
      | none =>
          simp only [Option.getD_none, Mailbox.offerAmid, heap_setEntry]
          split <;> simp_all
      | some backlog =>
          simp only [tx_releaseAmid, heap_setEntry, Option.getD_some]

/-- The writer's doings leave everything but the queues as it would be without them. -/
theorem books_deliverSnapshotAmid (key : SubKey) (client source height : Nat) (snapshot : β)
    (pulls : List (List Mailbox.Pull)) :
    (st.deliverSnapshotAmid key client source height snapshot pulls).books =
      (st.deliverSnapshot key client source height snapshot).books := by
  unfold deliverSnapshotAmid deliverSnapshot
  dsimp only
  cases (st.deliverSnapshotEntry key client source height snapshot).2 with
  | none => rfl
  | some backlog => exact (books_releaseAmid _ _ _ _).trans (books_release _ _ _).symm

/-- A writer that does nothing meanwhile leaves the release loop as it is. -/
theorem releaseAmid_idle (client : Nat) (backlog : List β) :
    st.releaseAmid client backlog [] = st.release client backlog := by
  have idle : ∀ st : AppState β, st.pulled client [] = st := by
    intro st
    rw [pulled, modifyClient]
    have same : Function.update st.heap client (st.heap client) = st.heap :=
      Function.update_eq_self client st.heap
    exact congrArg (fun heap => { st with heap := heap }) same
  induction backlog generalizing st with
  | nil => rfl
  | cons msg rest inductionHypothesis =>
      unfold releaseAmid release
      simp only [List.headD_nil, idle, List.tail_nil, inductionHypothesis]

end Release

/-! ### One move -/

/-- Perform an operation with the client's writer at work. -/
def perform (st : Live) (move : Move) : Live :=
  match move.op with
  | .deliverSnapshot client fetched =>
      st.deliverSnapshotAmid fetched.key client fetched.source fetched.height fetched.message
        move.pulls
  | op => st.step op

variable {st : Live} {move : Move}

theorem perform_of_other (other : ∀ client fetched, move.op ≠ .deliverSnapshot client fetched) :
    st.perform move = st.step move.op := by
  unfold perform
  split
  · next client fetched same => exact absurd same (other client fetched)
  · rfl

/-- A writer that does nothing meanwhile leaves every operation as it is. -/
theorem perform_idle (st : Live) (op : Op) : st.perform { op := op } = st.step op := by
  cases op with
  | deliverSnapshot client fetched =>
      show st.deliverSnapshotAmid .. = st.deliverSnapshot ..
      unfold deliverSnapshotAmid deliverSnapshot
      dsimp only
      cases (st.deliverSnapshotEntry fetched.key client fetched.source fetched.height
          fetched.message).2 with
      | none => rfl
      | some backlog => exact releaseAmid_idle _ client backlog
  | _ => rfl

theorem books_perform (st : Live) (move : Move) :
    (st.perform move).books = (st.step move.op).books := by
  obtain ⟨op, pulls⟩ := move
  cases op with
  | deliverSnapshot client fetched => exact st.books_deliverSnapshotAmid ..
  | _ => rfl

section Books

variable {other : Live} (same : other.books = st.books)

include same

theorem getEntry_of_books (key : SubKey) : other.getEntry key = st.getEntry key :=
  congrArg (fun books => books.1.lookup key) same

theorem nextClientId_of_books : other.nextClientId = st.nextClientId :=
  congrArg (·.2.1) same

theorem subscriptions_of_books : other.subscriptions = st.subscriptions :=
  congrArg (·.2.2) same

/-- Whether clients are listed once, for keys they hold, is a matter of the books. -/
theorem Seated.of_books (seated : st.Seated) : other.Seated where
  once := fun key e found => seated.once key e (getEntry_of_books same key ▸ found)
  held := by
    intro key e found client stands
    rw [subscriptions_of_books same]
    exact seated.held key e (getEntry_of_books same key ▸ found) client stands
  blank := by
    intro client later
    rw [nextClientId_of_books same] at later
    rw [subscriptions_of_books same]
    exact seated.blank client later

theorem HeldTagged.of_books (tagged : HeldTagged st) : HeldTagged other :=
  fun key e found => tagged key e (getEntry_of_books same key ▸ found)

end Books

end AppState

end Wsarb
