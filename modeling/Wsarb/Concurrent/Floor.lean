import Wsarb.State.Operations

/-!
Owns the fan-out taken apart: a source's `on_update` call is one critical section on the
entry, which decides and clones the subscriber list, and after it one send for each clone.
The calls of one source follow each other, the calls of different sources interleave in
any order, and the other operations fall anywhere between.

Every forwarded frame is stamped with its place in the order of the decisions. A call that
nothing interrupts is `on_update` as one step.

Does not own: the sends of a delivered snapshot, and what the interleaving does to a queue.
-/

namespace Wsarb

open Wsarb.Library

/-- A frame with the place its critical section has among the decisions to forward. -/
structure Stamped where
  ticket : Nat
  message : Message
  deriving DecidableEq

instance : Payload Stamped where
  len frame := Payload.len frame.message

/-- An operation that queues nothing. Registering a client is left out: it hands out a
handle nobody has used, and the heap holds every handle from the start. -/
inductive Idle
  | subscribe (now client : Nat) (key : SubKey)
  | pin (now : Nat) (key : SubKey)
  | unsubscribe (client : Nat) (key : SubKey)
  | failPending (key : SubKey) (client : Nat)
  | resyncAfterSourceLoss (source : Nat)
  | cleanupClient (client : Nat)
  | receive (client : Nat)
  | close (client : Nat)

namespace AppState

variable {β : Type}

def idle (st : AppState β) : Idle → AppState β
  | .subscribe now client key => (st.subscribe now client key).1
  | .pin now key => st.pin now key
  | .unsubscribe client key => (st.unsubscribe client key).1
  | .failPending key client => st.failPending key client
  | .resyncAfterSourceLoss source => (st.resyncAfterSourceLoss source).1
  | .cleanupClient client => st.cleanupClient client
  | .receive client => st.modifyClient client fun c => { c with tx := c.tx.receive }
  | .close client => st.modifyClient client fun c => { c with tx := c.tx.close }

@[simp] theorem log_idle (st : AppState β) (op : Idle) (client : Nat) :
    (st.idle op).log client = st.log client := by
  cases op with
  | subscribe now who key => simp [idle, log, tx_subscribe]
  | pin now key => simp [idle, log]
  | unsubscribe who key => simp [idle, log, tx_unsubscribe]
  | failPending key who => simp [idle, log, tx_failPending]
  | resyncAfterSourceLoss source => rfl
  | cleanupClient who => simp [idle, log, tx_cleanupClient]
  | receive who =>
      simp only [idle, log, heap_modifyClient]
      split
      · next same => rw [Mailbox.accepted_receive, same]
      · rfl
  | close who =>
      simp only [idle, log, heap_modifyClient]
      split
      · next same => rw [Mailbox.accepted_close, same]
      · rfl

end AppState

/-- What is left of an `on_update` call once its guard is released. -/
structure Call where
  frame : Stamped
  /-- The clones the loop has not come to yet. -/
  owed : List Nat

/-- The shared state with the calls under way on it, one at most for each source. -/
structure Floor where
  st : AppState Stamped
  /-- Every frame the critical sections decided to forward, in that order. -/
  decided : List Message
  calls : Nat → Option Call

inductive Floor.Move
  | decide (now : Nat) (message : Message)
  | send (source : Nat)
  | idle (op : Idle)

namespace Floor

def start (st : AppState Stamped) : Floor := ⟨st, [], fun _ => none⟩

variable (fl : Floor)

def stamp (message : Message) : Stamped := ⟨fl.decided.length, message⟩

/-- The critical section of a call, which a source makes once its last call is done. The
counters and hang-ups that follow the release of the guard touch no queue and are taken
with it. -/
def decide (now : Nat) (message : Message) : Floor :=
  if (fl.calls message.source).isSome then fl
  else
    let (st, outcome) :=
      fl.st.onUpdateEntry now message.source message.key message.seq (fl.stamp message)
    let st := st.countVerdict message.source outcome.verdict
    let st := outcome.overflowed.foldl AppState.notifyKill st
    if outcome.verdict.deliver then
      { st := st
        decided := fl.decided ++ [message]
        calls := Function.update fl.calls message.source
          (some { frame := fl.stamp message, owed := outcome.subscribers }) }
    else { fl with st := st }

/-- One turn of a call's loop, or its end. -/
def send (source : Nat) : Floor :=
  match fl.calls source with
  | none => fl
  | some { frame := _, owed := [] } => { fl with calls := Function.update fl.calls source none }
  | some { frame := frame, owed := client :: rest } =>
      { fl with
        st := fl.st.modifyClient client (·.forward frame.message.key.isIncremental frame)
        calls := Function.update fl.calls source (some { frame := frame, owed := rest }) }

def step (fl : Floor) : Move → Floor
  | .decide now message => fl.decide now message
  | .send source => fl.send source
  | .idle op => { fl with st := fl.st.idle op }

/-! ### What a step does -/

/-- A decision queues nothing. If it forwards, it opens a call that owes the frame to
clients attached to an entry that accepts it. -/
theorem decide_cases (now : Nat) (message : Message) :
    (∀ client, (fl.decide now message).st.log client = fl.st.log client) ∧
    ((fl.decide now message).calls = fl.calls ∧ (fl.decide now message).decided = fl.decided ∨
      ∃ owed, fl.calls message.source = none ∧
        (∀ client ∈ owed, ∃ e, fl.st.getEntry message.key = some e ∧
          e.Accepts message.key message.source message.seq ∧ client ∈ e.subscribers) ∧
        (fl.decide now message).decided = fl.decided ++ [message] ∧
        (fl.decide now message).calls = Function.update fl.calls message.source
          (some { frame := fl.stamp message, owed := owed })) := by
  unfold decide
  cases busy : fl.calls message.source with
  | some call => exact ⟨fun _ => rfl, Or.inl ⟨rfl, rfl⟩⟩
  | none =>
      have quiet : ∀ overflowed verdict client, (List.foldl AppState.notifyKill
          ((fl.st.onUpdateEntry now message.source message.key message.seq
            (fl.stamp message)).1.countVerdict message.source verdict) overflowed).log client =
          fl.st.log client := by
        intro overflowed verdict client
        rw [AppState.log, AppState.tx_notifyKills]
        rfl
      simp only [Option.isSome_none, Bool.false_eq_true, if_false]
      split
      · refine ⟨fun client => quiet _ _ client, Or.inr ⟨_, trivial, ?_, rfl, rfl⟩⟩
        intro client member
        exact (fl.st.mem_recipients now _ _ _ (fl.stamp message) client).mp member
      · exact ⟨fun client => quiet _ _ client, Or.inl ⟨rfl, rfl⟩⟩

section Accepted

variable {fl} (now : Nat) {message : Message} {e : SubEntry Stamped}
  (found : fl.st.getEntry message.key = some e)
  (accepts : e.Accepts message.key message.source message.seq)
include found accepts

theorem delivers_of_accepts :
    (fl.st.onUpdateEntry now message.source message.key message.seq
      (fl.stamp message)).2.verdict.deliver = true ∧
    (fl.st.onUpdateEntry now message.source message.key message.seq
      (fl.stamp message)).2.subscribers = e.subscribers := by
  have used : fl.st.entryOr now message.key = e := by
    rw [AppState.entryOr, found, Option.getD_some]
  simp only [AppState.onUpdateEntry, used, SubEntry.update_verdict, SubEntry.update_recipients,
    if_pos accepts, and_true]
  exact (e.arbitrate_deliver_iff message.key now message.source message.seq).mpr accepts

/-- A decision to forward opens a call that owes the frame to everyone attached. -/
theorem decide_of_accepts (ready : fl.calls message.source = none) :
    (fl.decide now message).calls = Function.update fl.calls message.source
        (some { frame := fl.stamp message, owed := e.subscribers }) ∧
      ∀ client, ((fl.decide now message).st.heap client).tx = (fl.st.heap client).tx := by
  obtain ⟨delivers, cloned⟩ := delivers_of_accepts now found accepts
  constructor
  · simp only [decide, ready, Option.isSome_none, Bool.false_eq_true, if_false, delivers, if_true,
      cloned]
  · intro client
    simp only [decide, ready, Option.isSome_none, Bool.false_eq_true, if_false, delivers, if_true,
      AppState.tx_notifyKills]
    rfl

end Accepted

/-- A turn pushes the frame to the client whose turn it is. -/
theorem tx_send (source client : Nat) :
    ((fl.send source).st.heap client).tx =
      match fl.calls source with
      | some { frame := frame, owed := who :: _ } =>
          if client = who then (fl.st.heap client).tx.push frame else (fl.st.heap client).tx
      | _ => (fl.st.heap client).tx := by
  unfold send
  cases under : fl.calls source with
  | none => rfl
  | some call =>
      obtain ⟨frame, owed⟩ := call
      cases owed with
      | nil => rfl
      | cons who rest =>
          simp only [AppState.heap_modifyClient]
          split
          · next same => rw [Client.forward_tx, same]
          · rfl

/-- After a turn every call is one there was, owing no more. -/
theorem calls_send {source other : Nat} {call : Call}
    (under : (fl.send source).calls other = some call) :
    ∃ before, fl.calls other = some before ∧ before.frame = call.frame ∧
      call.owed ⊆ before.owed := by
  unfold send at under
  split at under
  · exact ⟨call, under, rfl, List.Subset.refl _⟩
  · next calling =>
      by_cases same : other = source
      · subst same
        simp at under
      · exact ⟨call, by simpa [same] using under, rfl, List.Subset.refl _⟩
  · next frame client rest calling =>
      by_cases same : other = source
      · subst same
        obtain rfl : { frame := frame, owed := rest } = call := by simpa using under
        exact ⟨_, calling, rfl, List.subset_cons_self _ _⟩
      · exact ⟨call, by simpa [same] using under, rfl, List.Subset.refl _⟩

@[simp] theorem decided_send (source : Nat) : (fl.send source).decided = fl.decided := by
  unfold send
  split <;> rfl

def Move.caller : Move → Option Nat
  | .decide _ message => some message.source
  | .send source => some source
  | .idle _ => none

/-- A move leaves the calls of all other sources alone. -/
theorem calls_step_of_other {move : Move} {source : Nat}
    (other : move.caller ≠ some source) : (fl.step move).calls source = fl.calls source := by
  cases move with
  | decide now message =>
      have differs : source ≠ message.source := fun same => other (congrArg some same.symm)
      rcases (fl.decide_cases now message).2 with ⟨calls, -⟩ | ⟨owed, -, -, -, calls⟩
      · exact congrFun calls source
      · exact (congrFun calls source).trans (Function.update_of_ne differs ..)
  | send sender =>
      have differs : source ≠ sender := fun same => other (congrArg some same.symm)
      show (fl.send sender).calls source = _
      unfold Floor.send
      split
      · rfl
      · exact Function.update_of_ne differs ..
      · exact Function.update_of_ne differs ..
  | idle op => rfl

theorem calls_run_of_others (moves : List Move) {source : Nat}
    (others : ∀ move ∈ moves, move.caller ≠ some source) :
    (run step fl moves).calls source = fl.calls source := by
  induction moves generalizing fl with
  | nil => rfl
  | cons move rest inductionHypothesis =>
      obtain ⟨here, later⟩ := List.forall_mem_cons.mp others
      rw [run_cons, inductionHypothesis (fl.step move) later, fl.calls_step_of_other here]

/-- Left to itself, a call comes to each of its clients. -/
theorem comes_to (source client : Nat) (frame : Stamped) (owed : List Nat)
    (owes : client ∈ owed) (under : fl.calls source = some { frame := frame, owed := owed }) :
    ∃ turns rest, (run step fl (List.replicate turns (.send source))).calls source =
        some { frame := frame, owed := client :: rest } ∧
      ((run step fl (List.replicate turns (.send source))).st.heap client).tx =
        (fl.st.heap client).tx := by
  induction owed generalizing fl with
  | nil => exact absurd owes List.not_mem_nil
  | cons who rest inductionHypothesis =>
      by_cases same : client = who
      · exact ⟨0, rest, same ▸ under, rfl⟩
      · have kept : ((fl.send source).st.heap client).tx = (fl.st.heap client).tx := by
          rw [tx_send, under]
          exact if_neg same
        have left : (fl.send source).calls source = some { frame := frame, owed := rest } := by
          rw [send, under]
          exact Function.update_self ..
        obtain ⟨turns, later, turn, queue⟩ := inductionHypothesis (fl.send source)
          ((List.mem_cons.mp owes).resolve_left same) left
        exact ⟨turns + 1, later, turn, queue.trans kept⟩

/-- Left to itself, a call pushes its frame to each of its clients. -/
theorem pushes_to (source client : Nat) (frame : Stamped) (owed : List Nat)
    (owes : client ∈ owed) (under : fl.calls source = some { frame := frame, owed := owed }) :
    ∃ turns, ((run step fl (List.replicate turns (.send source))).st.heap client).tx =
      (fl.st.heap client).tx.push frame := by
  obtain ⟨turns, rest, turn, queue⟩ := fl.comes_to source client frame owed owes under
  refine ⟨turns + 1, ?_⟩
  rw [List.replicate_succ', run_append]
  show ((send _ source).st.heap client).tx = _
  rw [tx_send, turn, queue]
  exact if_pos rfl

/-! ### A call nothing interrupts -/

/-- A call's loop, run to its end, is the fan-out. -/
theorem run_sends (source : Nat) (frame : Stamped) (owed : List Nat)
    (under : fl.calls source = some { frame := frame, owed := owed }) :
    run step fl (List.replicate (owed.length + 1) (.send source)) =
      { fl with
        st := fl.st.fanOut frame.message.key.isIncremental frame owed
        calls := Function.update fl.calls source none } := by
  induction owed generalizing fl with
  | nil =>
      show fl.send source = _
      rw [send, under]
      rfl
  | cons client rest inductionHypothesis =>
      have first : fl.send source =
          { fl with
            st := fl.st.modifyClient client (·.forward frame.message.key.isIncremental frame)
            calls := Function.update fl.calls source (some { frame := frame, owed := rest }) } := by
        rw [send, under]
      rw [List.length_cons, List.replicate_succ, run_cons]
      show run step (fl.send source) _ = _
      have owing : (fl.send source).calls source = some { frame := frame, owed := rest } := by
        rw [first]
        exact Function.update_self ..
      rw [inductionHypothesis (fl.send source) owing, first]
      simp only [Function.update_idem]
      rfl

/-- The critical section followed at once by its sends is `on_update` as one step. -/
theorem run_call {now : Nat} {message : Message} {e : SubEntry Stamped}
    (ready : fl.calls message.source = none) (found : fl.st.getEntry message.key = some e)
    (accepts : e.Accepts message.key message.source message.seq) :
    (run step fl (.decide now message ::
      List.replicate (e.subscribers.length + 1) (.send message.source))).st =
      fl.st.onUpdate now message.source message.key message.seq (fl.stamp message) := by
  obtain ⟨delivers, cloned⟩ := delivers_of_accepts now found accepts
  obtain ⟨opened, -⟩ := decide_of_accepts now found accepts ready
  rw [run_cons, step, run_sends _ _ (fl.stamp message) e.subscribers
    (by rw [opened, Function.update_self])]
  simp only [decide, ready, Option.isSome_none, Bool.false_eq_true, if_false, delivers, if_true,
    AppState.onUpdate, cloned]
  rfl

end Floor

end Wsarb
