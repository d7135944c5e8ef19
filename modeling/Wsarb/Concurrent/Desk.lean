import Wsarb.State.Standing

/-!
Owns registration taken apart: `subscribe` writes the client's own set, then visits the
entry, then broadcasts; `detach` visits the entry, then broadcasts, then removes the entry.
Each client's calls follow each other, the calls of different clients interleave in any
order, and traffic falls anywhere between. A call that nothing interrupts is the operation
as one step.

Does not own: what the interleaving does to a subscription.
-/

namespace Wsarb

open Wsarb.Library

/-- What is left of a client's call. -/
inductive Phase
  | idle
  /-- The own set is written, the entry not yet visited. -/
  | entering (key : SubKey)
  /-- `Subscribe` is due. -/
  | announcing (key : SubKey)
  /-- These keys are still to be detached from. -/
  | detaching (keys : List SubKey)
  /-- `Unsubscribe` is due. -/
  | withdrawing (key : SubKey) (rest : List SubKey)
  /-- The removal of the entry is due. -/
  | removing (key : SubKey) (rest : List SubKey)
  deriving DecidableEq

def Phase.leaves : Phase → List SubKey
  | .detaching keys => keys
  | .withdrawing _ rest | .removing _ rest => rest
  | _ => []

/-- The call has decided to drop the key upstream and has not removed its entry yet. -/
def Phase.Drops : Phase → SubKey → Prop
  | .withdrawing dropped _, key | .removing dropped _, key => dropped = key
  | _, _ => False

/-- The shared state with each client's call. -/
structure Desk where
  st : AppState.Live
  phase : Nat → Phase

inductive Desk.Move
  | register (ip : String)
  | subscribe (client : Nat) (key : SubKey)
  | unsubscribe (client : Nat) (key : SubKey)
  | cleanup (client : Nat)
  | proceed (now client : Nat)
  | traffic (op : Op)

namespace Desk

/-- Start-up: the sources, the pinned keys, and no client yet. -/
def start (ids : List Nat) (pins : List SubKey) : Desk where
  st := pins.foldl (fun st key => st.pin 0 key) (AppState.new (ids.map ({ id := · })))
  phase := fun _ => .idle

/-- What holds at start-up and is kept by a pin holds once the keys are pinned. -/
theorem start_keeps {P : AppState.Live → Prop} {ids : List Nat} (pins : List SubKey)
    (new : P (AppState.new (ids.map ({ id := · }))))
    (keeps : ∀ st key, P st → P (st.pin 0 key)) : P (start ids pins).st :=
  pins.foldlRecOn _ new fun st holds key _ => keeps st key holds

variable (desk : Desk)

def next (st : AppState.Live) (client : Nat) (phase : Phase) : Desk :=
  ⟨st, Function.update desk.phase client phase⟩

def subscribe (client : Nat) (key : SubKey) : Desk :=
  if desk.phase client = .idle ∧ key ∉ desk.st.subscriptions client then
    desk.next (desk.st.insertSubscription client key) client (.entering key)
  else desk

def unsubscribe (client : Nat) (key : SubKey) : Desk :=
  if desk.phase client = .idle ∧ key ∈ desk.st.subscriptions client then
    desk.next (desk.st.removeSubscription client key) client (.detaching [key])
  else desk

/-- A client's connection ends: `cleanup_client` takes it off the registry and its own set
from it. -/
def cleanup (client : Nat) : Desk :=
  if desk.phase client = .idle then
    desk.next ({ desk.st with clients := desk.st.clients.filter (· ≠ client) }.modifyClient client
      fun c => { c with subscriptions := [] }) client
      (.detaching (desk.st.subscriptions client))
  else desk

def proceed (now client : Nat) : Desk :=
  match desk.phase client with
  | .idle => desk
  | .entering key =>
      let (st, needUpstream) := desk.st.subscribeEntry now client key
      desk.next st client (if needUpstream then .announcing key else .idle)
  | .announcing key => desk.next (desk.st.broadcastCtrl (.subscribe key)) client .idle
  | .detaching [] => desk.next desk.st client .idle
  | .detaching (key :: rest) =>
      let (st, dropUpstream) := desk.st.detachEntry client key
      desk.next st client (if dropUpstream then .withdrawing key rest else .detaching rest)
  | .withdrawing key rest =>
      desk.next (desk.st.broadcastCtrl (.unsubscribe key)) client (.removing key rest)
  | .removing key rest => desk.next (desk.st.removeEntry key) client (.detaching rest)

def step (desk : Desk) : Move → Desk
  | .register ip => { desk with st := (desk.st.registerClient ip).1 }
  | .subscribe client key => desk.subscribe client key
  | .unsubscribe client key => desk.unsubscribe client key
  | .cleanup client => desk.cleanup client
  | .proceed now client => desk.proceed now client
  | .traffic op => if op.isTraffic then { desk with st := desk.st.step op } else desk

def Quiescent (desk : Desk) : Prop := ∀ client, desk.phase client = .idle

/-! ### Whose call a move belongs to -/

/-- A client whose call enters a new phase; the others' calls are as they were. -/
theorem phase_next (st : AppState.Live) (client other : Nat) (phase : Phase) :
    (desk.next st client phase).phase other =
      if other = client then phase else desk.phase other :=
  Function.update_apply ..

def Move.caller : Move → Option Nat
  | .subscribe client _ | .unsubscribe client _ | .cleanup client | .proceed _ client => some client
  | .register _ | .traffic _ => none

theorem phase_step_of_other (move : Move) {client : Nat} (other : move.caller ≠ some client) :
    (desk.step move).phase client = desk.phase client := by
  have apart : ∀ st who phase, some who ≠ some client →
      (desk.next st who phase).phase client = desk.phase client := by
    intro st who phase differs
    rw [phase_next, if_neg fun same => differs (congrArg some same.symm)]
  cases move with
  | register ip => rfl
  | subscribe who key =>
      show (desk.subscribe who key).phase client = _
      unfold subscribe
      split
      · exact apart _ _ _ other
      · rfl
  | unsubscribe who key =>
      show (desk.unsubscribe who key).phase client = _
      unfold unsubscribe
      split
      · exact apart _ _ _ other
      · rfl
  | cleanup who =>
      show (desk.cleanup who).phase client = _
      unfold cleanup
      split
      · exact apart _ _ _ other
      · rfl
  | proceed now who =>
      show (desk.proceed now who).phase client = _
      unfold proceed
      split
      · rfl
      all_goals exact apart _ _ _ other
  | traffic op =>
      show (if op.isTraffic then _ else desk).phase client = _
      split <;> rfl

theorem phase_run_of_others (moves : List Move) {client : Nat}
    (others : ∀ move ∈ moves, move.caller ≠ some client) :
    (run step desk moves).phase client = desk.phase client := by
  induction moves generalizing desk with
  | nil => rfl
  | cons move rest inductionHypothesis =>
      obtain ⟨here, later⟩ := List.forall_mem_cons.mp others
      rw [run_cons, inductionHypothesis (desk.step move) later, desk.phase_step_of_other move here]

/-! ### Calls nothing interrupts -/

section Uninterrupted

variable {desk} {now client : Nat} {key : SubKey}

/-- A `subscribe` that nothing interrupts is the operation as one step. -/
theorem run_subscribe (idle : desk.phase client = .idle) :
    (run step desk [.subscribe client key, .proceed now client, .proceed now client]).st =
      (desk.st.subscribe now client key).1 := by
  show (((desk.subscribe client key).proceed now client).proceed now client).st = _
  by_cases held : key ∈ desk.st.subscriptions client
  · have same : desk.subscribe client key = desk := if_neg fun both => both.2 held
    have still : desk.proceed now client = desk := by
      rw [proceed, idle]
    rw [same, still, still, AppState.subscribe, if_pos held]
  · rw [subscribe, if_pos ⟨idle, held⟩, AppState.subscribe, if_neg held]
    cases need : ((desk.st.insertSubscription client key).subscribeEntry now client key).2 <;>
      simp [proceed, next, need]

/-- A detaching loop that nothing interrupts is `detach` for each key in turn. -/
theorem run_detaching (keys : List SubKey) (desk : Desk)
    (leaves : desk.phase client = .detaching keys) :
    ∃ turns, (run step desk (List.replicate turns (.proceed now client))).st =
        keys.foldl (fun st key => st.detach client key) desk.st ∧
      (run step desk (List.replicate turns (.proceed now client))).phase client = .idle := by
  induction keys generalizing desk with
  | nil =>
      refine ⟨1, ?_⟩
      show (desk.proceed now client).st = _ ∧ (desk.proceed now client).phase client = _
      simp [proceed, leaves, next]
  | cons key rest inductionHypothesis =>
      cases drop : (desk.st.detachEntry client key).2 with
      | false =>
          obtain ⟨turns, st, phase⟩ := inductionHypothesis (desk.proceed now client)
            (by simp [proceed, leaves, next, drop])
          refine ⟨turns + 1, ?_, phase⟩
          rw [List.replicate_succ, run_cons]
          apply st.trans
          simp [proceed, leaves, next, drop, AppState.detach]
      | true =>
          obtain ⟨turns, st, phase⟩ := inductionHypothesis
            (((desk.proceed now client).proceed now client).proceed now client)
            (by simp [proceed, leaves, next, drop])
          refine ⟨turns + 3, ?_, phase⟩
          rw [List.replicate_succ, List.replicate_succ, List.replicate_succ, run_cons, run_cons,
            run_cons]
          apply st.trans
          simp [proceed, leaves, next, drop, AppState.detach]

/-- An `unsubscribe` that nothing interrupts is the operation as one step. -/
theorem run_unsubscribe (idle : desk.phase client = .idle) :
    ∃ turns, (run step desk (.unsubscribe client key ::
      List.replicate turns (.proceed now client))).st = (desk.st.unsubscribe client key).1 := by
  by_cases held : key ∈ desk.st.subscriptions client
  · have begun : desk.unsubscribe client key = desk.next (desk.st.removeSubscription client key)
        client (.detaching [key]) := if_pos ⟨idle, held⟩
    obtain ⟨turns, st, -⟩ := run_detaching [key] (desk.unsubscribe client key)
      (by rw [begun]; exact Function.update_self ..)
    refine ⟨turns, st.trans ?_⟩
    rw [begun, AppState.unsubscribe, if_pos held]
    rfl
  · have same : desk.unsubscribe client key = desk := if_neg fun both => held both.2
    refine ⟨0, ?_⟩
    show (desk.unsubscribe client key).st = _
    rw [same, AppState.unsubscribe, if_neg held]

/-- A `cleanup_client` that nothing interrupts is the operation as one step. -/
theorem run_cleanup (idle : desk.phase client = .idle) :
    ∃ turns, (run step desk (.cleanup client ::
      List.replicate turns (.proceed now client))).st = desk.st.cleanupClient client := by
  obtain ⟨turns, st, -⟩ := run_detaching (desk.st.subscriptions client) (desk.cleanup client)
    (by rw [cleanup, if_pos idle]; exact Function.update_self ..)
  refine ⟨turns, st.trans ?_⟩
  rw [cleanup, if_pos idle]
  rfl

end Uninterrupted

end Desk

end Wsarb
