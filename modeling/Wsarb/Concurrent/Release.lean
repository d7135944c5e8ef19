import Wsarb.Concurrent.Floor

/-!
Owns `deliver_snapshot` taken apart on the same floor: a critical section that attaches the
client, and after it one send for the snapshot and for each frame held behind it. The
client stands in the subscriber list before its snapshot stands in its queue, so a frame
forwarded meanwhile can come first; unless nothing is left to release to a client when a
frame of its key is decided for it.
-/

namespace Wsarb

open Wsarb.Library

/-- What is left of a `deliver_snapshot` call once its guard is released. -/
structure Release where
  key : SubKey
  client : Nat
  left : List Stamped

/-- A client's attachment by a delivered snapshot, as it happened. -/
structure Attachment where
  key : SubKey
  client : Nat
  /-- The snapshot and the frames held behind it. -/
  backlog : List Stamped
  /-- How many decisions had been made. -/
  since : Nat
  /-- How many frames the client had been queued. -/
  mark : Nat

/-- A floor with the `deliver_snapshot` calls under way on it, by task. -/
structure Handover where
  floor : Floor
  releases : Nat → Option Release
  attached : List Attachment

inductive Handover.Move
  | floor (move : Floor.Move)
  | attach (task client : Nat) (fetched : Fetched)
  | release (task : Nat)

namespace Handover

def start (st : AppState Stamped) : Handover := ⟨Floor.start st, fun _ => none, []⟩

variable (ho : Handover)

/-- The critical section of a `deliver_snapshot` call, run by a task that is free. -/
def attach (task client : Nat) (fetched : Fetched) : Handover :=
  if (ho.releases task).isSome then ho
  else
    let (st, backlog) := ho.floor.st.deliverSnapshotEntry fetched.key client fetched.source
      fetched.height (ho.floor.stamp fetched.message)
    match backlog with
    | none => { ho with floor := { ho.floor with st := st } }
    | some backlog =>
        { floor := { ho.floor with st := st }
          releases := Function.update ho.releases task
            (some { key := fetched.key, client := client, left := backlog })
          attached := ho.attached ++
            [{ key := fetched.key, client := client, backlog := backlog
               since := ho.floor.decided.length, mark := (ho.floor.st.log client).length }] }

/-- One turn of a call's release loop, or its end. -/
def release (task : Nat) : Handover :=
  match ho.releases task with
  | none => ho
  | some { key := _, client := _, left := [] } =>
      { ho with releases := Function.update ho.releases task none }
  | some { key := key, client := client, left := msg :: rest } =>
      let (c, sent) := (ho.floor.st.heap client).sendOrHangUp msg
      { ho with
        floor := { ho.floor with st := ho.floor.st.modifyClient client fun _ => c }
        releases := Function.update ho.releases task
          (if sent then some { key := key, client := client, left := rest } else none) }

def step (ho : Handover) : Move → Handover
  | .floor move => { ho with floor := ho.floor.step move }
  | .attach task client fetched => ho.attach task client fetched
  | .release task => ho.release task

/-- The client's queue never fills: there is room in it whatever comes next. -/
def HasRoom (client : Nat) (ho : Handover) (_ : Move) : Prop :=
  0 < (ho.floor.st.heap client).tx.room

instance (client : Nat) (ho : Handover) (move : Move) : Decidable (HasRoom client ho move) :=
  inferInstanceAs (Decidable (0 < _))

/-- Before a send queues the client a frame decided after one of its attachments to the
key, the whole backlog of the attachment is in its queue. -/
def BacklogFirst (client : Nat) (ho : Handover) : Move → Prop
  | .floor (.send source) =>
      ∀ frame rest, ho.floor.calls source = some { frame := frame, owed := client :: rest } →
        ∀ a ∈ ho.attached, a.client = client → a.key = frame.message.key →
          a.since ≤ frame.ticket →
          a.backlog.Sublist ((ho.floor.st.log client).drop a.mark)
  | _ => True

/-- A frame that is accepted while the client is attached finds nothing left to release to
the client on its key. -/
def Released (client : Nat) (ho : Handover) : Move → Prop
  | .floor (.decide _ message) =>
      ∀ e, ho.floor.st.getEntry message.key = some e →
        e.Accepts message.key message.source message.seq → client ∈ e.subscribers →
        ∀ task release, ho.releases task = some release → release.client = client →
          release.key = message.key → release.left = []
  | _ => True

/-! ### What a step does -/

/-- A turn of the fan-out adds at the end of a queue. -/
theorem log_floor (move : Floor.Move) (client : Nat) :
    ∃ more, (ho.step (.floor move)).floor.st.log client = ho.floor.st.log client ++ more := by
  cases move with
  | decide now message =>
      exact ⟨[], by rw [List.append_nil]; exact (ho.floor.decide_cases now message).1 client⟩
  | send source =>
      show ∃ more, ((ho.floor.send source).st.heap client).tx.accepted = _ ++ more
      rw [Floor.tx_send]
      split
      · split
        · exact ⟨_, Mailbox.accepted_push _ _⟩
        · exact ⟨[], (List.append_nil _).symm⟩
      · exact ⟨[], (List.append_nil _).symm⟩
  | idle op => exact ⟨[], by rw [List.append_nil]; exact ho.floor.st.log_idle op client⟩

/-- An attachment queues nothing and leaves the fan-outs alone; if it takes place, a free
task has the whole backlog left to send. -/
theorem attach_cases (task client : Nat) (fetched : Fetched) :
    (∀ other, (ho.attach task client fetched).floor.st.log other = ho.floor.st.log other) ∧
    (ho.attach task client fetched).floor.calls = ho.floor.calls ∧
    (ho.attach task client fetched).floor.decided = ho.floor.decided ∧
    ((ho.attach task client fetched).releases = ho.releases ∧
        (ho.attach task client fetched).attached = ho.attached ∨
      ∃ backlog, ho.releases task = none ∧
        (ho.attach task client fetched).releases = Function.update ho.releases task
          (some { key := fetched.key, client := client, left := backlog }) ∧
        (ho.attach task client fetched).attached = ho.attached ++
          [{ key := fetched.key, client := client, backlog := backlog
             since := ho.floor.decided.length, mark := (ho.floor.st.log client).length }]) := by
  have quiet : ∀ other, (ho.floor.st.deliverSnapshotEntry fetched.key client fetched.source
      fetched.height (ho.floor.stamp fetched.message)).1.log other = ho.floor.st.log other := by
    intro other
    unfold AppState.deliverSnapshotEntry
    split <;> rfl
  unfold attach
  cases busy : ho.releases task with
  | some release => exact ⟨fun _ => rfl, rfl, rfl, Or.inl ⟨rfl, rfl⟩⟩
  | none =>
      simp only [Option.isSome_none, Bool.false_eq_true, if_false]
      split
      · exact ⟨quiet, rfl, rfl, Or.inl ⟨rfl, rfl⟩⟩
      · exact ⟨quiet, rfl, rfl, Or.inr ⟨_, trivial, rfl, rfl⟩⟩

/-- A turn of a release loop leaves the fan-outs alone. -/
theorem release_floor (task : Nat) :
    (ho.release task).floor.calls = ho.floor.calls ∧
      (ho.release task).floor.decided = ho.floor.decided ∧
      (ho.release task).attached = ho.attached := by
  unfold release
  split <;> exact ⟨rfl, rfl, rfl⟩

/-- With room in the queue, a turn of a release loop moves one frame into it. -/
theorem release_of_left {task client : Nat} {key : SubKey} {msg : Stamped} {rest : List Stamped}
    (under : ho.releases task = some { key := key, client := client, left := msg :: rest })
    (room : 0 < (ho.floor.st.heap client).tx.room) :
    (ho.release task).releases = Function.update ho.releases task
        (some { key := key, client := client, left := rest }) ∧
      (ho.release task).floor.st.log client = ho.floor.st.log client ++ [msg] := by
  unfold release
  rw [under]
  simp only [Client.sendOrHangUp, if_pos room, if_true, true_and, AppState.log,
    AppState.heap_modifyClient, Mailbox.push_of_room msg room]

/-- A turn of a release loop adds at the end of a queue. -/
theorem log_release (task client : Nat) :
    ∃ more, (ho.release task).floor.st.log client = ho.floor.st.log client ++ more := by
  unfold release
  split
  · exact ⟨[], (List.append_nil _).symm⟩
  · exact ⟨[], (List.append_nil _).symm⟩
  · next key who msg rest under =>
      by_cases same : client = who
      · subst same
        by_cases room : 0 < (ho.floor.st.heap client).tx.room
        · refine ⟨[msg], ?_⟩
          simp only [Client.sendOrHangUp, if_pos room, AppState.log, AppState.heap_modifyClient,
            if_true, Mailbox.push_of_room msg room]
        · refine ⟨[], ?_⟩
          simp only [Client.sendOrHangUp, if_neg room, AppState.log, AppState.heap_modifyClient,
            if_true, List.append_nil]
      · refine ⟨[], ?_⟩
        simp only [AppState.log, AppState.heap_modifyClient, if_neg same, List.append_nil]

theorem releases_release_of_other {task other : Nat} (differs : other ≠ task) :
    (ho.release task).releases other = ho.releases other := by
  unfold release
  split
  · rfl
  · exact Function.update_of_ne differs ..
  · exact Function.update_of_ne differs ..

/-! ### The invariant -/

/-- No fan-out under way owes the client a frame of the attachment's key decided after it. -/
def NothingLive (ho : Handover) (client : Nat) (a : Attachment) : Prop :=
  ∀ source call, ho.floor.calls source = some call → call.frame.message.key = a.key →
    a.since ≤ call.frame.ticket → client ∉ call.owed

/-- The attachment's backlog is in the client's queue, or on its way there with nothing live
beside it. -/
def Served (ho : Handover) (client : Nat) (a : Attachment) : Prop :=
  a.backlog.Sublist ((ho.floor.st.log client).drop a.mark) ∨
    ∃ task release sent, ho.releases task = some release ∧ release.client = client ∧
      release.key = a.key ∧ a.backlog = sent ++ release.left ∧
      sent.Sublist ((ho.floor.st.log client).drop a.mark) ∧ ho.NothingLive client a

/-- Every attachment of the client is served. -/
structure InStep (client : Nat) (ho : Handover) : Prop where
  ticket_lt : ∀ source call, ho.floor.calls source = some call →
    call.frame.ticket < ho.floor.decided.length
  since_le : ∀ a ∈ ho.attached, a.since ≤ ho.floor.decided.length
  mark_le : ∀ a ∈ ho.attached, a.client = client → a.mark ≤ (ho.floor.st.log client).length
  served : ∀ a ∈ ho.attached, a.client = client → ho.Served client a

theorem inStep_start (client : Nat) (st : AppState Stamped) : InStep client (start st) where
  ticket_lt _ _ under := nomatch under
  since_le _ member := absurd member List.not_mem_nil
  mark_le _ member := absurd member List.not_mem_nil
  served _ member := absurd member List.not_mem_nil

variable {ho} {client : Nat}

/-- What has been served stays served while the queue grows, the release loops stand still
and no live frame is decided for the client. -/
theorem Served.grow {after : Handover} {a : Attachment} (served : ho.Served client a)
    {more : List Stamped} (log : after.floor.st.log client = ho.floor.st.log client ++ more)
    (loops : after.releases = ho.releases)
    (live : ∀ task release, ho.releases task = some release → release.client = client →
      release.key = a.key → release.left ≠ [] → ho.NothingLive client a →
      after.NothingLive client a) : after.Served client a := by
  have grown : ((ho.floor.st.log client).drop a.mark).Sublist
      ((after.floor.st.log client).drop a.mark) := by
    rw [log, List.drop_append]
    exact List.sublist_append_left _ _
  rcases served with done | ⟨task, release, sent, under, who, key, split, within, nothing⟩
  · exact Or.inl (done.trans grown)
  · by_cases through : release.left = []
    · left
      rw [split, through, List.append_nil]
      exact within.trans grown
    · right
      exact ⟨task, release, sent, loops ▸ under, who, key, split, within.trans grown,
        live task release under who key through nothing⟩

/-- A turn of the fan-out takes no decision back. -/
theorem decided_floor (ho : Handover) (move : Floor.Move) :
    ho.floor.decided.length ≤ (ho.step (.floor move)).floor.decided.length := by
  cases move with
  | decide now message =>
      show _ ≤ (ho.floor.decide now message).decided.length
      rcases (ho.floor.decide_cases now message).2 with ⟨-, decided⟩ | ⟨_, -, -, decided, -⟩
      · rw [decided]
      · rw [decided, List.length_append]
        exact Nat.le_add_right _ _
  | send sender =>
      show _ ≤ (ho.floor.send sender).decided.length
      rw [Floor.decided_send]
  | idle op => exact Nat.le_refl _

/-- A fan-out under way carries the ticket of a decision that was taken. -/
theorem InStep.ticket_lt_floor (inStep : InStep client ho) (move : Floor.Move) (source : Nat)
    (call : Call) (under : (ho.step (.floor move)).floor.calls source = some call) :
    call.frame.ticket < (ho.step (.floor move)).floor.decided.length := by
  have more := ho.decided_floor move
  cases move with
  | decide now message =>
      rcases (ho.floor.decide_cases now message).2 with ⟨calls, -⟩ | opens
      · exact (inStep.ticket_lt source call (calls ▸ under)).trans_le more
      · obtain ⟨owed, -, -, decided, calls⟩ := opens
        replace under : (ho.floor.decide now message).calls source = some call := under
        rw [calls, Function.update_apply] at under
        split at under
        · obtain rfl := Option.some.inj under
          show _ < (ho.floor.decide now message).decided.length
          rw [decided, List.length_append]
          exact Nat.lt_succ_self _
        · exact (inStep.ticket_lt source call under).trans_le more
  | send sender =>
      obtain ⟨before, calling, same, -⟩ := ho.floor.calls_send under
      rw [← same]
      exact (inStep.ticket_lt source before calling).trans_le more
  | idle op => exact inStep.ticket_lt source call under

theorem InStep.floor (inStep : InStep client ho) {move : Floor.Move}
    (released : ho.Released client (.floor move)) :
    InStep client (ho.step (.floor move)) := by
  obtain ⟨more, log⟩ := ho.log_floor move client
  have longer : (ho.floor.st.log client).length ≤
      ((ho.step (.floor move)).floor.st.log client).length := by
    rw [log, List.length_append]
    exact Nat.le_add_right _ _
  refine ⟨inStep.ticket_lt_floor move, ?_, ?_, ?_⟩
  · exact fun a member => (inStep.since_le a member).trans (ho.decided_floor move)
  · exact fun a member own => (inStep.mark_le a member own).trans longer
  · intro a member own
    apply (inStep.served a member own).grow log rfl
    intro task release loop who key unsent nothing source call under sameKey later
    cases move with
    | decide now message =>
        rcases (ho.floor.decide_cases now message).2 with ⟨calls, -⟩ | ⟨owed, -, goesTo, -, calls⟩
        · exact nothing source call (calls ▸ under) sameKey later
        · replace under : (ho.floor.decide now message).calls source = some call := under
          rw [calls, Function.update_apply] at under
          split at under
          · obtain rfl := Option.some.inj under
            -- By the condition the new frame does not go to a client still being served.
            intro goes
            obtain ⟨e, found, accepts, attached⟩ := goesTo client goes
            exact unsent (released e found accepts attached task release loop who
              (key.trans sameKey.symm))
          · exact nothing source call under sameKey later
    | send sender =>
        obtain ⟨before, calling, same, fewer⟩ := ho.floor.calls_send under
        rw [← same] at sameKey later
        exact fun owes => nothing source before calling sameKey later (fewer owes)
    | idle op => exact nothing source call under sameKey later

theorem InStep.attach (inStep : InStep client ho) (task who : Nat) (fetched : Fetched) :
    InStep client (ho.attach task who fetched) := by
  obtain ⟨quiet, calls, decided, cases⟩ := ho.attach_cases task who fetched
  have log : (ho.attach task who fetched).floor.st.log client =
      ho.floor.st.log client ++ [] := by
    rw [quiet, List.append_nil]
  have nothing : ∀ a, ho.NothingLive client a →
      (ho.attach task who fetched).NothingLive client a := by
    intro a nothing source call under
    exact nothing source call (calls ▸ under)
  rcases cases with ⟨releases, attached⟩ | ⟨backlog, free, releases, attached⟩
  · refine ⟨?_, ?_, ?_, ?_⟩
    · simpa only [calls, decided] using inStep.ticket_lt
    · simpa only [attached, decided] using inStep.since_le
    · simpa only [attached, quiet] using inStep.mark_le
    · intro a member own
      apply (inStep.served a (attached ▸ member) own).grow log releases
      exact fun _ _ _ _ _ _ => nothing a
  · refine ⟨by simpa only [calls, decided] using inStep.ticket_lt, ?_, ?_, ?_⟩
    · intro a member
      rw [attached] at member
      rw [decided]
      rcases List.mem_append.mp member with old | new
      · exact inStep.since_le a old
      · rw [List.mem_singleton.mp new]
    · intro a member own
      rw [attached] at member
      rw [quiet]
      rcases List.mem_append.mp member with old | new
      · exact inStep.mark_le a old own
      · obtain rfl := List.mem_singleton.mp new
        exact own ▸ Nat.le_refl _
    · intro a member own
      rw [attached] at member
      rcases List.mem_append.mp member with old | new
      · rcases inStep.served a old own with
          done | ⟨other, release, sent, under, who', key, split, within, still⟩
        · exact Or.inl (by rwa [quiet])
        · have differs : other ≠ task := by
            rintro rfl
            rw [free] at under
            cases under
          refine Or.inr
            ⟨other, release, sent, ?_, who', key, split, by rwa [quiet], nothing a still⟩
          rw [releases, Function.update_of_ne differs, under]
      · obtain rfl := List.mem_singleton.mp new
        refine Or.inr ⟨task, _, [], by rw [releases, Function.update_self], own, rfl, rfl,
          List.nil_sublist _, ?_⟩
        -- Every fan-out under way was decided before the attachment.
        intro source call under sameKey later
        rw [calls] at under
        exact absurd (inStep.ticket_lt source call under) (Nat.not_lt.mpr later)

theorem InStep.release (inStep : InStep client ho) (task : Nat)
    (room : 0 < (ho.floor.st.heap client).tx.room) : InStep client (ho.release task) := by
  obtain ⟨calls, decided, attached⟩ := ho.release_floor task
  obtain ⟨more, log⟩ := ho.log_release task client
  have grown : ∀ mark, ((ho.floor.st.log client).drop mark).Sublist
      (((ho.release task).floor.st.log client).drop mark) := by
    intro mark
    rw [log, List.drop_append]
    exact List.sublist_append_left _ _
  refine ⟨by simpa only [calls, decided] using inStep.ticket_lt,
    by simpa only [attached, decided] using inStep.since_le, ?_, ?_⟩
  · intro a member own
    rw [log, List.length_append]
    exact (inStep.mark_le a (attached ▸ member) own).trans (Nat.le_add_right _ _)
  · intro a member own
    rw [attached] at member
    rcases inStep.served a member own with
      done | ⟨other, release, sent, under, who, key, split, within, nothing⟩
    · exact Or.inl (done.trans (grown a.mark))
    · have nothing' : (ho.release task).NothingLive client a := by
        intro source call calling
        exact nothing source call (calls ▸ calling)
      by_cases same : other = task
      · subst same
        obtain ⟨releaseKey, releaseClient, left⟩ := release
        obtain rfl : releaseClient = client := who
        cases left with
        | nil =>
            left
            rw [split, List.append_nil]
            exact within.trans (grown a.mark)
        | cons msg rest =>
            obtain ⟨releases, queued⟩ := ho.release_of_left under room
            refine Or.inr ⟨other, ⟨releaseKey, releaseClient, rest⟩, sent ++ [msg],
              by rw [releases, Function.update_self], rfl, key, ?_, ?_, nothing'⟩
            · rw [split, List.append_assoc]
              rfl
            · rw [queued, List.drop_append_of_le_length (inStep.mark_le a member own)]
              exact within.append (List.Sublist.refl [msg])
      · refine Or.inr ⟨other, release, sent, ?_, who, key, split, within.trans (grown a.mark),
          nothing'⟩
        rw [ho.releases_release_of_other same, under]

theorem InStep.step (inStep : InStep client ho) (move : Move) (room : ho.HasRoom client move)
    (released : ho.Released client move) : InStep client (ho.step move) := by
  cases move with
  | floor move => exact inStep.floor released
  | attach task who fetched => exact inStep.attach task who fetched
  | release task => exact inStep.release task room

/-- In step, a live frame is sent behind every backlog decided for release before it. -/
theorem InStep.backlogFirst (inStep : InStep client ho) (move : Move) :
    ho.BacklogFirst client move := by
  cases move with
  | floor move =>
      cases move with
      | send source =>
          intro frame rest under a member own key later
          rcases inStep.served a member own with
            done | ⟨task, release, sent, loop, who, sameKey, split, within, nothing⟩
          · exact done
          · exact absurd List.mem_cons_self (nothing source _ under key.symm later)
      | decide now message => trivial
      | idle op => trivial
  | attach task who fetched => trivial
  | release task => trivial

/-- A client whose queue never fills is queued each snapshot and its whole backlog before
any frame forwarded after the attachment, in every run in which no frame is decided for it
while a backlog is still being released to it. -/
theorem backlogFirst_of_released (st : AppState Stamped) (client : Nat) (moves : List Move)
    (room : Throughout step (HasRoom client) (start st) moves)
    (released : Throughout step (Released client) (start st) moves) :
    Throughout step (BacklogFirst client) (start st) moves := by
  have keeps : ∀ ho move, InStep client ho → HasRoom client ho move ∧ Released client ho move →
      InStep client (ho.step move) :=
    fun _ move inStep meets => inStep.step move meets.1 meets.2
  exact throughout_of_invariant keeps (fun _ move inStep _ => inStep.backlogFirst move) moves
    (inStep_start client st) (room.and released)

/-! ### Live frames that come first -/

theorem run_floor (ho : Handover) (moves : List Floor.Move) :
    run step ho (moves.map .floor) = { ho with floor := run Floor.step ho.floor moves } := by
  induction moves generalizing ho with
  | nil => rfl
  | cons move rest inductionHypothesis =>
      rw [List.map_cons, run_cons, inductionHypothesis]
      rfl

/-- A frame decided for a client whose backlog is not yet in its queue can come first. -/
theorem precedes_of_not_queued {a : Attachment} {now : Nat} {message : Message}
    (member : a ∈ ho.attached) (own : a.client = client) (routed : message.key = a.key)
    (since : a.since ≤ ho.floor.decided.length)
    (missing : ¬ a.backlog.Sublist ((ho.floor.st.log client).drop a.mark))
    (ready : ho.floor.calls message.source = none) {e : SubEntry Stamped}
    (found : ho.floor.st.getEntry message.key = some e)
    (accepts : e.Accepts message.key message.source message.seq)
    (attached : client ∈ e.subscribers) :
    ∃ moves, ¬ Throughout step (BacklogFirst client) ho
      (.floor (.decide now message) :: moves) := by
  obtain ⟨opened, tx⟩ := Floor.decide_of_accepts now found accepts ready
  obtain ⟨turns, rest, turn, queue⟩ := (ho.floor.decide now message).comes_to message.source
    client (ho.floor.stamp message) e.subscribers attached (by rw [opened, Function.update_self])
  refine ⟨(List.replicate turns (.send message.source)).map .floor ++
    [.floor (.send message.source)], fun always => missing ?_⟩
  have last := ((throughout_append step _ _ _ _).mp always.2).2.1
  rw [run_floor] at last
  have first := last (ho.floor.stamp message) rest turn a member own routed.symm since
  have log : (run Floor.step (ho.floor.decide now message)
      (List.replicate turns (.send message.source))).st.log client = ho.floor.st.log client := by
    rw [AppState.log, queue, tx]
    rfl
  rw [← log]
  exact first

/-! ### A call nothing interrupts -/

/-- A release loop, run to its end or to the first frame that does not fit, is the loop of
`deliver_snapshot`. -/
theorem run_releases (task client : Nat) (key : SubKey) (left : List Stamped) (ho : Handover)
    (under : ho.releases task = some { key := key, client := client, left := left }) :
    (run step ho (List.replicate (left.length + 1) (.release task))).floor =
      { ho.floor with st := ho.floor.st.release client left } := by
  have idle : ∀ turns (ho : Handover), ho.releases task = none →
      run step ho (List.replicate turns (.release task)) = ho := by
    intro turns
    induction turns with
    | zero => exact fun _ _ => rfl
    | succ turns inductionHypothesis =>
        intro ho free
        have same : ho.step (.release task) = ho := by
          show ho.release task = ho
          rw [release, free]
        rw [List.replicate_succ, run_cons, same, inductionHypothesis ho free]
  induction left generalizing ho with
  | nil =>
      show (ho.release task).floor = _
      rw [release, under]
      rfl
  | cons msg rest inductionHypothesis =>
      rw [List.length_cons, List.replicate_succ, run_cons]
      show (run step (ho.release task) _).floor = _
      by_cases room : 0 < (ho.floor.st.heap client).tx.room
      · rw [inductionHypothesis (ho.release task)
          (by rw [(ho.release_of_left under room).1, Function.update_self])]
        simp only [release, under, AppState.release, Client.sendOrHangUp, if_pos room, if_true]
      · rw [idle _ (ho.release task)]
        · simp only [release, under, AppState.release, Client.sendOrHangUp, if_neg room,
            Bool.false_eq_true, if_false]
        · simp only [release, under, Client.sendOrHangUp, if_neg room, Bool.false_eq_true,
            if_false, Function.update_self]

/-- The critical section followed at once by its sends is `deliver_snapshot` as one step. -/
theorem run_attach (ho : Handover) (task client : Nat) (fetched : Fetched)
    (free : ho.releases task = none) :
    ∃ turns, (run step ho (.attach task client fetched ::
      List.replicate turns (.release task))).floor.st =
      ho.floor.st.deliverSnapshot fetched.key client fetched.source fetched.height
        (ho.floor.stamp fetched.message) := by
  cases handed : (ho.floor.st.deliverSnapshotEntry fetched.key client fetched.source
      fetched.height (ho.floor.stamp fetched.message)).2 with
  | none =>
      refine ⟨0, ?_⟩
      show (ho.attach task client fetched).floor.st = _
      simp only [attach, free, Option.isSome_none, Bool.false_eq_true, if_false, handed,
        AppState.deliverSnapshot]
  | some backlog =>
      refine ⟨backlog.length + 1, ?_⟩
      rw [run_cons]
      show (run step (ho.attach task client fetched) _).floor.st = _
      rw [run_releases task client fetched.key backlog]
      · simp only [attach, free, Option.isSome_none, Bool.false_eq_true, if_false, handed,
          AppState.deliverSnapshot]
      · simp only [attach, free, Option.isSome_none, Bool.false_eq_true, if_false, handed,
          Function.update_self]

/-! ### Runs -/

/-- Client 2 is parked behind client 1, at height 10, with one frame held. -/
def waiting : List Move :=
  [.floor (.idle (.subscribe 1 1 (.l4Book "BTC"))),
    .floor (.decide 2 (.l4Snapshot 0 "BTC" 10 "book 10")),
    .floor (.send 0), .floor (.send 0),
    .floor (.idle (.subscribe 3 2 (.l4Book "BTC"))),
    .floor (.decide 4 (.l4Block 0 "BTC" 11 "block 11")),
    .floor (.send 0), .floor (.send 0)]

/-- The next frame is decided once the backlog is through. -/
theorem backlogFirst_of_released_in_turn :
    Throughout step (BacklogFirst 2) (start (AppState.new [{ id := 0 }, { id := 1 }])) (waiting ++
      [.attach 0 2 ⟨1, .l4Book "BTC", 10, "book 10", rfl⟩, .release 0, .release 0,
        .floor (.decide 5 (.l4Block 0 "BTC" 12 "block 12")),
        .floor (.send 0), .floor (.send 0)]) := by
  apply backlogFirst_of_released (AppState.new [{ id := 0 }, { id := 1 }]) 2 _ (by decide)
  refine ⟨trivial, ?_, trivial, trivial, trivial, ?_, trivial, trivial, trivial, trivial, trivial,
    ?_, trivial, trivial, trivial⟩
  · intro e found accepts attached task release under
    cases under
  · intro e found accepts attached task release under
    cases under
  · intro e found accepts attached task release under
    by_cases first : task = 0
    · subst first
      cases under
      exact fun _ _ => rfl
    · have apart : ∀ ho : Handover, (ho.step (.release 0)).releases task = ho.releases task :=
        fun ho => ho.releases_release_of_other first
      rw [apart, apart] at under
      have free : (none : Option Release) = some release :=
        (Function.update_of_ne first _ (fun _ => none)).symm.trans under
      cases free

/-- The client is attached, and a frame decided then is sent to it before its snapshot. -/
theorem live_frame_before_snapshot :
    ¬ ∀ (st : AppState Stamped) (client : Nat) (moves : List Move),
      Throughout step (HasRoom client) (start st) moves →
      Throughout step (BacklogFirst client) (start st) moves := by
  intro always
  have first := always (AppState.new [{ id := 0 }, { id := 1 }]) 2 (waiting ++
    [.attach 0 2 ⟨1, .l4Book "BTC", 10, "book 10", rfl⟩,
      .floor (.decide 5 (.l4Block 0 "BTC" 12 "block 12")),
      .floor (.send 0)] ++ [.floor (.send 0)]) (by decide)
  have last := ((throughout_append step _ _ _ _).mp first).2.1
  have queued := last _ _ rfl _ (List.mem_append_right [] (List.mem_singleton.mpr rfl)) rfl rfl
    (by decide)
  exact absurd queued (by decide)

end Handover

end Wsarb
