import Wsarb.Stream.Checked

/-!
Owns what a client gets of a key beside what was let through on it: the snapshots fetched for the
client apart, the frames of the key queued to it are some of those let through, in the order in
which they were, and none more often. Nothing is repeated, nothing is reordered, however the client
is parked, served and parked again.

Operations are taken one at a time: a frame is queued to everybody it goes to, and a backlog
handed over, before the next operation decides anything.

Does not own: which of the frames a client gets, or what becomes of their order where operations
overlap.
-/

namespace Wsarb

open Wsarb.Library AppState

/-- The shared state with the frames let through on a key since a client's handle was handed out,
and the frames of it queued to the client: whether each was fetched for it, and the frame. -/
structure Reel where
  st : Live
  forwarded : List Message
  queued : List (Bool × Message)

namespace Reel

def start (sources : List Source) : Reel := ⟨AppState.new sources, [], []⟩

/-- The frames of the key an operation queues to the client. What a delivery queues opens with the
snapshot fetched. -/
def taped (st : Live) (key : SubKey) (client : Nat) (op : Op) : List (Bool × Message) :=
  (match op, st.queued client op with
    | .deliverSnapshot .., snapshot :: backlog => (true, snapshot) :: backlog.map (false, ·)
    | _, items => items.map (false, ·)).filter (·.2.key = key)

def begins (client : Nat) (reel : Reel) : Op → Bool
  | .registerClient _ => client = reel.st.nextClientId
  | _ => false

/-- One operation, written down from when the client's handle is handed out. -/
def step (key : SubKey) (client : Nat) (reel : Reel) (op : Op) : Reel :=
  if reel.begins client op then ⟨reel.st.step op, [], []⟩
  else
    { st := reel.st.step op
      forwarded := reel.forwarded ++ reel.st.forwardedBy key op
      queued := reel.queued ++ taped reel.st key client op }

/-- The frames queued to the client from the stream of the key, not fetched for it. -/
def streamed (queued : List (Bool × Message)) : List Message :=
  (queued.filter fun item => !item.1).map (·.2)

variable {st : Live} {key : SubKey} {client : Nat} {reel : Reel} {op : Op}

theorem begins_iff : reel.begins client op = true ↔ reel.st.Registers client op := by
  constructor
  · intro begins
    cases op with
    | registerClient ip => exact ⟨⟨ip, rfl⟩, of_decide_eq_true begins⟩
    | _ => cases begins
  · intro registers
    obtain ⟨⟨ip, rfl⟩, same⟩ := registers
    exact decide_eq_true same

@[simp] theorem st_step (key : SubKey) (client : Nat) (reel : Reel) (op : Op) :
    (step key client reel op).st = reel.st.step op := by
  unfold step
  split <;> rfl

theorem step_of_begins (begins : reel.begins client op = true) :
    step key client reel op = ⟨reel.st.step op, [], []⟩ := if_pos begins

theorem step_of_goes_on (goesOn : ¬ reel.begins client op = true) :
    step key client reel op =
      ⟨reel.st.step op, reel.forwarded ++ reel.st.forwardedBy key op,
        reel.queued ++ taped reel.st key client op⟩ := if_neg goesOn

/-! ### What one operation queues -/

theorem streamed_append (first second : List (Bool × Message)) :
    streamed (first ++ second) = streamed first ++ streamed second := by
  rw [streamed, List.filter_append, List.map_append, streamed, streamed]

/-- The reel names what is queued. -/
theorem map_taped (st : Live) (key : SubKey) (client : Nat) (op : Op) :
    (taped st key client op).map (·.2) = (st.queued client op).filter (·.key = key) := by
  have plain (items : List Message) : ((items.map fun item => (false, item)).filter
      (·.2.key = key)).map (·.2) = items.filter (·.key = key) := by
    rw [List.filter_map, List.map_map]
    exact List.map_id _
  unfold taped
  split
  · next snapshot backlog queued =>
      rw [queued, List.filter_cons, List.filter_cons]
      split <;> simp [plain]
  · exact plain _

theorem taped_of_idle (idle : st.queued client op = []) : taped st key client op = [] :=
  List.map_eq_nil_iff.mp ((map_taped st key client op).trans (by rw [idle]; rfl))

/-- What comes from the stream is the one frame let through, or a part of what was held behind the
client, which is on the entry from then on; or it is nothing. -/
inductive FromStream (st : Live) (key : SubKey) (client : Nat) (op : Op) : List Message → Prop
  | nothing : FromStream st key client op []
  | heard {message : Message} (goesOut : st.forwardedBy key op = [message])
      (stays : ∀ e, (st.step op).getEntry key = some e → client ∈ e.subscribers) :
      FromStream st key client op [message]
  | released {e : SubEntry Message} {p : Pending Message} {items : List Message}
      (before : st.getEntry key = some e) (waits : p ∈ e.pending) (own : p.client = client)
      (part : items.Sublist (p.held.map (·.2.2)))
      (silent : st.forwardedBy key op = [])
      (stays : ∀ e, (st.step op).getEntry key = some e → client ∈ e.subscribers) :
      FromStream st key client op items

/-- Nobody is queued a frame twice. -/
theorem length_queued_onUpdate (seated : st.Seated) (client now : Nat) (message : Message) :
    (st.queued client (.onUpdate now message)).length ≤ 1 := by
  have once : ((st.entryOr now message.key).subscribers).Nodup :=
    (List.nodup_append.mp (seated.used now message.key)).1
  have listed : (st.recipients now message.source message.key message.seq message).count client ≤
      1 := by
    rw [recipients, SubEntry.update_recipients]
    split
    · exact List.nodup_iff_count_le_one.mp once client
    · exact Nat.zero_le 1
  rw [AppState.queued, List.length_take, offered, List.length_replicate]
  omega

theorem fromStream_heard (seated : st.Seated) (now : Nat) (message : Message) :
    FromStream st key client (.onUpdate now message)
      (streamed (taped st key client (.onUpdate now message))) := by
  have plain : streamed (taped st key client (.onUpdate now message)) =
      (st.queued client (.onUpdate now message)).filter (·.key = key) := by
    rw [← map_taped, streamed, List.filter_eq_self.mpr]
    intro item member
    obtain ⟨_, _, rfl⟩ := List.mem_map.mp (List.mem_of_mem_filter member)
    rfl
  rw [plain]
  cases queued : (st.queued client (.onUpdate now message)).filter (·.key = key) with
  | nil => exact .nothing
  | cons first rest =>
      have listed : first ∈ (st.queued client (.onUpdate now message)).filter (·.key = key) :=
        queued ▸ List.mem_cons_self
      obtain ⟨member, routed⟩ := List.mem_filter.mp listed
      obtain ⟨rfl, e, found, accepts, attached⟩ := st.mem_queued_onUpdate member
      obtain rfl : first.key = key := of_decide_eq_true routed
      have alone : rest = [] := by
        have few := length_queued_onUpdate seated client now first
        have fewer := List.length_filter_le (fun item : Message => decide (item.key = first.key))
          (st.queued client (.onUpdate now first))
        rw [queued, List.length_cons] at fewer
        exact List.length_eq_zero_iff.mp (by omega)
      rw [alone]
      refine .heard (forwardedBy_onUpdate_iff.mpr ⟨rfl, ?_⟩) fun after found' => ?_
      · rwa [entryOr_of_some found]
      · rw [getEntry_step, entryAfter, if_pos rfl] at found'
        obtain rfl := Option.some.inj found'
        rwa [SubEntry.update_subscribers, entryOr_of_some found]

/-- A delivery streams the part of what was held that it releases. -/
theorem streamed_delivered {who : Nat} {fetched : Fetched} {snapshot : Message}
    {backlog : List Message}
    (queued : st.queued client (.deliverSnapshot who fetched) = snapshot :: backlog) :
    streamed (taped st key client (.deliverSnapshot who fetched)) =
      backlog.filter (·.key = key) := by
  have released : (((backlog.map fun item => (false, item)).filter (·.2.key = key)).filter
      fun item => !item.1) = (backlog.map fun item => (false, item)).filter (·.2.key = key) := by
    refine List.filter_eq_self.mpr fun item member => ?_
    obtain ⟨_, _, rfl⟩ := List.mem_map.mp (List.mem_of_mem_filter member)
    rfl
  have items : ((backlog.map fun item => (false, item)).filter (·.2.key = key)).map (·.2) =
      backlog.filter (·.key = key) := by
    rw [List.filter_map, List.map_map]
    exact List.map_id _
  unfold streamed taped
  rw [queued]
  dsimp only
  rw [List.filter_cons]
  split
  · rw [List.filter_cons_of_neg (by simp), released, items]
  · rw [released, items]

theorem fromStream_delivered (tagged : HeldTagged st) (who : Nat) (fetched : Fetched) :
    FromStream st key client (.deliverSnapshot who fetched)
      (streamed (taped st key client (.deliverSnapshot who fetched))) := by
  cases queued : st.queued client (.deliverSnapshot who fetched) with
  | nil =>
      rw [taped_of_idle queued]
      exact .nothing
  | cons snapshot backlog =>
      rw [streamed_delivered queued]
      have listed : snapshot ∈ st.queued client (.deliverSnapshot who fetched) :=
        queued ▸ List.mem_cons_self
      obtain ⟨rfl, e, p, found, parked, -⟩ := st.queued_deliverSnapshot listed
      by_cases routed : fetched.key = key
      · subst routed
        have part : backlog.Sublist (p.held.map (·.2.2)) := by
          have whole := queued_deliverSnapshot_eq found parked
          rw [queued] at whole
          cases room : (st.heap client).tx.room with
          | zero => simp [room] at whole
          | succ room =>
              rw [room, List.take_succ_cons] at whole
              rw [(List.cons.inj whole).2]
              exact (List.take_sublist _ _).trans (List.filter_sublist.map _)
        refine .released found (List.mem_of_find?_eq_some parked)
          (by simpa using List.find?_some parked) (List.filter_sublist.trans part) rfl
          fun after found' => ?_
        rw [getEntry_step, entryAfter, if_pos rfl, found] at found'
        obtain rfl := Option.some.inj found'
        exact (mem_rebuild_subscribers _ _ _ _ _ _).mpr
          (.inr ⟨rfl, (isRebuilding_iff e client).mpr ⟨p, parked⟩⟩)
      · have apart : (Op.deliverSnapshot client fetched).carries ≠ some key := fun same =>
          routed (Option.some.inj same)
        have none' : backlog.filter (·.key = key) = [] :=
          List.filter_eq_nil_iff.mpr fun item member => by
            have other := key_ne_of_apart tagged apart (queued ▸ List.mem_cons_of_mem _ member)
            simpa using other
        rw [none']
        exact .nothing

theorem fromStream (key : SubKey) (client : Nat) (seated : st.Seated) (tagged : HeldTagged st)
    (op : Op) : FromStream st key client op (streamed (taped st key client op)) := by
  cases op with
  | onUpdate now message => exact fromStream_heard seated now message
  | deliverSnapshot who fetched => exact fromStream_delivered tagged who fetched
  | _ =>
      rw [taped_of_idle (queued_of_carries_none rfl client)]
      exact .nothing

/-! ### Over a run -/

/-- What was queued from the stream, and what is held for the client still, are in turn some of what
was let through. -/
structure Spooled (key : SubKey) (client : Nat) (reel : Reel) : Prop where
  seated : reel.st.Seated
  tagged : HeldTagged reel.st
  told : reel.queued.map (·.2) = reel.st.keyLog key client
  plain : (streamed reel.queued).Sublist reel.forwarded
  parked : ∀ e, reel.st.getEntry key = some e → ∀ p ∈ e.pending, p.client = client →
    (streamed reel.queued ++ p.held.map (·.2.2)).Sublist reel.forwarded

namespace Spooled

theorem start (key : SubKey) (client : Nat) (sources : List Source) :
    Spooled key client (Reel.start sources) where
  seated := seated_new sources
  tagged := heldTagged_new sources
  told := rfl
  plain := List.Sublist.refl _
  parked := fun _ found => nomatch found

/-- The queue on record is the queue. -/
theorem told_step (holds : Spooled key client reel) (op : Op) :
    (Reel.step key client reel op).queued.map (·.2) =
      (Reel.step key client reel op).st.keyLog key client := by
  rw [st_step]
  by_cases begins : reel.begins client op = true
  · rw [step_of_begins begins, keyLog, log_step_of_registers _ (begins_iff.mp begins)]
    rfl
  · rw [step_of_goes_on begins, keyLog, log_step _ op client (mt begins_iff.mpr begins),
      List.map_append, map_taped, holds.told, keyLog, List.filter_append]

/-- What is held for the client after an operation follows what was queued from the stream. -/
theorem parked_step (holds : Spooled key client reel) (op : Op) {e : SubEntry Message}
    (found : (reel.st.step op).getEntry key = some e) {p : Pending Message}
    (member : p ∈ e.pending) (own : p.client = client) :
    (streamed reel.queued ++ p.held.map (·.2.2)).Sublist
      (reel.forwarded ++ reel.st.forwardedBy key op) := by
  have longer : ∀ items : List Message, items.Sublist reel.forwarded →
      items.Sublist (reel.forwarded ++ reel.st.forwardedBy key op) := fun _ part =>
    part.trans (List.sublist_append_left _ _)
  cases waits found member with
  | stayed before listed _ => exact longer _ (holds.parked _ before _ listed own)
  | @piled now message e p before listed goesOut _ =>
      rw [goesOut]
      show (streamed reel.queued ++ (p.held ++
        [(message.source, message.seq.stamp, message)]).map (·.2.2)).Sublist _
      rw [List.map_append, ← List.append_assoc]
      exact (holds.parked _ before _ listed own).append (List.Sublist.refl [message])
  | joined =>
      rw [List.map_nil, List.append_nil]
      exact longer _ holds.plain
  | orphaned =>
      rw [List.map_nil, List.append_nil]
      exact longer _ holds.plain

/-- A handle that is handed out stands nowhere yet. -/
theorem not_parked_of_begins (holds : Spooled key client reel)
    (begins : reel.begins client op = true) {e : SubEntry Message}
    (found : (reel.st.step op).getEntry key = some e) {p : Pending Message}
    (member : p ∈ e.pending) : p.client ≠ client := by
  intro own
  obtain ⟨⟨ip, rfl⟩, fresh⟩ := begins_iff.mp begins
  have waits : e.isRebuilding client = true :=
    (e.isRebuilding_iff_mem client).mpr ⟨p, member, own⟩
  have old := holds.seated.old_of_stands found (Or.inr waits)
  omega

theorem step (holds : Spooled key client reel) (op : Op) (handed : reel.st.Handed op) :
    Spooled key client (Reel.step key client reel op) := by
  have seated : (Reel.step key client reel op).st.Seated := by
    rw [st_step]
    exact seated_step holds.seated op handed
  have tagged : HeldTagged (Reel.step key client reel op).st := by
    rw [st_step]
    exact heldTagged_step holds.tagged op
  have told := holds.told_step op
  by_cases begins : reel.begins client op = true
  · rw [step_of_begins begins] at seated tagged told ⊢
    refine ⟨seated, tagged, told, List.Sublist.refl _, ?_⟩
    intro e found p member own
    exact absurd own (holds.not_parked_of_begins begins found member)
  · rw [step_of_goes_on begins] at seated tagged told ⊢
    have shape : streamed (reel.queued ++ taped reel.st key client op) =
        streamed reel.queued ++ streamed (taped reel.st key client op) := streamed_append _ _
    have came := fromStream key client holds.seated holds.tagged op
    have plain : (streamed (reel.queued ++ taped reel.st key client op)).Sublist
        (reel.forwarded ++ reel.st.forwardedBy key op) := by
      rw [shape]
      generalize streamed (taped reel.st key client op) = items at came
      cases came with
      | nothing =>
          rw [List.append_nil]
          exact holds.plain.trans (List.sublist_append_left _ _)
      | heard goesOut stays =>
          rw [goesOut]
          exact holds.plain.append (List.Sublist.refl _)
      | released before waits own part silent stays =>
          have earlier := ((List.Sublist.refl _).append part).trans
            (holds.parked _ before _ waits own)
          exact earlier.trans (List.sublist_append_left _ _)
    refine ⟨seated, tagged, told, plain, ?_⟩
    intro e found p member own
    have apart : client ∉ e.subscribers := fun attached =>
      (List.nodup_append.mp (seated.once key e found)).2.2 client attached client
        (List.mem_map.mpr ⟨p, member, own⟩) rfl
    show (streamed (reel.queued ++ taped reel.st key client op) ++ _).Sublist _
    rw [shape]
    generalize streamed (taped reel.st key client op) = items at came
    cases came with
    | nothing =>
        rw [List.append_nil]
        exact holds.parked_step op found member own
    | heard _ stays => exact absurd (stays e found) apart
    | released _ _ _ _ _ stays => exact absurd (stays e found) apart

end Spooled

/-- What is on record as fetched for the client is the snapshot handed to it. -/
theorem fetched_of_taped {item : Bool × Message} (member : item ∈ taped st key client op)
    (marked : item.1 = true) :
    ∃ fetched, op = .deliverSnapshot client fetched ∧ item.2 = fetched.message := by
  have listed := List.mem_of_mem_filter member
  split at listed
  · next who fetched snapshot backlog queued =>
      rcases List.mem_cons.mp listed with rfl | later
      · have first : snapshot ∈ st.queued client (.deliverSnapshot who fetched) :=
          queued ▸ List.mem_cons_self
        obtain ⟨rfl, -⟩ := st.queued_deliverSnapshot first
        exact ⟨fetched, rfl, queued_deliverSnapshot_cons queued⟩
      · obtain ⟨_, _, rfl⟩ := List.mem_map.mp later
        cases marked
  · obtain ⟨_, _, rfl⟩ := List.mem_map.mp listed
    cases marked

theorem fetched_run (key : SubKey) (client : Nat) (sources : List Source) (ops : List Op) :
    ∀ item ∈ (run (step key client) (start sources) ops).queued, item.1 = true →
      ∃ fetched, .deliverSnapshot client fetched ∈ ops ∧ item.2 = fetched.message := by
  induction ops using List.reverseRecOn with
  | nil => exact fun _ member => absurd member List.not_mem_nil
  | append_singleton before op inductionHypothesis =>
      intro item member marked
      rw [run_append] at member
      generalize run (step key client) (start sources) before = reel at member inductionHypothesis
      by_cases begins : reel.begins client op = true
      · rw [run_cons, run_nil, step_of_begins begins] at member
        exact absurd member List.not_mem_nil
      · rw [run_cons, run_nil, step_of_goes_on begins] at member
        rcases List.mem_append.mp member with old | new
        · obtain ⟨fetched, listed, same⟩ := inductionHypothesis item old marked
          exact ⟨fetched, List.mem_append_left _ listed, same⟩
        · obtain ⟨fetched, rfl, same⟩ := fetched_of_taped new marked
          exact ⟨fetched, by simp, same⟩

theorem st_run (key : SubKey) (client : Nat) (sources : List Source) (ops : List Op) :
    (run (step key client) (start sources) ops).st =
      run AppState.step (AppState.new sources) ops :=
  run_proj Reel.st (st_step key client) (start sources) ops

theorem spooled_run (key : SubKey) (client : Nat) (sources : List Source) (ops : List Op)
    (handed : Throughout AppState.step Handed (AppState.new sources) ops) :
    Spooled key client (run (step key client) (start sources) ops) := by
  have along : Throughout (step key client) (fun reel op => reel.st.Handed op) (start sources)
      ops := (throughout_proj Reel.st (st_step key client) (start sources) ops).mpr handed
  exact run_keeps (fun _ op holds handed => holds.step op handed) ops
    (Spooled.start key client sources) along

/-- Whatever frames, snapshots, losses and requests come, and in whatever order, each taken whole:
what is queued to a client on a key is the snapshots fetched for it and, in turn and each once, some
of the frames let through on the key since its handle was handed out. -/
theorem streamed_of_forwarded (key : SubKey) (client : Nat) (sources : List Source) (ops : List Op)
    (handed : Throughout AppState.step Handed (AppState.new sources) ops) :
    let reel := run (step key client) (start sources) ops
    reel.queued.map (·.2) = (run AppState.step (AppState.new sources) ops).keyLog key client ∧
      (∀ item ∈ reel.queued, item.1 = true →
        ∃ fetched, .deliverSnapshot client fetched ∈ ops ∧ item.2 = fetched.message) ∧
      (streamed reel.queued).Sublist reel.forwarded := by
  intro reel
  have spooled := spooled_run key client sources ops handed
  exact ⟨st_run key client sources ops ▸ spooled.told, fetched_run key client sources ops,
    spooled.plain⟩

/-- The late joiner's reel: the snapshot fetched for it, a frame held behind it, and one more. -/
theorem streamed_of_forwarded_late :
    let reel := run (step (.l4Book "BTC") 2) (start [{ id := 0 }, { id := 1 }]) joinsLate
    reel.queued.map (·.1) = [true, false, false] ∧ reel.forwarded.length = 4 ∧
      (streamed reel.queued).Sublist reel.forwarded :=
  ⟨by decide, by decide, (streamed_of_forwarded (.l4Book "BTC") 2 [{ id := 0 }, { id := 1 }]
    joinsLate (by decide)).2.2⟩

end Reel

end Wsarb
