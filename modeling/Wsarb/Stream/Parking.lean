import Wsarb.State.Waiting
import Wsarb.Stream.Attached

/-!
Owns what reaches a client of an incremental key while it is parked and after its snapshot.
Parked, it is queued nothing of the key, and every frame that goes out is held behind it until
the frames held outgrow the cap. With the snapshot it is queued what is held above it, and
from then on every frame that goes out, once, for as long as it stays attached.

Does not own: which source the snapshot comes from.
-/

namespace Wsarb

open Wsarb.Library

namespace AppState

/-- The frames of the key a run of operations forwards. -/
def forwardedOver (key : SubKey) : Live → List Op → List Message
  | _, [] => []
  | st, op :: rest => st.forwardedBy key op ++ forwardedOver key (st.step op) rest

/-- What a client has been queued of one key. -/
def logOf (st : Live) (client : Nat) (key : SubKey) : List Message :=
  (st.log client).filter (·.key = key)

/-- The client's queue has room for what an operation sends it. -/
def Roomy (client : Nat) (st : Live) (op : Op) : Prop :=
  (st.offered client op).length ≤ (st.heap client).tx.room

instance (client : Nat) (st : Live) (op : Op) : Decidable (Roomy client st op) :=
  inferInstanceAs (Decidable (_ ≤ _))

/-- A frame as it is held: under its source and height. -/
def asHeld (message : Message) : Nat × Nat × Message :=
  (message.source, message.seq.stamp, message)

def bytesOf (frames : List Message) : Nat := (frames.map Payload.len).sum

/-- The frames are all that is held behind the parked client, and are within the cap. -/
structure Holds (p : Pending Message) (frames : List Message) : Prop where
  held : p.held = frames.map asHeld
  bytes : p.bytes = bytesOf frames
  within : p.bytes ≤ pendingMaxBytes

/-- The client waits on the key behind exactly these frames. -/
def Behind (st : Live) (key : SubKey) (client : Nat) (frames : List Message) : Prop :=
  ∃ e p, st.getEntry key = some e ∧ p ∈ e.pending ∧ p.client = client ∧ Holds p frames

/-- What the invariants of the registry say of a client that is under way on a key. -/
structure Settled (st : Live) (client : Nat) : Prop where
  seated : st.Seated
  tagged : HeldTagged st
  old : client < st.nextClientId

variable {st : Live} {key : SubKey} {client : Nat} {op : Op} {e : SubEntry Message}
  {frames : List Message}

theorem bytesOf_append (first second : List Message) :
    bytesOf (first ++ second) = bytesOf first + bytesOf second := by
  rw [bytesOf, List.map_append, List.sum_append]
  rfl

theorem Settled.not_registers (settled : st.Settled client) (op : Op) :
    ¬ st.Registers client op := fun registers =>
  Nat.lt_irrefl _ (registers.2 ▸ settled.old)

theorem Settled.step (settled : st.Settled client) (handed : st.Handed op) :
    (st.step op).Settled client where
  seated := seated_step settled.seated op handed
  tagged := heldTagged_step settled.tagged op
  old := by
    rw [nextClientId_step]
    have old := settled.old
    split <;> omega

/-- An operation adds to what a client has been queued of a key what it queues of it. -/
theorem Settled.logOf_step (settled : st.Settled client) (op : Op) (key : SubKey) :
    (st.step op).logOf client key =
      st.logOf client key ++ (st.queued client op).filter (·.key = key) := by
  rw [logOf, logOf, st.log_step op client (settled.not_registers op), List.filter_append]

/-- A delivered snapshot is to queue frames of its own key only. -/
theorem Settled.key_of_offered (settled : st.Settled client) {fetched : Fetched}
    {who : Nat} {item : Message}
    (member : item ∈ st.offered client (.deliverSnapshot who fetched)) :
    item.key = fetched.key := by
  obtain ⟨-, e, p, found, waits, listed⟩ := st.offered_deliverSnapshot member
  rcases List.mem_cons.mp listed with rfl | released
  · rfl
  · obtain ⟨src, h, held, -⟩ := mem_backlogOf.mp released
    exact (settled.tagged fetched.key e found p (List.mem_of_find?_eq_some waits) _ held).2.1

/-- A delivered snapshot queues frames of its own key only. -/
theorem Settled.key_of_delivered (settled : st.Settled client) {fetched : Fetched}
    {who : Nat} {item : Message} (member : item ∈ st.queued client (.deliverSnapshot who fetched)) :
    item.key = fetched.key :=
  settled.key_of_offered (List.mem_of_mem_take member)

/-! ### Being parked -/

theorem parked_of_behind (behind : Behind st key client frames) :
    st.parked key client = true := by
  obtain ⟨e, p, found, member, rfl, -⟩ := behind
  exact parked_of_mem found member

/-- A client waits on a key in one place only. -/
theorem Settled.holds_of_behind (settled : st.Settled client)
    (behind : Behind st key client frames) {p : Pending Message}
    (found : st.getEntry key = some e) (member : p ∈ e.pending) (named : p.client = client) :
    Holds p frames := by
  obtain ⟨before, old, entry, listed, named', holds⟩ := behind
  obtain rfl := Option.some.inj (found.symm.trans entry)
  rwa [settled.seated.waits_once found member listed (named.trans named'.symm)]

/-- A client parked just now is queued nothing of the key, and waits behind no frames. -/
theorem Settled.parks (settled : st.Settled client) (free : st.parked key client = false)
    (parked : (st.step op).parked key client = true) :
    Behind (st.step op) key client [] ∧ (st.step op).logOf client key = st.logOf client key := by
  obtain ⟨e, found, p, member, named⟩ := parked_iff.mp parked
  have was : ∀ {before : SubEntry Message} {old : Pending Message},
      st.getEntry key = some before → old ∈ before.pending → old.client = client → False := by
    rintro before old entry listed rfl
    rw [parked_of_mem entry listed] at free
    cases free
  rw [settled.logOf_step]
  cases waits found member with
  | stayed before listed silent => exact (was before listed named).elim
  | piled before listed goesOut fits => exact (was before listed named).elim
  | joined incremental absent live alone =>
      refine ⟨⟨e, _, found, member, named, rfl, rfl, Nat.zero_le _⟩, ?_⟩
      simp [queued, offered]
  | orphaned before incremental leads attached =>
      refine ⟨⟨e, _, found, member, named, rfl, rfl, Nat.zero_le _⟩, ?_⟩
      simp [queued, offered]

/-- A client that stays parked is queued nothing of the key. -/
theorem Settled.quiet (settled : st.Settled client) (waits : st.parked key client = true)
    (parked : (st.step op).parked key client = true) :
    (st.step op).logOf client key = st.logOf client key := by
  have nothing : (st.queued client op).filter (·.key = key) = [] := by
    rw [List.filter_eq_nil_iff]
    intro item member own
    obtain rfl : item.key = key := by simpa using own
    cases op with
    | onUpdate now message =>
        obtain ⟨rfl, e, found, -, attached⟩ := st.mem_queued_onUpdate member
        rw [settled.seated.not_parked_of_attached found attached] at waits
        cases waits
    | deliverSnapshot who fetched =>
        obtain ⟨rfl, -⟩ := st.queued_deliverSnapshot member
        rw [settled.key_of_delivered member,
          settled.seated.not_parked_deliverSnapshot client fetched] at parked
        cases parked
    | _ => simp [queued, offered] at member
  rw [settled.logOf_step, nothing, List.append_nil]

/-- The frame that goes out, if one does, is held behind a client that stays parked. -/
theorem Settled.piles (settled : st.Settled client) (incremental : key.isIncremental = true)
    (behind : Behind st key client frames) (parked : (st.step op).parked key client = true) :
    Behind (st.step op) key client (frames ++ st.forwardedBy key op) := by
  have already := parked_of_behind behind
  obtain ⟨before, p, entry, listed, named, holds⟩ := behind
  obtain ⟨e, found, q, member, named'⟩ := parked_iff.mp parked
  have same : ∀ {before' old}, st.getEntry key = some before' → old ∈ before'.pending →
      old.client = client → old = p := by
    intro before' old entry' listed' other
    obtain rfl := Option.some.inj (entry.symm.trans entry')
    exact settled.seated.waits_once entry listed' listed (other.trans named.symm)
  cases waits found member with
  | stayed entry' listed' silent =>
      rw [silent.resolve_right (by simp [incremental]), List.append_nil]
      exact ⟨e, q, found, member, named', same entry' listed' named' ▸ holds⟩
  | @piled now message before' old entry' listed' goesOut fits =>
      obtain rfl := same entry' listed' named'
      rw [goesOut]
      refine ⟨e, _, found, member, named', ?_, ?_, fits⟩
      · show old.held ++ [asHeld message] = _
        rw [holds.held, List.map_append]
        rfl
      · show old.bytes + Payload.len message = _
        rw [holds.bytes, bytesOf_append]
        rfl
  | @joined now who _ absent live alone =>
      have alone : st.parked key client = false := named' ▸ alone
      rw [already] at alone
      cases alone
  | @orphaned source who before' entry' _ leads attached =>
      obtain rfl : who = client := named'
      rw [settled.seated.not_parked_of_attached entry' attached] at already
      cases already

/-- A client stays parked through a frame that goes out exactly if what is held behind it
stays within the cap. -/
theorem Settled.stays_parked_iff (settled : st.Settled client)
    (incremental : key.isIncremental = true) (behind : Behind st key client frames) {now : Nat}
    {message : Message} (goesOut : st.forwardedBy key (.onUpdate now message) = [message]) :
    (st.step (.onUpdate now message)).parked key client = true ↔
      bytesOf frames + Payload.len message ≤ pendingMaxBytes := by
  obtain ⟨e, p, found, member, named, holds⟩ := behind
  obtain ⟨routed, accepts⟩ := forwardedBy_onUpdate_iff.mp goesOut
  rw [entryOr_of_some found] at accepts
  have entry : (st.step (.onUpdate now message)).getEntry key =
      some (e.update key now message.source message.seq message).1 := by
    rw [getEntry_step, entryAfter, if_pos routed, entryOr_of_some found]
  have pending : (e.update key now message.source message.seq message).1.pending =
      (e.pending.map (·.pile message.source message.seq.stamp message)).filter
        (·.bytes ≤ pendingMaxBytes) := by
    rw [SubEntry.update_pending, if_pos accepts, SubEntry.pendingAfter,
      heldHeight_of_incremental incremental routed]
  rw [parked, entry, Option.any_some, SubEntry.isRebuilding_iff_mem, pending, ← holds.bytes]
  constructor
  · rintro ⟨q, listed, same⟩
    obtain ⟨piled, fits⟩ := List.mem_filter.mp listed
    obtain ⟨old, waits, rfl⟩ := List.mem_map.mp piled
    obtain rfl := settled.seated.waits_once found waits member (same.trans named.symm)
    exact of_decide_eq_true fits
  · intro fits
    refine ⟨_, List.mem_filter.mpr ⟨List.mem_map.mpr ⟨p, member, rfl⟩, ?_⟩, named⟩
    exact decide_eq_true fits

/-- A parked client that a frame leaves parked no longer is hung up. -/
theorem Settled.hung_up (settled : st.Settled client) (parked : st.parked key client = true)
    {now : Nat} {message : Message}
    (evicted : (st.step (.onUpdate now message)).parked key client ≠ true) :
    ((st.step (.onUpdate now message)).heap client).kill = true := by
  obtain ⟨e, found, p, member, named⟩ := parked_iff.mp parked
  have waits : e.isRebuilding client = true :=
    (e.isRebuilding_iff_mem client).mpr ⟨p, member, named⟩
  have traffic : (Op.onUpdate now message).isTraffic = true := rfl
  rcases stands_of_traffic traffic found (Or.inr waits) with
    killed | ⟨after, entry, attached | still⟩
  · exact killed
  · -- A frame attaches nobody.
    have same : after.subscribers = e.subscribers := by
      have entries := st.getEntry_step (.onUpdate now message) key
      rw [entry, entryAfter] at entries
      split at entries
      · rw [Option.some.inj entries, SubEntry.update_subscribers, entryOr_of_some found]
      · rw [Option.some.inj (entries.trans found)]
    rw [same] at attached
    rw [settled.seated.attached_alone found attached] at waits
    cases waits
  · rw [AppState.parked, entry, Option.any_some, still] at evicted
    exact absurd rfl evicted

/-- A parked client is evicted and hung up by exactly the frame that outgrows the cap. -/
theorem Settled.evicted_iff (settled : st.Settled client) (incremental : key.isIncremental = true)
    (behind : Behind st key client frames) {now : Nat} {message : Message}
    (goesOut : st.forwardedBy key (.onUpdate now message) = [message]) :
    ((st.step (.onUpdate now message)).parked key client = true ↔
        bytesOf frames + Payload.len message ≤ pendingMaxBytes) ∧
      (pendingMaxBytes < bytesOf frames + Payload.len message →
        ((st.step (.onUpdate now message)).heap client).kill = true) := by
  have stays := settled.stays_parked_iff incremental behind goesOut
  refine ⟨stays, fun outgrown => settled.hung_up (parked_of_behind behind) fun parked => ?_⟩
  have fits := stays.mp parked
  omega

/-! ### Being attached -/

/-- A frame that goes out is queued once to an attached client with room. -/
theorem Settled.queued_onUpdate (settled : st.Settled client)
    (attached : st.attached key client = true) {now : Nat} {message : Message}
    (roomy : Roomy client st (.onUpdate now message)) :
    (st.queued client (.onUpdate now message)).filter (·.key = key) =
      st.forwardedBy key (.onUpdate now message) := by
  have whole : st.queued client (.onUpdate now message) =
      st.offered client (.onUpdate now message) := List.take_of_length_le roomy
  rw [whole, offered, List.filter_replicate, forwardedBy]
  by_cases routed : message.key = key
  · subst routed
    obtain ⟨e, found, member⟩ := attached_iff.mp attached
    have once : e.subscribers.Nodup :=
      (List.nodup_append.mp (settled.seated.once message.key e found)).1
    rw [recipients, SubEntry.update_recipients, entryOr_of_some found]
    by_cases accepts : e.Accepts message.key message.source message.seq
    · simp [accepts, List.count_eq_one_of_mem once member]
    · simp [accepts]
  · simp [routed]

/-- A snapshot has nothing of the key for a client that is attached to it, and so not parked. -/
theorem Settled.key_ne_of_offered (settled : st.Settled client)
    (attached : st.attached key client = true) {who : Nat} {fetched : Fetched} {item : Message}
    (offer : item ∈ st.offered client (.deliverSnapshot who fetched)) : item.key ≠ key := by
  rintro rfl
  obtain ⟨e, found, member⟩ := attached_iff.mp attached
  obtain ⟨rfl, before, p, entry, waits, -⟩ := st.offered_deliverSnapshot offer
  rw [← settled.key_of_offered offer] at entry
  obtain rfl := Option.some.inj (found.symm.trans entry)
  have parked := (isRebuilding_iff e client).mpr ⟨p, waits⟩
  rw [settled.seated.attached_alone found member] at parked
  cases parked

/-- A client that is attached is queued exactly the frames of the key that go out. -/
theorem Settled.attached_step (settled : st.Settled client)
    (attached : st.attached key client = true) (roomy : Roomy client st op) :
    (st.step op).logOf client key = st.logOf client key ++ st.forwardedBy key op := by
  rw [settled.logOf_step]
  congr 1
  cases op with
  | onUpdate now message => exact settled.queued_onUpdate attached roomy
  | deliverSnapshot who fetched =>
      apply List.filter_eq_nil_iff.mpr
      intro item listed own
      exact settled.key_ne_of_offered attached (List.mem_of_mem_take listed) (by simpa using own)
  | _ => simp [queued, offered, forwardedBy]

/-- A delivered snapshot queues of its key as much of what it is to queue as there is room for. -/
theorem Settled.logOf_deliverSnapshot (settled : st.Settled client) (fetched : Fetched) :
    (st.step (.deliverSnapshot client fetched)).logOf client fetched.key =
      st.logOf client fetched.key ++
        (st.offered client (.deliverSnapshot client fetched)).take (st.heap client).tx.room := by
  rw [settled.logOf_step, ← queued]
  congr 1
  rw [List.filter_eq_self]
  exact fun item listed => decide_eq_true (settled.key_of_delivered listed)

/-- A delivered snapshot is to queue itself and what is held above it. -/
theorem Settled.offered_of_behind (settled : st.Settled client) {fetched : Fetched}
    (behind : Behind st fetched.key client frames) :
    st.offered client (.deliverSnapshot client fetched) =
      fetched.message :: frames.filter fun message =>
        decide (fetched.height < message.seq.stamp) &&
          (!fetched.key.singleSourced || message.source == fetched.source) := by
  obtain ⟨e, p, found, member, named, holds⟩ := behind
  obtain ⟨q, waits⟩ := (isRebuilding_iff e client).mp
    ((e.isRebuilding_iff_mem client).mpr ⟨p, member, named⟩)
  have same : q.client = client := by simpa using List.find?_some waits
  obtain rfl := settled.seated.waits_once found (List.mem_of_find?_eq_some waits) member
    (same.trans named.symm)
  simp only [offered, if_true, backlog?, found, Option.bind_some,
    rebuild_of_parked _ _ _ _ _ _ waits, Option.getD_some, SubEntry.backlogOf, holds.held,
    List.filter_map, List.map_map]
  congr 1
  exact List.map_id _

/-- With its snapshot a parked client is queued what is held above it. -/
theorem Settled.delivered (settled : st.Settled client) {fetched : Fetched}
    (routed : fetched.key = key) (behind : Behind st key client frames)
    (roomy : Roomy client st (.deliverSnapshot client fetched)) :
    (st.step (.deliverSnapshot client fetched)).logOf client key =
      st.logOf client key ++ fetched.message :: frames.filter fun message =>
        decide (fetched.height < message.seq.stamp) &&
          (!key.singleSourced || message.source == fetched.source) := by
  subst routed
  rw [settled.logOf_deliverSnapshot, List.take_of_length_le roomy,
    settled.offered_of_behind behind]

/-! ### Whole runs -/

/-- Whoever is parked has a handle that was given out. -/
theorem Seated.old_of_parked (seated : st.Seated) (parked : st.parked key client = true) :
    client < st.nextClientId := by
  obtain ⟨e, found, p, member, named⟩ := parked_iff.mp parked
  have waits : e.isRebuilding client = true :=
    (e.isRebuilding_iff_mem client).mpr ⟨p, member, named⟩
  exact seated.old_of_stands found (Or.inr waits)

/-- A client that an operation parks was under way before it. -/
theorem settled_of_parks (seated : st.Seated) (tagged : HeldTagged st) (handed : st.Handed op)
    (free : st.parked key client = false) (parked : (st.step op).parked key client = true) :
    st.Settled client := by
  refine ⟨seated, tagged, ?_⟩
  have old := (seated_step seated op handed).old_of_parked parked
  rw [nextClientId_step] at old
  cases op with
  | registerClient ip =>
      have same : (st.step (.registerClient ip)).parked key client =
          st.parked key client := rfl
      rw [same, free] at parked
      cases parked
  | _ => exact old

/-- What the registry keeps to holds after any run of handed operations. -/
theorem seated_after (sources : List Source) (ops : List Op)
    (handed : Throughout AppState.step Handed (AppState.new sources) ops) :
    (run AppState.step (AppState.new sources) ops).Seated ∧
      HeldTagged (run AppState.step (AppState.new sources) ops) := by
  have keeps : ∀ (st : Live) op, st.Seated ∧ HeldTagged st → st.Handed op →
      (st.step op).Seated ∧ HeldTagged (st.step op) :=
    fun _ op both handed => ⟨seated_step both.1 op handed, heldTagged_step both.2 op⟩
  exact run_keeps keeps ops ⟨seated_new sources, heldTagged_new sources⟩ handed

theorem Settled.run_parked (settled : st.Settled client) (incremental : key.isIncremental = true)
    (behind : Behind st key client frames) (ops : List Op)
    (handed : Throughout AppState.step Handed st ops)
    (parked : Always AppState.step (fun st => st.parked key client = true) st ops) :
    (run AppState.step st ops).Settled client ∧
      Behind (run AppState.step st ops) key client (frames ++ forwardedOver key st ops) ∧
      (run AppState.step st ops).logOf client key = st.logOf client key := by
  induction ops generalizing st frames with
  | nil => exact ⟨settled, (List.append_nil frames).symm ▸ behind, rfl⟩
  | cons op rest inductionHypothesis =>
      have still := parked.2.first
      have piled := settled.piles incremental behind still
      obtain ⟨settled', behind', quiet⟩ :=
        inductionHypothesis (settled.step handed.1) piled handed.2 parked.2
      rw [List.append_assoc] at behind'
      exact ⟨settled', behind', quiet.trans (settled.quiet parked.1 still)⟩

theorem Settled.run_attached (settled : st.Settled client) (ops : List Op)
    (meets : Throughout AppState.step (fun st op => st.Handed op ∧ Roomy client st op) st ops)
    (attached : Always AppState.step (fun st => st.attached key client = true) st ops) :
    (run AppState.step st ops).logOf client key =
      st.logOf client key ++ forwardedOver key st ops := by
  induction ops generalizing st with
  | nil => exact (List.append_nil _).symm
  | cons op rest inductionHypothesis =>
      have after := inductionHypothesis (settled.step meets.1.1) meets.2 attached.2
      rw [run_cons, after, settled.attached_step attached.first meets.1.2, List.append_assoc]
      rfl

/-- From any run, an operation that parks a client on an incremental key, and operations
throughout which it stays parked. The client is queued nothing of the key; behind it is held
exactly what has gone out since, within the cap; one more frame leaves it parked exactly if
the cap allows, and hangs it up otherwise. A snapshot then, and operations throughout which it
stays attached with room in its queue: it is queued the snapshot, what is held above it, on a
single-sourced key of the snapshot's source, and every frame that goes out from then on. -/
theorem parking_loses_nothing (key : SubKey) (incremental : key.isIncremental = true)
    (sources : List Source) (before : List Op) (parks : Op) (during : List Op) (client : Nat)
    (handed : Throughout step Handed (AppState.new sources) (before ++ parks :: during))
    (free : (run step (AppState.new sources) before).parked key client = false)
    (parked : Always step (fun st => st.parked key client = true)
      ((run step (AppState.new sources) before).step parks) during) :
    let st := run step (AppState.new sources) before
    let now := run step (st.step parks) during
    let out := forwardedOver key (st.step parks) during
    now.logOf client key = st.logOf client key ∧
      (∀ e p, now.getEntry key = some e → p ∈ e.pending → p.client = client → Holds p out) ∧
      (∀ time message, now.forwardedBy key (.onUpdate time message) = [message] →
        ((now.step (.onUpdate time message)).parked key client = true ↔
            bytesOf out + Payload.len message ≤ pendingMaxBytes) ∧
          (pendingMaxBytes < bytesOf out + Payload.len message →
            ((now.step (.onUpdate time message)).heap client).kill = true)) ∧
      ∀ fetched after, fetched.key = key →
        Throughout step (fun st op => st.Handed op ∧ Roomy client st op) now
          (.deliverSnapshot client fetched :: after) →
        Always step (fun st => st.attached key client = true)
          (now.step (.deliverSnapshot client fetched)) after →
        (run step now (.deliverSnapshot client fetched :: after)).logOf client key =
          now.logOf client key ++
            fetched.message ::
              (out.filter fun message => decide (fetched.height < message.seq.stamp) &&
                (!key.singleSourced || message.source == fetched.source)) ++
            forwardedOver key (now.step (.deliverSnapshot client fetched)) after := by
  intro st now out
  obtain ⟨handedBefore, handedParks, handedDuring⟩ := (throughout_append _ _ _ _ _).mp handed
  obtain ⟨seated, tagged⟩ := seated_after sources before handedBefore
  have underWay := settled_of_parks seated tagged handedParks free parked.first
  obtain ⟨waits, quiet⟩ := underWay.parks free parked.first
  obtain ⟨settled, behind, still⟩ := (underWay.step handedParks).run_parked incremental waits
    during handedDuring parked
  rw [List.nil_append] at behind
  refine ⟨still.trans quiet, fun e p => settled.holds_of_behind behind, ?_, ?_⟩
  · exact fun time message goesOut => settled.evicted_iff incremental behind goesOut
  · intro fetched after routed meets attached
    have rest := (settled.step meets.1.1).run_attached after meets.2 attached
    rw [run_cons, rest, settled.delivered routed behind meets.1.2]

/-- Client 2 is parked at height 10, and block 11 goes out before its snapshot at 10. -/
theorem parking_loses_nothing_late_joiner :
    (run step (run step ((run step (AppState.new [{ id := 0 }, { id := 1 }])
        [.registerClient "a", .registerClient "b", .subscribe 1 1 (.l4Book "BTC"),
          .onUpdate 2 (.l4Snapshot 0 "BTC" 10 "book 10")]).step (.subscribe 3 2 (.l4Book "BTC")))
        [.onUpdate 4 (.l4Block 0 "BTC" 11 "block 11")])
      [.deliverSnapshot 2 ⟨1, .l4Book "BTC", 10, "book 10", rfl⟩,
        .onUpdate 5 (.l4Block 0 "BTC" 12 "block 12")]).logOf 2 (.l4Book "BTC") =
      [.l4Snapshot 1 "BTC" 10 "book 10", .l4Block 0 "BTC" 11 "block 11",
        .l4Block 0 "BTC" 12 "block 12"] :=
  (parking_loses_nothing (.l4Book "BTC") rfl [{ id := 0 }, { id := 1 }]
    [.registerClient "a", .registerClient "b", .subscribe 1 1 (.l4Book "BTC"),
      .onUpdate 2 (.l4Snapshot 0 "BTC" 10 "book 10")] (.subscribe 3 2 (.l4Book "BTC"))
    [.onUpdate 4 (.l4Block 0 "BTC" 11 "block 11")] 2 (by decide) (by decide)
    (by decide)).2.2.2 ⟨1, .l4Book "BTC", 10, "book 10", rfl⟩
    [.onUpdate 5 (.l4Block 0 "BTC" 12 "block 12")] rfl
    ⟨⟨trivial, by decide⟩, ⟨trivial, by decide⟩, trivial⟩ (by decide)

end AppState

end Wsarb
