import Wsarb.Stream.Chronicle

/-!
Owns what a parked `l4Book` client is handed with its snapshot. It gets every frame that
went out since it was parked and is above the snapshot, and none that went out before:
so there is no hole exactly when the snapshot is not older than the moment of parking.
-/

namespace Wsarb

open Wsarb.Library AppState

variable {key : SubKey} {chronicle : Chronicle} {client : Nat} {fetched : Fetched}
  {e : SubEntry Message} {p : Pending Message}

/-- The frames forwarded since the leader was last lost that the snapshot does not contain. -/
def Chronicle.owed (chronicle : Chronicle) (height : Nat) : List Message :=
  chronicle.live.filter fun message => height < message.seq.stamp

/-- The frames the snapshot does not contain are in the client's queue behind it, once and
in the order they went out. -/
def NoHole (chronicle : Chronicle) (client : Nat) (fetched : Fetched) : Prop :=
  chronicle.owed fetched.height = [] ∨ ∃ kept, kept.Sublist chronicle.older ∧
    (chronicle.st.step (.deliverSnapshot client fetched)).log client =
      chronicle.st.log client ++
        fetched.message :: (kept ++ chronicle.owed fetched.height)

/-- Nothing above the snapshot had gone out when the client was parked, and unless nothing
is owed at all the snapshot and the frames held above it fit in its queue. -/
def CaughtUp (chronicle : Chronicle) (p : Pending Message) (height : Nat) : Prop :=
  (∀ message ∈ chronicle.live.take (chronicle.missed p.client), message.seq.stamp ≤ height) ∧
    ((∀ message ∈ chronicle.live, message.seq.stamp ≤ height) ∨
      (p.held.filter fun frame => height < frame.2.1).length <
        (chronicle.st.heap p.client).tx.room)

/-- Where the sources race, a snapshot releases whatever is held above it. -/
theorem backlogOf_raced (raced : key.singleSourced = false) (source height : Nat)
    {held : List (Nat × Nat × Message)}
    (tagged : ∀ frame ∈ held, frame.2.2.seq.heldHeight = some frame.2.1) :
    SubEntry.backlogOf key source height held =
      (held.map (·.2.2)).filter fun message => height < message.seq.stamp := by
  rw [SubEntry.backlogOf, List.filter_map]
  congr 1
  apply List.filter_congr
  intro frame member
  have stamp := Seq.stamp_of_heldHeight (tagged frame member)
  simp [raced, stamp]

section Delivery

variable (chronicle client) in
/-- What is owed is what was missed of it and what has gone out since. -/
theorem owed_eq (height : Nat) : chronicle.owed height =
    (chronicle.live.take (chronicle.missed client)).filter
        (fun message => height < message.seq.stamp) ++
      (chronicle.live.drop (chronicle.missed client)).filter
        (fun message => height < message.seq.stamp) := by
  rw [← List.filter_append, List.take_append_drop, Chronicle.owed]

variable (raced : key.singleSourced = false) (holds : chronicle.Faithful key)
  (routed : fetched.key = key) (found : chronicle.st.getEntry key = some e)
  (waits : e.pending.find? (·.client == client) = some p)
include raced holds routed found waits

/-- What `deliver_snapshot` adds to the client's queue, told by the history. -/
theorem log_deliverSnapshot : ∃ kept, kept.Sublist chronicle.older ∧
    (0 < chronicle.missed client → kept = []) ∧
    SubEntry.backlogOf key fetched.source fetched.height p.held =
      kept ++ (chronicle.live.drop (chronicle.missed client)).filter
        (fun message => fetched.height < message.seq.stamp) ∧
    (chronicle.st.step (.deliverSnapshot client fetched)).log client =
      chronicle.st.log client ++
        (fetched.message :: SubEntry.backlogOf key fetched.source fetched.height p.held).take
          (chronicle.st.heap client).tx.room := by
  have listed := List.mem_of_find?_eq_some waits
  have named : p.client = client := by
    simpa using List.find?_some waits
  obtain ⟨kept, sublist, late, held⟩ := holds.held e found p listed
  rw [named] at late held
  have tagged : ∀ frame ∈ p.held, frame.2.2.seq.heldHeight = some frame.2.1 :=
    fun frame member => (holds.tagged key e found p listed frame member).2.2
  refine ⟨kept.filter fun message => fetched.height < message.seq.stamp,
    List.filter_sublist.trans sublist, fun since => by rw [late since]; rfl, ?_, ?_⟩
  · rw [backlogOf_raced raced _ _ tagged, held, List.filter_append]
  · rw [chronicle.st.log_step _ client (not_registers _ (by simp) client)]
    subst routed
    rw [queued_deliverSnapshot_eq found waits]

/-- A client that is caught up has no hole. -/
theorem noHole_of_caughtUp (caughtUp : CaughtUp chronicle p fetched.height) :
    NoHole chronicle client fetched := by
  have named : p.client = client := by
    simpa using List.find?_some waits
  obtain ⟨before, none | room⟩ := caughtUp
  · left
    rw [Chronicle.owed, List.filter_eq_nil_iff]
    intro message member
    simpa using none message member
  rw [named] at before room
  obtain ⟨kept, sublist, -, released, log⟩ :=
    log_deliverSnapshot raced holds routed found waits
  have nothing : (chronicle.live.take (chronicle.missed client)).filter
      (fun message => fetched.height < message.seq.stamp) = [] := by
    rw [List.filter_eq_nil_iff]
    intro message member
    simpa using before message member
  have fits : (fetched.message ::
      SubEntry.backlogOf key fetched.source fetched.height p.held).length ≤
        (chronicle.st.heap client).tx.room := by
    rw [List.length_cons, SubEntry.backlogOf, List.length_map]
    simpa [raced] using Nat.succ_le_of_lt room
  right
  refine ⟨kept, sublist, ?_⟩
  rw [log, List.take_of_length_le fits, released, owed_eq chronicle client, nothing,
    List.nil_append]

/-- A frame above the snapshot that went out before the client was parked is a hole. -/
theorem hole_of_missed {message : Message}
    (member : message ∈ chronicle.live.take (chronicle.missed client))
    (above : fetched.height < message.seq.stamp) : ¬ NoHole chronicle client fetched := by
  obtain ⟨kept, sublist, late, released, log⟩ :=
    log_deliverSnapshot raced holds routed found waits
  have since : 0 < chronicle.missed client := by
    by_contra none
    rw [Nat.eq_zero_of_not_pos none, List.take_zero] at member
    exact absurd member List.not_mem_nil
  have lost : 0 < ((chronicle.live.take (chronicle.missed client)).filter
      fun message => fetched.height < message.seq.stamp).length :=
    List.length_pos_of_mem (List.mem_filter.mpr ⟨member, by simpa using above⟩)
  have owed := congrArg List.length (owed_eq chronicle client fetched.height)
  rw [List.length_append] at owed
  rintro (none | ⟨more, -, filled⟩)
  · rw [none, List.length_nil] at owed
    omega
  · -- The queue would hold more frames than were held behind the client.
    rw [log, List.append_cancel_left_eq, released, late since] at filled
    have count := congrArg List.length filled
    simp only [List.length_take, List.length_cons, List.nil_append, List.length_append] at count
    omega

end Delivery

/-- On `l4Book`, whatever the run before: a client rebuilt while it is caught up with the
snapshot is handed everything forwarded above it since the leader was last lost. -/
theorem late_joiner_has_no_hole (coin : String) (sources : List Source) (ops : List Op)
    (client : Nat) (fetched : Fetched) (routed : fetched.key = .l4Book coin)
    (e : SubEntry Message) (p : Pending Message)
    (found : (run (Chronicle.step (.l4Book coin)) (Chronicle.start sources) ops).st.getEntry
      (.l4Book coin) = some e)
    (waits : e.pending.find? (·.client == client) = some p)
    (caughtUp : CaughtUp (run (Chronicle.step (.l4Book coin)) (Chronicle.start sources) ops) p
      fetched.height) :
    NoHole (run (Chronicle.step (.l4Book coin)) (Chronicle.start sources) ops) client fetched := by
  have holds := Chronicle.faithful_run (.l4Book coin) rfl sources ops
  exact noHole_of_caughtUp rfl holds routed found waits caughtUp

/-- Client 2 is parked when source 0 is at height 12, and one more frame goes out. -/
def parkedAtTwelve : List Op :=
  [.registerClient "a", .registerClient "b", .subscribe 1 1 (.l4Book "BTC"),
    .onUpdate 2 (.l4Snapshot 0 "BTC" 10 "book 10"),
    .onUpdate 3 (.l4Block 0 "BTC" 11 "block 11"),
    .onUpdate 4 (.l4Block 0 "BTC" 12 "block 12"),
    .subscribe 5 2 (.l4Book "BTC"),
    .onUpdate 6 (.l4Block 0 "BTC" 13 "block 13")]

/-- With a snapshot at 12 the client has everything. -/
theorem late_joiner_has_no_hole_at_twelve :
    NoHole (run (Chronicle.step (.l4Book "BTC")) (Chronicle.start [{ id := 0 }, { id := 1 }])
      parkedAtTwelve) 2 ⟨1, .l4Book "BTC", 12, "book 12", rfl⟩ :=
  late_joiner_has_no_hole "BTC" [{ id := 0 }, { id := 1 }] parkedAtTwelve 2
    ⟨1, .l4Book "BTC", 12, "book 12", rfl⟩ rfl _ _ rfl rfl ⟨by decide, Or.inr (by decide)⟩

/-- With a snapshot at 10, from a slower source, blocks 11 and 12 are missing for good. -/
theorem late_joiner_hole_below_parking :
    ¬ ∀ (sources : List Source) (ops : List Op) (client : Nat) (fetched : Fetched)
      (e : SubEntry Message) (p : Pending Message), fetched.key = .l4Book "BTC" →
      (run (Chronicle.step (.l4Book "BTC")) (Chronicle.start sources) ops).st.getEntry
        (.l4Book "BTC") = some e →
      e.pending.find? (·.client == client) = some p →
      NoHole (run (Chronicle.step (.l4Book "BTC")) (Chronicle.start sources) ops) client
        fetched := by
  intro always
  have holds := Chronicle.faithful_run (.l4Book "BTC") rfl [{ id := 0 }, { id := 1 }]
    parkedAtTwelve
  have claimed := always [{ id := 0 }, { id := 1 }] parkedAtTwelve 2
    ⟨1, .l4Book "BTC", 10, "book 10", rfl⟩ _ _ rfl rfl rfl
  have missed : ((.l4Block 0 "BTC" 11 "block 11") : Message) ∈
      (run (Chronicle.step (.l4Book "BTC")) (Chronicle.start [{ id := 0 }, { id := 1 }])
        parkedAtTwelve).live.take ((run (Chronicle.step (.l4Book "BTC"))
          (Chronicle.start [{ id := 0 }, { id := 1 }]) parkedAtTwelve).missed 2) := by decide
  exact hole_of_missed rfl holds rfl rfl rfl missed (by decide) claimed

end Wsarb
