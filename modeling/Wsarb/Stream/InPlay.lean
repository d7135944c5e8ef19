import Wsarb.Stream.Attached

/-!
Owns whether the source a client was rebuilt from is heard afterwards, on `l4Book`. A source
is written off on a key when the key loses it as its leader, and stays so until a snapshot of
its own comes in over its connection; one fetched from it for a parked client does not count.
While a client stays attached nobody is written off, so the source is heard exactly if it was
not written off when the snapshot was delivered.

Does not own: single-sourced keys, where a delivered snapshot names the leader.
-/

namespace Wsarb

open Wsarb.Library AppState

/-- As long as the client stays attached, every block frame with which the source opens a
height above the snapshot and above the entry is forwarded to it. -/
def Drives (key : SubKey) (client source height : Nat) (st : Live) : Prop :=
  ∀ ops, Always step (fun st => st.attached key client = true) st ops →
    ∀ now message h, message.key = key → message.source = source → message.seq = .block h →
      height < h → (∀ e, (run step st ops).getEntry key = some e → e.last < h) →
      client ∈ (run step st ops).recipients now message.source message.key message.seq message

section Standing

variable {key : SubKey} {st : Live} {e after : SubEntry Message} {client source height : Nat}
  (incremental : key.isIncremental = true) (raced : key.singleSourced = false)

include incremental raced

/-- A frame writes nobody off. -/
theorem writtenOff_update {now : Nat} {message : Message} (routed : message.key = key)
    (inPlay : e.writtenOff source = false) :
    (e.update key now message.source message.seq message).1.writtenOff source = false := by
  show (e.update key now message.source message.seq message).1.counters.off source = false
  rcases raced_seq_cases incremental raced routed with ⟨h, seq⟩ | ⟨h, seq⟩
  · rw [seq, SubEntry.update_counters_snapshot _ _ _ _ _ _ raced]
    have pardoned : (e.counters.pardon message.source).off source = false := by
      show (e.writtenOff source && _) = false
      rw [inPlay, Bool.false_and]
    unfold Counters.snapshot
    split <;> exact pardoned
  · rw [seq, SubEntry.update_counters_block, Counters.block_off]
    exact inPlay

/-- While somebody stays attached, nobody is written off. -/
theorem writtenOff_step {op : Op} (found : st.getEntry key = some e)
    (found' : (st.step op).getEntry key = some after) (member : client ∈ after.subscribers)
    (inPlay : e.writtenOff source = false) : after.writtenOff source = false := by
  have used : ∀ now, st.entryOr now key = e := entryOr_of_some found
  have same : ∀ {before}, st.getEntry key = some before → before.writtenOff source = false := by
    intro before entry
    rwa [← Option.some.inj (found.symm.trans entry)]
  cases becomes found' with
  | kept before apart => exact same before
  | @subscribed now who absent =>
      rw [used, SubEntry.writtenOff, (attach_counters e key who).2.2]
      exact inPlay
  | @pinned now =>
      rw [used]
      exact inPlay
  | @left _ who before entry leaves stays =>
      have kept := same entry
      exact kept
  | @heard now message routed =>
      rw [used]
      exact writtenOff_update incremental raced routed inPlay
  | @rebuilt who fetched before entry routed =>
      rw [SubEntry.writtenOff, (rebuild_arbitration before key who fetched.source
        fetched.height fetched.message).2.2.2.1]
      exact same entry
  | @gaveUp who before entry =>
      have kept := same entry
      exact kept
  | @lost lost before entry =>
      by_cases leads : before.blockLeader = some lost
      · -- Losing the leader parks whoever was attached.
        rw [loseSource_of_leads _ _ _ leads incremental] at member
        exact absurd member List.not_mem_nil
      · rw [loseSource_of_other _ _ _ leads]
        exact same entry

/-- While a client stays attached, a source in play stays so. -/
theorem writtenOff_run (ops : List Op) (found : st.getEntry key = some e)
    (inPlay : e.writtenOff source = false)
    (attached : Always step (fun st => st.attached key client = true) st ops) :
    ∃ e, (run step st ops).getEntry key = some e ∧ client ∈ e.subscribers ∧
      e.writtenOff source = false := by
  induction ops generalizing st e with
  | nil =>
      obtain ⟨e', found', member⟩ := attached_iff.mp attached
      obtain rfl := Option.some.inj (found.symm.trans found')
      exact ⟨e, found, member, inPlay⟩
  | cons op rest inductionHypothesis =>
      obtain ⟨after, found', member⟩ := attached_iff.mp attached.2.first
      exact inductionHypothesis found'
        (writtenOff_step incremental raced found found' member inPlay) attached.2

/-- A source in play drives the client's stream. -/
theorem drives_of_inPlay (found : st.getEntry key = some e)
    (inPlay : e.writtenOff source = false) : Drives key client source height st := by
  intro ops attached now message h routed own seq _ newer
  obtain ⟨last, found', member, inPlay'⟩ :=
    writtenOff_run incremental raced ops found inPlay attached
  obtain rfl := routed
  rw [mem_recipients, own, seq]
  exact ⟨last, found', ⟨inPlay', Or.inl (newer last found')⟩, member⟩

end Standing

/-- A source that is written off brings no block frame through. -/
theorem not_drives_of_writtenOff {coin : String} {st : Live} {e : SubEntry Message}
    {client source height : Nat} (found : st.getEntry (.l4Book coin) = some e)
    (attached : st.attached (.l4Book coin) client = true)
    (off : e.writtenOff source = true) : ¬ Drives (.l4Book coin) client source height st := by
  intro drives
  have above : max height e.last < max height e.last + 1 := Nat.lt_succ_self _
  have goesOut := drives [] attached 0
    (.l4Block source coin (max height e.last + 1) "") (max height e.last + 1) rfl rfl rfl
    ((Nat.le_max_left _ _).trans_lt above)
    (fun e' found' => by
      rw [Option.some.inj (found'.symm.trans found)]
      exact (Nat.le_max_right _ _).trans_lt above)
  obtain ⟨e', found', accepts, -⟩ := (st.mem_recipients _ _ _ _ _ client).mp goesOut
  obtain rfl := Option.some.inj (found.symm.trans found')
  have inPlay : e.writtenOff source = false := accepts.1
  rw [off] at inPlay
  cases inPlay

/-- On `l4Book` the source a client was rebuilt from goes on to drive its stream exactly when
it was not written off as the snapshot was delivered. -/
theorem rebuilt_source_drives_iff (coin : String) (st : Live) (e : SubEntry Message)
    (client : Nat) (fetched : Fetched) (routed : fetched.key = .l4Book coin)
    (found : st.getEntry fetched.key = some e) (parked : e.isRebuilding client = true) :
    Drives fetched.key client fetched.source fetched.height
        (st.step (.deliverSnapshot client fetched)) ↔
      e.writtenOff fetched.source = false := by
  have after : (st.step (.deliverSnapshot client fetched)).getEntry fetched.key =
      some (e.rebuild fetched.key client fetched.source fetched.height fetched.message).1 := by
    rw [getEntry_step, entryAfter, if_pos rfl, found]
    rfl
  have attached : (st.step (.deliverSnapshot client fetched)).attached fetched.key client =
      true := by
    refine attached_iff.mpr ⟨_, after, ?_⟩
    exact (mem_rebuild_subscribers _ _ _ _ _ _).mpr (Or.inr ⟨rfl, parked⟩)
  have kept : (e.rebuild fetched.key client fetched.source fetched.height
      fetched.message).1.writtenOff fetched.source = e.writtenOff fetched.source := by
    rw [SubEntry.writtenOff, (rebuild_arbitration _ _ _ _ _ _).2.2.2.1]
    rfl
  rw [← kept]
  rw [routed] at after attached ⊢
  constructor
  · intro drives
    by_contra off
    exact not_drives_of_writtenOff after attached (by simpa using off) drives
  · exact drives_of_inPlay rfl rfl after

/-- Source 0 falls silent while it leads, and is written off. -/
def silentLeader : List Op :=
  [.registerClient "a", .subscribe 1 1 (.l4Book "BTC"),
    .onUpdate 2 (.l4Snapshot 0 "BTC" 10 "book 10"), .resyncAfterSourceLoss 0]

/-- Rebuilt from source 1, the client is driven by source 1. -/
theorem rebuilt_source_drives_iff_other :
    Drives (.l4Book "BTC") 1 1 11
      ((run step (AppState.new [{ id := 0 }, { id := 1 }]) silentLeader).step
        (.deliverSnapshot 1 ⟨1, .l4Book "BTC", 11, "book 11", rfl⟩)) :=
  (rebuilt_source_drives_iff "BTC"
    (run step (AppState.new [{ id := 0 }, { id := 1 }]) silentLeader) _ 1
    ⟨1, .l4Book "BTC", 11, "book 11", rfl⟩ rfl rfl rfl).mpr (by decide)

/-- Rebuilt from source 0, which has resumed, the client is never driven by it. -/
theorem rebuilt_source_ignored :
    ¬ ∀ (sources : List Source) (ops : List Op) (coin : String) (e : SubEntry Message)
      (client : Nat) (fetched : Fetched), fetched.key = .l4Book coin →
      (run step (AppState.new sources) ops).getEntry fetched.key = some e →
      e.isRebuilding client = true →
      Drives fetched.key client fetched.source fetched.height
        ((run step (AppState.new sources) ops).step (.deliverSnapshot client fetched)) := by
  intro always
  have drives := always [{ id := 0 }, { id := 1 }] silentLeader "BTC" _ 1
    ⟨0, .l4Book "BTC", 11, "book 11", rfl⟩ rfl rfl rfl
  exact not_drives_of_writtenOff rfl (by decide) (by decide) drives

end Wsarb
