import Mathlib.Algebra.Order.BigOperators.Group.List
import Wsarb.State.Marks
import Wsarb.Stream.Arrivals

/-!
Owns the release of what is held behind a parked client into its queue, which its writer does not
drain meanwhile: the hold is bounded in bytes, the queue in frames.

Does not own: how the frames came to be held.
-/

namespace Wsarb

open Wsarb.Library AppState

/-- An open queue of the usual depth whose reader has taken all there was. -/
structure Drained {β : Type} (box : Mailbox β) : Prop where
  opened : box.closed = false
  holds : box.capacity = clientQueue
  taken : box.taken = box.accepted.length

/-- The snapshot and all of these frames enter the client's queue, and nobody is hung up. -/
def Released {β : Type} (st : AppState β) (key : SubKey) (client source height : Nat) (snapshot : β)
    (frames : List β) : Prop :=
  (st.deliverSnapshot key client source height snapshot).log client =
      st.log client ++ snapshot :: frames ∧
    ((st.deliverSnapshot key client source height snapshot).heap client).kill =
      (st.heap client).kill

namespace AppState

variable {β : Type} (st : AppState β) (key : SubKey) (client source height : Nat) (snapshot : β)

theorem room_of_drained {box : Mailbox β} (drained : Drained box) : box.room = clientQueue := by
  rw [Mailbox.room, drained.opened, drained.taken, drained.holds]
  exact Nat.add_sub_cancel_left _ _

/-- The release loop hangs the client up exactly if not all of the backlog fits. -/
theorem kill_release (backlog : List β) :
    ((st.release client backlog).heap client).kill =
      ((st.heap client).kill || decide ((st.heap client).tx.room < backlog.length)) := by
  induction backlog generalizing st with
  | nil => simp [release]
  | cons msg rest inductionHypothesis =>
      by_cases fits : 0 < (st.heap client).tx.room
      · have shorter : decide ((st.heap client).tx.room - 1 < rest.length) =
            decide ((st.heap client).tx.room < rest.length + 1) := by
          rw [decide_eq_decide]
          omega
        simp only [release, Client.sendOrHangUp, if_pos fits, if_true, inductionHypothesis,
          heap_modifyClient, Mailbox.room_push, List.length_cons, shorter]
      · simp only [release, Client.sendOrHangUp, if_neg fits, Bool.false_eq_true, if_false,
          heap_modifyClient, if_true, List.length_cons]
        rw [decide_eq_true (by omega), Bool.or_true]

/-- All of the backlog is released exactly if there is room for the snapshot and all of it. -/
theorem released_iff {e : SubEntry β} {p : Pending β} (found : st.getEntry key = some e)
    (parked : e.pending.find? (·.client == client) = some p) :
    Released st key client source height snapshot
        (SubEntry.backlogOf key source height p.held) ↔
      (SubEntry.backlogOf key source height p.held).length < (st.heap client).tx.room := by
  have backlog : (e.rebuild key client source height snapshot).2 =
      some (snapshot :: SubEntry.backlogOf key source height p.held) := by
    rw [rebuild_of_parked _ _ _ _ _ _ parked]
  have entered : (st.deliverSnapshot key client source height snapshot).log client =
      st.log client ++ (snapshot :: SubEntry.backlogOf key source height p.held).take
        (st.heap client).tx.room := by
    rw [log, tx_deliverSnapshot, if_pos rfl, backlog?, found, Option.bind_some, backlog,
      Option.getD_some, Mailbox.accepted_offer]
    rfl
  have killed : ((st.deliverSnapshot key client source height snapshot).heap client).kill =
      ((st.heap client).kill || decide ((st.heap client).tx.room <
        (SubEntry.backlogOf key source height p.held).length + 1)) := by
    have releases : st.deliverSnapshot key client source height snapshot =
        (st.setEntry key (e.rebuild key client source height snapshot).1).release client
          (snapshot :: SubEntry.backlogOf key source height p.held) := by
      rw [deliverSnapshot, deliverSnapshotEntry, found]
      dsimp only
      rw [backlog]
    rw [releases, kill_release]
    rfl
  rw [Released, entered, killed, List.append_cancel_left_eq]
  constructor
  · rintro ⟨whole, -⟩
    have lengths := congrArg List.length whole
    rw [List.length_take, List.length_cons] at lengths
    omega
  · intro roomy
    refine ⟨List.take_of_length_le roomy, ?_⟩
    rw [decide_eq_false (by omega), Bool.or_false]

/-- Frames longer than the cap over the queue's depth are fewer, within the cap, than the queue is
deep. -/
theorem length_lt_of_long [Payload β] (held : List (Nat × Nat × β))
    (long : ∀ frame ∈ held, pendingMaxBytes / clientQueue < Payload.len frame.2.2)
    (within : (held.map fun frame => Payload.len frame.2.2).sum ≤ pendingMaxBytes) :
    held.length < clientQueue := by
  have least := List.card_nsmul_le_sum (held.map fun frame => Payload.len frame.2.2)
    (pendingMaxBytes / clientQueue + 1) (List.forall_mem_map.mpr long)
  rw [List.length_map, nsmul_eq_mul, Nat.cast_id] at least
  simp only [pendingMaxBytes, clientQueue] at *
  omega

end AppState

/-- A parked client whose queue is empty is queued all of its backlog, and not hung up, exactly if
fewer frames are left after the filter than its queue is deep; within the cap they are fewer if
each is longer than the cap over that depth. -/
theorem backlog_released_iff {β : Type} [Payload β] (st : AppState β) (key : SubKey) (client : Nat)
    (e : SubEntry β) (p : Pending β) (found : st.getEntry key = some e)
    (parked : e.pending.find? (·.client == client) = some p)
    (drained : Drained (st.heap client).tx) (source height : Nat) (snapshot : β) :
    (Released st key client source height snapshot
        (SubEntry.backlogOf key source height p.held) ↔
      (SubEntry.backlogOf key source height p.held).length < clientQueue) ∧
    ((∀ frame ∈ p.held, pendingMaxBytes / clientQueue < Payload.len frame.2.2) →
      (p.held.map fun frame => Payload.len frame.2.2).sum ≤ pendingMaxBytes →
      Released st key client source height snapshot
        (SubEntry.backlogOf key source height p.held)) := by
  have exactly : Released st key client source height snapshot
        (SubEntry.backlogOf key source height p.held) ↔
      (SubEntry.backlogOf key source height p.held).length < clientQueue := by
    rw [st.released_iff key client source height snapshot found parked, room_of_drained drained]
  refine ⟨exactly, fun long within => exactly.mpr ?_⟩
  have part : (SubEntry.backlogOf key source height p.held).length ≤ p.held.length := by
    rw [SubEntry.backlogOf, List.length_map]
    exact List.length_filter_le _ _
  exact Nat.lt_of_le_of_lt part (length_lt_of_long p.held long within)

/-! ### A book joined late -/

/-- Client 1 is attached to a book, the snapshot at height 10 goes out, and client 2 is parked. -/
def joinsBook : List Op :=
  [.registerClient "a", .registerClient "b", .subscribe 0 1 (.l4Book "BTC"),
    .onUpdate 1 (.l4Snapshot 0 "BTC" 10 "book"), .subscribe 2 2 (.l4Book "BTC")]

/-- The state after that, in which nothing is held behind client 2. -/
def joined : Live := run step (AppState.new [{ id := 0 }]) joinsBook

/-- The next blocks of the book, one frame each. -/
def blocks (text : String) (height count : Nat) : List (Nat × Message) :=
  (List.range' (height + 1) count).map fun h => (h, .l4Block 0 "BTC" h text)

/-- Three blocks go out and are held behind client 2. -/
def heldBlocks : Live :=
  run step joined ((blocks "block" 10 3).map fun frame => .onUpdate frame.1 frame.2)

/-- A snapshot that has the first of them releases the other two behind it. -/
theorem backlog_released_iff_blocks :
    Released heldBlocks (.l4Book "BTC") 2 0 11 (Message.l4Snapshot 0 "BTC" 11 "book")
      [.l4Block 0 "BTC" 12 "block", .l4Block 0 "BTC" 13 "block"] :=
  (backlog_released_iff heldBlocks (.l4Book "BTC") 2 _ _ rfl rfl
    ⟨by decide, by decide, by decide⟩ 0 11 (.l4Snapshot 0 "BTC" 11 "book")).1.mpr (by decide)

/-- Source 0 is in play on the book, which stands at the height. -/
def StandsAt (st : Live) (height : Nat) : Prop :=
  ∃ e, st.getEntry (.l4Book "BTC") = some e ∧ e.last = height ∧ e.writtenOff 0 = false

/-- Every next block goes out. -/
theorem goOut_blocks {st : Live} {height : Nat} (stands : StandsAt st height) (text : String)
    (count : Nat) : GoOut (.l4Book "BTC") st (blocks text height count) := by
  induction count generalizing st height with
  | zero => trivial
  | succ count inductionHypothesis =>
      obtain ⟨e, found, last, inPlay⟩ := stands
      have accepts : e.Accepts (.l4Book "BTC") 0 (.block (height + 1)) :=
        ⟨inPlay, Or.inl (last ▸ Nat.lt_succ_self _)⟩
      refine ⟨⟨rfl, ?_⟩, ?_⟩
      · rw [entryOr_of_some found]
        exact accepts
      · apply inductionHypothesis
        have entry :
            (st.step (.onUpdate (height + 1) (.l4Block 0 "BTC" (height + 1) text))).getEntry
              (.l4Book "BTC") = some ((st.entryOr (height + 1) (.l4Book "BTC")).update
                (.l4Book "BTC") (height + 1) 0 (.block (height + 1))
                (.l4Block 0 "BTC" (height + 1) text)).1 := by
          rw [getEntry_step, entryAfter]
          exact if_pos rfl
        refine ⟨_, entry, ?_, ?_⟩
        · rw [entryOr_of_some found, SubEntry.update_last]
          exact if_pos accepts
        · rw [entryOr_of_some found, SubEntry.writtenOff_update, inPlay, Bool.false_and]

theorem bytesOf_blocks (text : String) (height count : Nat) :
    bytesOf ((blocks text height count).map (·.2)) = count * text.utf8ByteSize := by
  have each : (blocks text height count).map (Payload.len ·.2) =
      List.replicate count text.utf8ByteSize := by
    rw [List.eq_replicate_iff]
    refine ⟨by simp [blocks], fun size member => ?_⟩
    obtain ⟨frame, listed, rfl⟩ := List.mem_map.mp member
    obtain ⟨h, -, rfl⟩ := List.mem_map.mp listed
    rfl
  rw [bytesOf, List.map_map]
  exact (congrArg List.sum each).trans (by simp)

theorem seated_joined : joined.Seated ∧ HeldTagged joined :=
  seated_after [{ id := 0 }] joinsBook (by decide)

theorem settled_joined : joined.Settled 2 := ⟨seated_joined.1, seated_joined.2, by decide⟩

theorem waits_joined : Behind joined (.l4Book "BTC") 2 [] :=
  ⟨_, _, rfl, List.mem_singleton.mpr rfl, rfl, rfl, rfl, Nat.zero_le _⟩

theorem stands_joined : StandsAt joined 10 := ⟨_, rfl, by decide, by decide⟩

/-- The state in which that many blocks are held behind client 2. -/
theorem behind_blocks (text : String) (count : Nat)
    (within : count * text.utf8ByteSize ≤ pendingMaxBytes) :
    Behind (run step joined (arrivals (blocks text 10 count))) (.l4Book "BTC") 2
      ((blocks text 10 count).map (·.2)) := by
  have stands := settled_joined.behind_arrivals rfl waits_joined
    (goOut_blocks stands_joined text count)
  rwa [bytesOf_blocks, if_pos within] at stands

theorem drained_blocks (text : String) (count : Nat) :
    Drained ((run step joined (arrivals (blocks text 10 count))).heap 2).tx := by
  have apart : joined.attached (.l4Book "BTC") 2 = false := by decide
  have fresh : Drained (joined.heap 2).tx := ⟨by decide, by decide, by decide⟩
  rwa [seated_joined.1.tx_arrivals (goOut_blocks stands_joined text count), apart,
    if_neg Bool.false_ne_true]

/-- Every held block is above the snapshot, so the backlog is as long as the hold. -/
theorem length_backlogOf_blocks (text : String) (count : Nat) {p : Pending Message}
    (holds : Holds p ((blocks text 10 count).map (·.2))) :
    (SubEntry.backlogOf (.l4Book "BTC") 0 10 p.held).length = count := by
  have above : ∀ frame ∈ p.held, (decide (10 < frame.2.1) &&
      (!(SubKey.l4Book "BTC").singleSourced || frame.1 == 0)) = true := by
    rw [holds.held]
    intro frame member
    obtain ⟨message, listed, rfl⟩ := List.mem_map.mp member
    obtain ⟨arrival, arrived, rfl⟩ := List.mem_map.mp listed
    obtain ⟨h, inRange, rfl⟩ := List.mem_map.mp arrived
    obtain ⟨i, -, rfl⟩ := List.mem_range'.mp inRange
    simp [asHeld, Message.l4Block, Seq.stamp, SubKey.singleSourced]
    omega
  rw [SubEntry.backlogOf, List.filter_eq_self.mpr above, List.length_map, holds.held]
  simp [blocks]

def flooding (text : String) (count : Nat) : List Op := joinsBook ++ arrivals (blocks text 10 count)

/-- With as many blocks as the queue is deep held behind client 2, within the cap, its backlog is
not released. -/
theorem blocks_not_released (text : String) (count : Nat) (deep : clientQueue ≤ count)
    (within : count * text.utf8ByteSize ≤ pendingMaxBytes) :
    ∃ e p, (run step (AppState.new [{ id := 0 }]) (flooding text count)).getEntry
        (.l4Book "BTC") = some e ∧
      e.pending.find? (·.client == 2) = some p ∧
      Drained ((run step (AppState.new [{ id := 0 }]) (flooding text count)).heap 2).tx ∧
      (p.held.map fun frame => Payload.len frame.2.2).sum ≤ pendingMaxBytes ∧
      ¬ Released (run step (AppState.new [{ id := 0 }]) (flooding text count)) (.l4Book "BTC") 2 0
        10 (.l4Snapshot 0 "BTC" 10 "book") (SubEntry.backlogOf (.l4Book "BTC") 0 10 p.held) := by
  have parts : run step (AppState.new [{ id := 0 }]) (flooding text count) =
      run step joined (arrivals (blocks text 10 count)) := run_append _ _ _ _
  rw [parts]
  obtain ⟨e, p, found, member, named, holds⟩ := behind_blocks text count within
  have settled := settled_joined.run_arrivals (blocks text 10 count)
  obtain ⟨q, parked⟩ := (isRebuilding_iff e 2).mp
    ((e.isRebuilding_iff_mem 2).mpr ⟨p, member, named⟩)
  have same : q.client = 2 := by simpa using List.find?_some parked
  obtain rfl := settled.seated.waits_once found (List.mem_of_find?_eq_some parked) member
    (same.trans named.symm)
  refine ⟨e, q, found, parked, drained_blocks text count, ?_, ?_⟩
  · have total : (q.held.map fun frame => Payload.len frame.2.2).sum = q.bytes := by
      rw [holds.bytes, holds.held, List.map_map]
      rfl
    rw [total]
    exact holds.within
  · rw [released_iff _ _ _ _ _ _ found parked, length_backlogOf_blocks text count holds,
      room_of_drained (drained_blocks text count)]
    exact Nat.not_lt.mpr deep

/-- As many short blocks as the queue is deep are held behind client 2, far below the cap; with the
snapshot they do not fit, and it is hung up. -/
theorem not_backlog_released :
    ¬ ∀ (sources : List Source) (ops : List Op) (key : SubKey) (client : Nat)
      (e : SubEntry Message) (p : Pending Message),
      Throughout step Handed (AppState.new sources) ops →
      (run step (AppState.new sources) ops).getEntry key = some e →
      e.pending.find? (·.client == client) = some p →
      Drained ((run step (AppState.new sources) ops).heap client).tx →
      (p.held.map fun frame => Payload.len frame.2.2).sum ≤ pendingMaxBytes →
      ∀ (source height : Nat) (snapshot : Message),
        Released (run step (AppState.new sources) ops) key client source height snapshot
          (SubEntry.backlogOf key source height p.held) := by
  intro always
  obtain ⟨e, p, found, parked, drained, within, stuck⟩ :=
    blocks_not_released "block" clientQueue (Nat.le_refl _) (by decide)
  have handed : Throughout step Handed (AppState.new [{ id := 0 }])
      (flooding "block" clientQueue) :=
    (throughout_append _ _ _ _ _).mpr ⟨by decide, handed_arrivals _ _⟩
  exact stuck (always _ _ _ _ e p handed found parked drained within 0 10 _)

end Wsarb
