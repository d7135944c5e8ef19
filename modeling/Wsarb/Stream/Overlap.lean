import Wsarb.Stream.Attached

/-!
Owns what follows a privately fetched snapshot into a client's queue. The frames held
behind it are filtered by its height, the frames still to come are not: they stay above
the snapshot exactly when the key's entry is already above it.
-/

namespace Wsarb

open Wsarb.Library AppState

/-- Up to the next snapshot of the key, every increment of the key is above the height. -/
def ClearAbove (key : SubKey) (height : Nat) (items : List Message) : Prop :=
  ∀ before item, before ++ [item] <+: items →
    (∀ earlier ∈ before, earlier.key = key → earlier.seq.isSnapshot = false) →
    item.key = key → item.seq.isIncrement = true → height < item.seq.stamp

/-- The operation leaves the client its stream of the key: it neither leaves the key nor is
reset by the loss of the key's leader, and its handle is not handed out anew. -/
def Uninterrupted (key : SubKey) (client : Nat) (st : Live) (op : Op) : Prop :=
  (∀ e ∈ st.getEntry key, Remains key client e op) ∧ ¬ st.Registers client op

section Lists

variable {key : SubKey} {height : Nat} {items more : List Message} {first : Message}

theorem clearAbove_of_forall
    (above : ∀ item ∈ items, item.key = key → item.seq.isIncrement = true →
      height < item.seq.stamp) : ClearAbove key height items := by
  intro before item isPrefix _
  exact above item (isPrefix.subset (by simp))

theorem clearAbove_append (above : ∀ item ∈ items, item.key = key →
      item.seq.isIncrement = true → height < item.seq.stamp)
    (clear : ClearAbove key height more) : ClearAbove key height (items ++ more) := by
  induction items with
  | nil => exact clear
  | cons item rest inductionHypothesis =>
      obtain ⟨here, later⟩ := List.forall_mem_cons.mp above
      intro before last isPrefix plain
      rcases before with _ | ⟨earlier, before⟩
      · obtain ⟨rfl, -⟩ := List.cons_prefix_cons.mp isPrefix
        exact here
      · obtain ⟨rfl, shorter⟩ := List.cons_prefix_cons.mp isPrefix
        exact inductionHypothesis later before last shorter
          (List.forall_mem_cons.mp plain).2

/-- Nothing is asked of what comes after a snapshot. -/
theorem clearAbove_cons_snapshot (routed : first.key = key)
    (snapshot : first.seq.isSnapshot = true) : ClearAbove key height (first :: items) := by
  intro before item isPrefix plain _ increment
  rcases before with _ | ⟨earlier, before⟩
  · obtain ⟨rfl, -⟩ := List.cons_prefix_cons.mp isPrefix
    cases seq : item.seq <;> simp_all [Seq.isIncrement, Seq.isSnapshot]
  · obtain ⟨rfl, -⟩ := List.cons_prefix_cons.mp isPrefix
    rw [plain earlier List.mem_cons_self routed] at snapshot
    cases snapshot

end Lists

variable {key : SubKey} {st : Live} {e : SubEntry Message} {client : Nat} {height : Nat} {op : Op}

/-- The client is attached under an entry that lets no increment at `height` or below out:
the entry is above it, or it is at that very height and its position counter is spent. -/
structure AttachedAbove (key : SubKey) (client height : Nat) (st : Live) : Prop where
  tagged : HeldTagged st
  attached : ∃ e, st.getEntry key = some e ∧ client ∈ e.subscribers ∧
    (key.singleSourced = true → e.blockLeader ≠ none) ∧
    (height < e.last ∨
      key.singleSourced = false ∧ e.last = height ∧ e.blockSent = 2 ^ 32 - 1)

section Accepted

variable (incremental : key.isIncremental = true) {message : Message}
  (routed : message.key = key) (led : key.singleSourced = true → e.blockLeader ≠ none)
  (above : height < e.last ∨
    key.singleSourced = false ∧ e.last = height ∧ e.blockSent = 2 ^ 32 - 1)
include incremental routed led above

/-- Whatever such an entry accepts is above the height. -/
theorem stamp_above (accepts : e.Accepts key message.source message.seq) :
    height < message.seq.stamp := by
  have admitted := message.admitted
  rw [routed] at admitted
  cases seq : message.seq with
  | point v => rw [seq] at admitted; cases key <;> simp_all [SubKey.admits, SubKey.isIncremental]
  | lead v => rw [seq] at admitted; cases key <;> simp_all [SubKey.admits, SubKey.isIncremental]
  | snapshot h =>
      rw [seq] at accepts
      have newer : e.last < h := accepts.2
      show height < h
      omega
  | sticky v =>
      rw [seq] at accepts admitted
      have single : key.singleSourced = true := by
        cases key <;> simp_all [SubKey.admits, SubKey.singleSourced]
      rcases accepts with free | ⟨-, newer⟩
      · exact absurd free (led single)
      · show height < v
        rcases above with above | ⟨raced, -⟩
        · omega
        · rw [single] at raced
          cases raced
  | block h =>
      rw [seq] at accepts
      have newer := accepts.2
      show height < h
      omega

end Accepted

/-- Nothing short of the end of the client's stream brings the entry down again. -/
theorem AttachedAbove.step (incremental : key.isIncremental = true)
    (holds : AttachedAbove key client height st) (goesOn : Uninterrupted key client st op) :
    AttachedAbove key client height (st.step op) := by
  refine ⟨heldTagged_step holds.tagged op, ?_⟩
  obtain ⟨e, found, member, led, above⟩ := holds.attached
  obtain ⟨after, found', member'⟩ := stays found member (goesOn.1 e found)
  refine ⟨after, found', member', ?_⟩
  cases becomes found' with
  | kept before apart =>
      obtain rfl := Option.some.inj (found.symm.trans before)
      exact ⟨led, above⟩
  | subscribed absent =>
      rw [entryOr_of_some found, attach_blockLeader, attach_last, (attach_counters _ _ _).1]
      exact ⟨led, above⟩
  | pinned =>
      rw [entryOr_of_some found]
      exact ⟨led, above⟩
  | left before leaves _ =>
      obtain rfl := Option.some.inj (found.symm.trans before)
      exact ⟨led, above⟩
  | @heard now message routed =>
      rw [entryOr_of_some found, SubEntry.update_last]
      constructor
      · intro single
        rw [SubEntry.update_blockLeader _ _ _ _ _ _ (seq_ne_point single routed)]
        split
        · exact Option.some_ne_none _
        · exact led single
      · by_cases accepts : e.Accepts key message.source message.seq
        · rw [if_pos accepts]
          exact Or.inl (stamp_above incremental routed led above accepts)
        · rw [if_neg accepts]
          rcases above with above | ⟨raced, same, spent⟩
          · exact Or.inl above
          · rw [update_blockSent_of_refused incremental raced routed now accepts]
            exact Or.inr ⟨raced, same, spent⟩
  | rebuilt before routed =>
      obtain rfl := Option.some.inj (found.symm.trans before)
      obtain ⟨last, sent, -⟩ := rebuild_arbitration e key _ _ _ _
      rw [last, sent, rebuild_blockLeader]
      refine ⟨fun single => ?_, above⟩
      split
      · exact Option.some_ne_none _
      · exact led single
  | gaveUp before =>
      obtain rfl := Option.some.inj (found.symm.trans before)
      exact ⟨led, above⟩
  | lost before =>
      obtain rfl := Option.some.inj (found.symm.trans before)
      rw [loseSource_of_other _ _ _ (goesOn.1 e found)]
      exact ⟨led, above⟩

/-- The messages a run queues to a client. -/
def queuedAlong (client : Nat) : Live → List Op → List Message
  | _, [] => []
  | st, op :: rest => st.queued client op ++ queuedAlong client (st.step op) rest

theorem log_run (ops : List Op) (goesOn : Throughout step (Uninterrupted key client) st ops) :
    (run step st ops).log client = st.log client ++ queuedAlong client st ops := by
  induction ops generalizing st with
  | nil => exact (List.append_nil _).symm
  | cons op rest inductionHypothesis =>
      rw [run_cons, inductionHypothesis goesOn.2, st.log_step op client goesOn.1.2, queuedAlong,
        List.append_assoc]

/-- What one operation queues to such a client is above the height, or opens with a
snapshot. -/
theorem AttachedAbove.queued (incremental : key.isIncremental = true)
    (holds : AttachedAbove key client height st) (op : Op) :
    (∀ item ∈ st.queued client op, item.key = key → item.seq.isIncrement = true →
      height < item.seq.stamp) ∨
    ∃ first rest, st.queued client op = first :: rest ∧ first.key = key ∧
      first.seq.isSnapshot = true := by
  obtain ⟨e, found, -, led, above⟩ := holds.attached
  by_cases apart : op.carries = some key
  · cases op with
    | onUpdate now message =>
        left
        intro item listed routed _
        obtain ⟨rfl, e', found', accepts, -⟩ := st.mem_queued_onUpdate listed
        rw [routed, found] at found'
        rw [routed, ← Option.some.inj found'] at accepts
        exact stamp_above incremental routed led above accepts
    | deliverSnapshot who fetched =>
        cases queued : st.queued client (.deliverSnapshot who fetched) with
        | nil => exact Or.inl fun item member => absurd member List.not_mem_nil
        | cons first rest =>
            have snapshot := queued_deliverSnapshot_cons queued
            exact Or.inr ⟨first, rest, rfl, snapshot ▸ Option.some.inj apart, snapshot ▸ rfl⟩
    | _ => cases apart
  · left
    intro item listed routed
    exact absurd routed (key_ne_of_apart holds.tagged apart listed)

/-- Every increment queued in the rest of such a stream is above the height, up to the next
snapshot. -/
theorem AttachedAbove.clear (incremental : key.isIncremental = true) (ops : List Op)
    (holds : AttachedAbove key client height st)
    (goesOn : Throughout AppState.step (Uninterrupted key client) st ops) :
    ClearAbove key height (queuedAlong client st ops) := by
  induction ops generalizing st with
  | nil => exact clearAbove_of_forall (fun _ member => absurd member List.not_mem_nil)
  | cons op rest inductionHypothesis =>
      have later := inductionHypothesis (holds.step incremental goesOn.1) goesOn.2
      rw [queuedAlong]
      rcases holds.queued incremental op with above | ⟨first, others, queued, routed, snapshot⟩
      · exact clearAbove_append above later
      · rw [queued, List.cons_append]
        exact clearAbove_cons_snapshot routed snapshot

/-! ### Streams that go below their snapshot -/

/-- Some continuation queues the client an increment at the height or below, before any
snapshot. -/
def Breach (key : SubKey) (client height : Nat) (st : Live) : Prop :=
  ∃ ops first rest, Throughout step (Uninterrupted key client) st ops ∧
    queuedAlong client st ops = first :: rest ∧ first.key = key ∧
    first.seq.isIncrement = true ∧ first.seq.stamp ≤ height

/-- A step that queues the client nothing can come first. -/
theorem Breach.after (goesOn : Uninterrupted key client st op)
    (nothing : st.queued client op = []) (breach : Breach key client height (st.step op)) :
    Breach key client height st := by
  obtain ⟨ops, first, rest, later, queued, within⟩ := breach
  refine ⟨op :: ops, first, rest, ⟨goesOn, later⟩, ?_, within⟩
  rw [queuedAlong, nothing, queued, List.nil_append]

theorem uninterrupted_onUpdate (now : Nat) (message : Message) :
    Uninterrupted key client st (.onUpdate now message) := by
  exact ⟨fun _ _ => trivial, st.not_registers (by simp) client⟩

/-- An increment at the height or below that the entry would accept is a breach. -/
theorem breach_of_accepts (found : st.getEntry key = some e) (member : client ∈ e.subscribers)
    (room : 0 < (st.heap client).tx.room) {message : Message} (routed : message.key = key)
    (accepts : e.Accepts key message.source message.seq)
    (increment : message.seq.isIncrement = true) (low : message.seq.stamp ≤ height) :
    Breach key client height st := by
  subst routed
  obtain ⟨rest, queued⟩ : ∃ rest, st.queued client (.onUpdate 0 message) = message :: rest :=
    queued_onUpdate_cons found accepts member room
  refine ⟨[.onUpdate 0 message], message, rest, ⟨uninterrupted_onUpdate 0 message, trivial⟩,
    ?_, rfl, increment, low⟩
  rw [queuedAlong, queued, queuedAlong, List.append_nil]

/-- A refused frame leaves the client attached and its queue alone. -/
theorem breach_after_refused (found : st.getEntry key = some e)
    {message : Message} (routed : message.key = key)
    (refuses : ¬ e.Accepts key message.source message.seq)
    (breach : ∀ st' : Live, (st'.heap client).tx = (st.heap client).tx →
      st'.getEntry key = some (e.update key 0 message.source message.seq message).1 →
      Breach key client height st') : Breach key client height st := by
  subst routed
  have nothing : st.queued client (.onUpdate 0 message) = [] :=
    queued_onUpdate_of_refuses found refuses client
  refine Breach.after (uninterrupted_onUpdate 0 message) nothing (breach _ ?_ ?_)
  · have nobody : st.recipients 0 message.source message.key message.seq message = [] := by
      rw [recipients, entryOr_of_some found, SubEntry.update_recipients, if_neg refuses]
    rw [step, tx_onUpdate, nobody]
    rfl
  · rw [getEntry_step, entryAfter, if_pos rfl, entryOr_of_some found]

section Positions

variable (incremental : key.isIncremental = true) (raced : key.singleSourced = false)
include incremental raced

theorem admits_raced (h : Nat) :
    key.admits (.block h) = true ∧ key.admits (.snapshot h) = true := by
  cases key <;> simp_all [SubKey.isIncremental, SubKey.singleSourced, SubKey.admits]

/-- A source in play that sends the open height again and again reaches a position nobody
has supplied, unless the counter of positions is spent. -/
theorem breach_at_open_height (src : Nat) (missing : Nat) (found : st.getEntry key = some e)
    (member : client ∈ e.subscribers) (room : 0 < (st.heap client).tx.room)
    (inPlay : e.writtenOff src = false) (same : e.last = height) (sound : e.counters.Sound)
    (unspent : e.blockSent < 2 ^ 32 - 1) (behind : e.blockSent - e.seenBy src = missing) :
    Breach key client height st := by
  have reached : e.seenBy src ≤ e.blockSent := sound.seen_le src
  let message : Message :=
    ⟨src, key, .block height, "", (admits_raced incremental raced height).1⟩
  have routed : message.key = key := rfl
  induction missing generalizing st e with
  | zero =>
      have accepts : e.Accepts key src (.block height) :=
        ⟨inPlay, Or.inr ⟨same.symm, by omega⟩⟩
      exact breach_of_accepts found member room routed accepts rfl (Nat.le_refl height)
  | succ missing inductionHypothesis =>
      have refuses : ¬ e.Accepts key src (.block height) := by
        rintro ⟨-, newer | ⟨-, ahead⟩⟩ <;> omega
      apply breach_after_refused found routed refuses
      intro st' queue found'
      have counters : (e.update key 0 src (.block height) message).1.counters =
          e.counters.counted src := by
        rw [SubEntry.update_counters_block,
          Counters.block_of_same (c := e.counters) inPlay same.symm]
      have sent : (e.update key 0 src (.block height) message).1.blockSent = e.blockSent := by
        refine (congrArg Counters.sent counters).trans (max_eq_left ?_)
        show (e.seenBy src + 1) % 2 ^ 32 ≤ e.blockSent
        omega
      have seen : (e.update key 0 src (.block height) message).1.seenBy src = e.seenBy src + 1 := by
        apply (congrFun (congrArg Counters.seen counters) src).trans
        show Function.update e.seenBy src ((e.seenBy src + 1) % 2 ^ 32) src = e.seenBy src + 1
        rw [Function.update_self]
        omega
      refine inductionHypothesis found' ?_ ?_ ?_ ?_ ?_ ?_ ?_ ?_
      · rwa [SubEntry.update_subscribers]
      · rwa [queue]
      · exact (congrFun (congrArg Counters.off counters) src).trans inPlay
      · exact (congrArg Counters.last counters).trans same
      · exact counters ▸ sound.counted
      · exact sent ▸ unspent
      · exact (congrArg₂ (· - ·) sent seen).trans (by omega)
      · exact (Nat.le_of_eq seen).trans (by rw [sent]; omega)

/-- A raced entry that is not above the height can be taken below it. -/
theorem breach_of_raced (src : Nat) (found : st.getEntry key = some e)
    (member : client ∈ e.subscribers) (room : 0 < (st.heap client).tx.room)
    (sound : e.counters.Sound) (low : e.last ≤ height)
    (unspent : e.last = height → e.blockSent ≠ 2 ^ 32 - 1) : Breach key client height st := by
  -- A snapshot at height 0 goes out to nobody and puts the source back in play.
  let message : Message := ⟨src, key, .snapshot 0, "", (admits_raced incremental raced 0).2⟩
  have routed : message.key = key := rfl
  have refuses : ¬ e.Accepts key src (.snapshot 0) := fun accepts => Nat.not_lt_zero _ accepts.2
  apply breach_after_refused found routed refuses
  intro st' queue found'
  have counters : (e.update key 0 src (.snapshot 0) message).1.counters =
      e.counters.pardon src := by
    rw [SubEntry.update_counters_snapshot _ _ _ _ _ _ raced,
      Counters.snapshot_of_not_above (Nat.not_lt_zero _)]
  have inPlay : (e.update key 0 src (.snapshot 0) message).1.writtenOff src = false := by
    apply (congrFun (congrArg Counters.off counters) src).trans
    simp [Counters.pardon]
  have last : (e.update key 0 src (.snapshot 0) message).1.last = e.last :=
    congrArg Counters.last counters
  have sent : (e.update key 0 src (.snapshot 0) message).1.blockSent = e.blockSent :=
    congrArg Counters.sent counters
  have member' : client ∈ (e.update key 0 src (.snapshot 0) message).1.subscribers := by
    rwa [SubEntry.update_subscribers]
  have room' : 0 < (st'.heap client).tx.room := by rwa [queue]
  have sound' : (e.update key 0 src (.snapshot 0) message).1.counters.Sound :=
    counters ▸ ⟨sound.sent_lt, sound.seen_le⟩
  rcases Nat.lt_or_eq_of_le low with below | same
  · let increment : Message :=
      ⟨src, key, .block height, "", (admits_raced incremental raced height).1⟩
    have routed : increment.key = key := rfl
    have accepts : (e.update key 0 src (.snapshot 0) message).1.Accepts key src
        (.block height) := ⟨inPlay, Or.inl (by rwa [last])⟩
    exact breach_of_accepts found' member' room' routed accepts rfl (Nat.le_refl height)
  · have bound : e.blockSent < 2 ^ 32 := sound.sent_lt
    have spare := unspent same
    exact breach_at_open_height incremental raced src _ found' member' room' inPlay
      (last.trans same) sound' (by rw [sent]; omega) rfl

end Positions

/-- A single-sourced entry that is not above the height is taken below it by its leader. -/
theorem breach_of_led (incremental : key.isIncremental = true)
    (single : key.singleSourced = true) {leader : Nat} (found : st.getEntry key = some e)
    (member : client ∈ e.subscribers) (room : 0 < (st.heap client).tx.room)
    (leads : e.blockLeader = some leader) (low : e.last ≤ height) :
    Breach key client height st := by
  have admitted : key.admits (.sticky height) = true := by
    cases key <;> simp_all [SubKey.isIncremental, SubKey.singleSourced, SubKey.admits]
  let increment : Message := ⟨leader, key, .sticky height, "", admitted⟩
  have routed : increment.key = key := rfl
  have accepts : e.Accepts key leader (.sticky height) := Or.inr ⟨leads, low⟩
  exact breach_of_accepts found member room routed accepts rfl (Nat.le_refl height)

theorem sound_of_same {after : SubEntry Message} (sent : after.blockSent = e.blockSent)
    (seen : after.blockSeen = e.blockSeen) (sound : e.counters.Sound) : after.counters.Sound := by
  have seenBy : after.seenBy = e.seenBy := by
    funext i
    rw [SubEntry.seenBy, seen, SubEntry.seenBy]
  refine ⟨?_, ?_⟩
  · show after.blockSent < 2 ^ 32
    exact sent ▸ sound.sent_lt
  · show ∀ i, after.seenBy i ≤ after.blockSent
    rw [sent, seenBy]
    exact sound.seen_le

/-- The key's entry counts for no source more than has gone out. -/
def CountsSound (key : SubKey) (st : Live) : Prop :=
  ∀ e, st.getEntry key = some e → e.counters.Sound

theorem countsSound_step (incremental : key.isIncremental = true)
    (raced : key.singleSourced = false) (sound : CountsSound key st) (op : Op) :
    CountsSound key (st.step op) := by
  intro after found
  have fresh : ∀ now, (st.entryOr now key).counters.Sound :=
    entryOr_of (fun now => by rw [SubEntry.counters_new]; exact Counters.sound_fresh) sound
  cases becomes found with
  | kept before apart => exact sound _ before
  | @subscribed now client absent =>
      obtain ⟨sent, seen, -⟩ := attach_counters (st.entryOr now key) key client
      exact sound_of_same sent seen (fresh now)
  | @pinned now => exact sound_of_same (e := st.entryOr now key) rfl rfl (fresh now)
  | @left _ _ e before leaves stays => exact sound_of_same (e := e) rfl rfl (sound e before)
  | @heard now message routed =>
      rcases raced_seq_cases incremental raced routed with ⟨h, seq⟩ | ⟨h, seq⟩
      · rw [seq, SubEntry.update_counters_snapshot _ _ _ _ _ _ raced]
        exact (fresh now).snapshot
      · rw [seq, SubEntry.update_counters_block]
        exact (fresh now).block
  | @rebuilt client fetched e before routed =>
      obtain ⟨-, sent, seen, -⟩ :=
        rebuild_arbitration e key client fetched.source fetched.height fetched.message
      exact sound_of_same sent seen (sound e before)
  | @gaveUp _ e before => exact sound_of_same (e := e) rfl rfl (sound e before)
  | @lost source e before =>
      by_cases leads : e.blockLeader = some source
      · rw [loseSource_of_leads _ _ _ leads incremental]
        exact sound_of_same (e := e) rfl rfl (sound e before)
      · rw [loseSource_of_other _ _ _ leads]
        exact sound e before

theorem countsSound_of_reached (incremental : key.isIncremental = true)
    (raced : key.singleSourced = false) (reached : Reached st) : CountsSound key st := by
  obtain ⟨sources, reachable⟩ := reached
  have start : CountsSound key (AppState.new sources) := fun _ found => nomatch found
  exact reachable.invariant start fun _ op sound => countsSound_step incremental raced sound op

/-! ### The snapshot just delivered -/

section Delivered

variable {fetched : Fetched} {p : Pending Message} (routed : fetched.key = key)
  (found : st.getEntry key = some e) (waits : e.pending.find? (·.client == client) = some p)

include routed found in
theorem getEntry_delivered : (st.step (.deliverSnapshot client fetched)).getEntry key =
    some (e.rebuild key client fetched.source fetched.height fetched.message).1 := by
  subst routed
  rw [getEntry_step, entryAfter, if_pos rfl, found]
  rfl

include routed found waits in
theorem log_delivered (room : 0 < (st.heap client).tx.room) :
    (st.step (.deliverSnapshot client fetched)).log client = st.log client ++
      fetched.message :: (SubEntry.backlogOf key fetched.source fetched.height p.held).take
        ((st.heap client).tx.room - 1) := by
  subst routed
  rw [st.log_step _ client (not_registers _ (by simp) client),
    queued_deliverSnapshot_eq found waits]
  obtain ⟨spare, same⟩ := Nat.exists_eq_succ_of_ne_zero (Nat.pos_iff_ne_zero.mp room)
  rw [same, List.take_succ_cons]
  rfl

/-- Room comes back once the reader takes a frame. -/
theorem room_after_receive (room : 0 < (st.heap client).tx.room) :
    0 < (((st.step (.deliverSnapshot client fetched)).step (.receive client)).heap
      client).tx.room := by
  obtain ⟨opened, holds⟩ := Mailbox.open_of_room room
  simp only [step, heap_modifyClient, if_true]
  apply Mailbox.room_receive
  · rw [tx_deliverSnapshot, if_pos rfl, Mailbox.closed_offer, opened]
  · rw [tx_deliverSnapshot, if_pos rfl, Mailbox.capacity_offer]
    exact holds

/-- The frames released with a snapshot are above it. -/
theorem released_above (tagged : HeldTagged st) (found : st.getEntry key = some e)
    (waits : e.pending.find? (·.client == client) = some p) {item : Message}
    (member : item ∈ SubEntry.backlogOf key fetched.source fetched.height p.held) :
    item.key = key ∧ fetched.height < item.seq.stamp := by
  obtain ⟨src, h, held, above, -⟩ := mem_backlogOf.mp member
  obtain ⟨-, routed, height⟩ := tagged key e found p (List.mem_of_find?_eq_some waits) _ held
  refine ⟨routed, ?_⟩
  have stamp : item.seq.stamp = h := Seq.stamp_of_heldHeight height
  omega

end Delivered

/-- After the delivery, and for as long as the client's stream goes on, no increment at the
snapshot's height or below is queued behind it before another snapshot is. -/
def NeverOverlaps (st : Live) (client : Nat) (fetched : Fetched) : Prop :=
  ∀ ops added,
    Throughout step (Uninterrupted fetched.key client)
      (st.step (.deliverSnapshot client fetched)) ops →
    (run step (st.step (.deliverSnapshot client fetched)) ops).log client =
      st.log client ++ fetched.message :: added →
    ClearAbove fetched.key fetched.height added

/-- The entry is above the snapshot, or at its height with the position counter spent, or
another snapshot is released right behind it. -/
def EntryAbove (st : Live) (client : Nat) (fetched : Fetched) (e : SubEntry Message)
    (p : Pending Message) : Prop :=
  fetched.height < e.last ∨
  (fetched.key.singleSourced = false ∧ e.last = fetched.height ∧ e.blockSent = 2 ^ 32 - 1) ∨
  ∃ item ∈ (SubEntry.backlogOf fetched.key fetched.source fetched.height p.held).take
    ((st.heap client).tx.room - 1), item.seq.isSnapshot = true

section Delivery

variable {fetched : Fetched} {p : Pending Message} (reached : Reached st)
  (found : st.getEntry fetched.key = some e)
  (waits : e.pending.find? (·.client == client) = some p)
include reached found waits

/-- An entry above the snapshot keeps the client's stream above it. -/
theorem neverOverlaps_of_entryAbove (room : 0 < (st.heap client).tx.room)
    (above : EntryAbove st client fetched e p) : NeverOverlaps st client fetched := by
  have tagged := reached.heldTagged
  have parked : e.isRebuilding client = true := (isRebuilding_iff e client).mpr ⟨p, waits⟩
  intro ops added goesOn same
  rw [log_run ops goesOn, log_delivered rfl found waits room, List.append_assoc,
    List.append_cancel_left_eq, List.cons_append, List.cons.injEq] at same
  obtain ⟨-, rfl⟩ := same
  have released : ∀ item ∈ (SubEntry.backlogOf fetched.key fetched.source fetched.height
      p.held).take ((st.heap client).tx.room - 1), item.key = fetched.key ∧
        fetched.height < item.seq.stamp :=
    fun item member => released_above tagged found waits (List.mem_of_mem_take member)
  rw [EntryAbove, ← or_assoc] at above
  rcases above with above | ⟨item, member, snapshot⟩
  · have attached : AttachedAbove fetched.key client fetched.height
        (st.step (.deliverSnapshot client fetched)) := by
      refine ⟨heldTagged_step tagged _, _, getEntry_delivered rfl found,
        (mem_rebuild_subscribers _ _ _ _ _ _).mpr (Or.inr ⟨rfl, parked⟩), ?_, ?_⟩
      · intro single
        rw [rebuild_blockLeader, if_pos ⟨parked, single⟩]
        exact Option.some_ne_none _
      · obtain ⟨last, sent, -⟩ :=
          rebuild_arbitration e fetched.key client fetched.source fetched.height fetched.message
        rwa [last, sent]
    exact clearAbove_append (fun item member _ _ => (released item member).2)
      (attached.clear fetched.incremental ops goesOn)
  · obtain ⟨before, after, split⟩ := List.append_of_mem member
    rw [split] at released ⊢
    rw [List.append_assoc, List.cons_append]
    refine clearAbove_append (fun item member _ _ => ?_) (clearAbove_cons_snapshot ?_ snapshot)
    · exact (released item (List.mem_append_left _ member)).2
    · exact (released item (List.mem_append_right _ List.mem_cons_self)).1

/-- Below the snapshot, the stream can be taken below it. -/
theorem breach_of_not_entryAbove (room : 0 < (st.heap client).tx.room)
    (low : ¬ EntryAbove st client fetched e p) :
    Breach fetched.key client fetched.height (st.step (.deliverSnapshot client fetched)) := by
  have parked : e.isRebuilding client = true := (isRebuilding_iff e client).mpr ⟨p, waits⟩
  have notAbove : e.last ≤ fetched.height := Nat.not_lt.mp fun above => low (Or.inl above)
  obtain ⟨last, sent, seen, -⟩ :=
    rebuild_arbitration e fetched.key client fetched.source fetched.height fetched.message
  have goesOn : Uninterrupted fetched.key client (st.step (.deliverSnapshot client fetched))
      (.receive client) := ⟨fun _ _ => trivial, not_registers _ (by simp) client⟩
  -- The reader takes a frame, so that there is room for the one to come.
  apply Breach.after goesOn (queued_of_carries_none rfl client)
  have there : (st.step (.deliverSnapshot client fetched)).getEntry fetched.key =
      some (e.rebuild fetched.key client fetched.source fetched.height fetched.message).1 :=
    getEntry_delivered rfl found
  have member := (mem_rebuild_subscribers e fetched.key client fetched.source fetched.height
    fetched.message).mpr (Or.inr ⟨rfl, parked⟩)
  have spare : 0 < (((st.step (.deliverSnapshot client fetched)).step (.receive client)).heap
      client).tx.room := room_after_receive room
  cases single : fetched.key.singleSourced with
  | true =>
      have leads : (e.rebuild fetched.key client fetched.source fetched.height
          fetched.message).1.blockLeader = some fetched.source := by
        rw [rebuild_blockLeader, if_pos ⟨parked, single⟩]
      exact breach_of_led fetched.incremental single there member spare leads
        (last.trans_le notAbove)
  | false =>
      have sound := countsSound_of_reached fetched.incremental single reached e found
      refine breach_of_raced fetched.incremental single fetched.source there member spare
        (sound_of_same sent seen sound) (last.trans_le notAbove) ?_
      rw [last, sent]
      exact fun same spent => low (Or.inr (Or.inl ⟨single, same, spent⟩))

end Delivery

/-- In every reachable state: a delivered snapshot is never followed by what it already
contains exactly when the entry it attaches its client to is above it. -/
theorem neverOverlaps_iff_entryAbove (st : Live) (reached : Reached st) (client : Nat)
    (fetched : Fetched) (e : SubEntry Message) (p : Pending Message)
    (found : st.getEntry fetched.key = some e)
    (waits : e.pending.find? (·.client == client) = some p)
    (room : 0 < (st.heap client).tx.room) :
    NeverOverlaps st client fetched ↔ EntryAbove st client fetched e p := by
  refine ⟨fun never => ?_, neverOverlaps_of_entryAbove reached found waits room⟩
  by_contra low
  obtain ⟨ops, first, rest, goesOn, queued, routed, increment, below⟩ :=
    breach_of_not_entryAbove reached found waits room low
  have clear := never ops _ goesOn (by
    rw [log_run ops goesOn, log_delivered rfl found waits room, queued, List.append_assoc,
      List.cons_append])
  rw [List.append_cons] at clear
  refine Nat.not_lt.mpr below (clear _ first (List.prefix_append _ _) ?_ routed increment)
  intro earlier member _
  cases snapshot : earlier.seq.isSnapshot with
  | false => rfl
  | true => exact absurd (Or.inr (Or.inr ⟨earlier, member, snapshot⟩)) low

/-- Client 2 is parked while the entry is at height 12. -/
def waitingAtTwelve : List Op :=
  [.registerClient "a", .registerClient "b", .subscribe 1 1 (.l4Book "BTC"),
    .onUpdate 2 (.l4Snapshot 0 "BTC" 10 "book 10"),
    .onUpdate 3 (.l4Block 0 "BTC" 12 "block 12"),
    .subscribe 4 2 (.l4Book "BTC")]

/-- A snapshot at 11 is never followed by what it contains. -/
theorem neverOverlaps_iff_entryAbove_at_eleven :
    NeverOverlaps (run step (AppState.new [{ id := 0 }, { id := 1 }]) waitingAtTwelve) 2
      ⟨1, .l4Book "BTC", 11, "book 11", rfl⟩ :=
  (neverOverlaps_iff_entryAbove (run step (AppState.new [{ id := 0 }, { id := 1 }]) waitingAtTwelve)
    ⟨_, _, rfl⟩ 2 ⟨1, .l4Book "BTC", 11, "book 11", rfl⟩ _ _ rfl rfl (by decide)).mpr
    (Or.inl (by decide))

/-- A snapshot at 20, from a faster source, is followed by block 13 of a slower one. -/
theorem snapshot_followed_by_older_block :
    ¬ ∀ (st : Live), Reached st → ∀ (client : Nat) (fetched : Fetched)
      (e : SubEntry Message) (p : Pending Message), st.getEntry fetched.key = some e →
      e.pending.find? (·.client == client) = some p → 0 < (st.heap client).tx.room →
      NeverOverlaps st client fetched := by
  intro always
  have never := always (run step (AppState.new [{ id := 0 }, { id := 1 }]) waitingAtTwelve)
    ⟨_, _, rfl⟩ 2 ⟨1, .l4Book "BTC", 20, "book 20", rfl⟩ _ _ rfl rfl (by decide)
  have clear := never [.onUpdate 5 (.l4Block 0 "BTC" 13 "block 13")]
    [(.l4Block 0 "BTC" 13 "block 13")]
    ⟨uninterrupted_onUpdate _ _, trivial⟩ (by decide)
  exact absurd (clear [] _ List.prefix_rfl (by simp) rfl rfl) (by decide)

end Wsarb
