import Wsarb.Stream.Attached
import Wsarb.Stream.Books

/-!
Owns splicing on `l2Diff`: which steps can leave an attached client with one source's book
and another source's increments, and that runs free of such steps never splice.

Leadership of a key is one field, while every attached client has a book of its own. A
step is safe for the books when it moves the leadership only to the source whose book
every attached client already holds or is being queued.
-/

namespace Wsarb

open Wsarb.Library AppState

/-- The step hands the leadership of the key only to a source that every client it leaves
attached follows, and attaches a fresh subscriber only behind such a source. -/
def KeepsBooks (key : SubKey) (st : Live) : Op → Prop
  | .subscribe _ client subscribed =>
      subscribed = key → ∀ e ∈ st.getEntry key, e.upstreamSubscribed = false →
        ∀ leader ∈ e.blockLeader, Follows key (st.log client) leader
  | .onUpdate _ message =>
      message.key = key → ∀ e ∈ st.getEntry key, e.blockLeader = none →
        e.Accepts key message.source message.seq → ∀ client ∈ e.subscribers,
          Follows key (st.log client) message.source ∨
            message.seq.isSnapshot = true ∧ 0 < (st.heap client).tx.room
  | .deliverSnapshot client fetched =>
      fetched.key = key → ∀ e ∈ st.getEntry key, e.isRebuilding client = true →
        (∀ other ∈ e.subscribers, Follows key (st.log other) fetched.source) ∧
          (Follows key (st.log client) fetched.source ∨ 0 < (st.heap client).tx.room)
  | _ => True

instance (key : SubKey) (log : List Message) (source : Nat) :
    Decidable (Follows key log source) :=
  inferInstanceAs (Decidable (_ ∨ _))

instance (key : SubKey) (st : Live) : ∀ op, Decidable (KeepsBooks key st op)
  | .subscribe _ client subscribed =>
      inferInstanceAs (Decidable (subscribed = key → ∀ e ∈ st.getEntry key,
        e.upstreamSubscribed = false → ∀ leader ∈ e.blockLeader,
          Follows key (st.log client) leader))
  | .onUpdate _ message =>
      inferInstanceAs (Decidable (message.key = key → ∀ e ∈ st.getEntry key,
        e.blockLeader = none → e.Accepts key message.source message.seq →
          ∀ client ∈ e.subscribers, Follows key (st.log client) message.source ∨
            message.seq.isSnapshot = true ∧ 0 < (st.heap client).tx.room))
  | .deliverSnapshot client fetched =>
      inferInstanceAs (Decidable (fetched.key = key → ∀ e ∈ st.getEntry key,
        e.isRebuilding client = true →
          (∀ other ∈ e.subscribers, Follows key (st.log other) fetched.source) ∧
            (Follows key (st.log client) fetched.source ∨ 0 < (st.heap client).tx.room)))
  | .registerClient _ | .pin .. | .unsubscribe .. | .failPending .. | .resyncAfterSourceLoss _
  | .cleanupClient _ | .receive _ | .close _ => isTrue trivial

/-- Every attached client follows the leader, and no queue has been spliced. -/
structure Unspliced (key : SubKey) (st : Live) : Prop where
  tagged : HeldTagged st
  noSplice : ∀ client, NoSplice key (st.log client)
  led : ∀ e, st.getEntry key = some e → ∀ client ∈ e.subscribers,
    ∀ leader, e.blockLeader = some leader → Follows key (st.log client) leader

namespace Unspliced

variable {key : SubKey} (incremental : key.isIncremental = true)
  (single : key.singleSourced = true) {st : Live} {op : Op}

theorem start (sources : List Source) : Unspliced key (AppState.new sources) where
  tagged := heldTagged_new sources
  noSplice := fun _ => noSplice_nil
  led := fun _ found => nomatch found

theorem led_entryOr (holds : Unspliced key st) (now : Nat) {client leader : Nat}
    (member : client ∈ (st.entryOr now key).subscribers)
    (leads : (st.entryOr now key).blockLeader = some leader) :
    Follows key (st.log client) leader := by
  cases found : st.getEntry key with
  | none =>
      rw [entryOr_of_none found] at leads
      cases leads
  | some e =>
      rw [entryOr_of_some found] at member leads
      exact holds.led e found client member leader leads

include incremental single in
/-- What an update queues to an attached client keeps its queue one source's book. -/
theorem heard (holds : Unspliced key st) {now : Nat} {message : Message}
    (routed : message.key = key) (keeps : KeepsBooks key st (.onUpdate now message))
    {e : SubEntry Message} (found : st.getEntry key = some e)
    (accepts : e.Accepts key message.source message.seq) {client : Nat}
    (member : client ∈ e.subscribers) :
    Follows key (st.log client ++ st.queued client (.onUpdate now message)) message.source ∧
      NoSplice key (st.log client ++ st.queued client (.onUpdate now message)) := by
  have own : ∀ item ∈ st.queued client (.onUpdate now message),
      item.key = key → item.source = message.source := by
    intro item queued _
    rw [(st.mem_queued_onUpdate queued).1]
  have before : Follows key (st.log client) message.source ∨
      message.seq.isSnapshot = true ∧ 0 < (st.heap client).tx.room := by
    cases leads : e.blockLeader with
    | none => exact keeps routed e found leads accepts client member
    | some leader =>
        rw [← leads_of_accepts single routed accepts leads]
        exact Or.inl (holds.led e found client member leader leads)
  rcases before with follows | ⟨snapshot, room⟩
  · obtain ⟨after, spliced⟩ := append_of_follows own follows
    exact ⟨after, spliced (holds.noSplice client)⟩
  · subst routed
    obtain ⟨rest, queued⟩ := queued_onUpdate_cons found accepts member room
    rw [queued] at own ⊢
    obtain ⟨after, spliced⟩ := append_of_snapshot rfl snapshot
      fun later member => own later (List.mem_cons_of_mem message member)
    exact ⟨after, spliced (holds.noSplice client)⟩

include single in
/-- A delivered snapshot and the frames behind it make one source's book. -/
theorem delivered (holds : Unspliced key st) {client : Nat} {fetched : Fetched}
    (routed : fetched.key = key) :
    NoSplice key (st.log client ++ st.queued client (.deliverSnapshot client fetched)) ∧
      (st.queued client (.deliverSnapshot client fetched) ≠ [] →
        Follows key (st.log client ++ st.queued client (.deliverSnapshot client fetched))
          fetched.source) := by
  have own : ∀ item ∈ st.queued client (.deliverSnapshot client fetched),
      item.source = fetched.source := by
    intro item member
    exact source_of_mem_queued_deliverSnapshot holds.tagged (routed.symm ▸ single) member
  cases queued : st.queued client (.deliverSnapshot client fetched) with
  | nil => simpa using holds.noSplice client
  | cons first rest =>
      rw [queued] at own
      have snapshot : first = fetched.message := queued_deliverSnapshot_cons queued
      have firstRouted : first.key = key := snapshot ▸ routed
      have isSnapshot : first.seq.isSnapshot = true := snapshot ▸ rfl
      have firstOwn := own first List.mem_cons_self
      have laterOwn : ∀ later ∈ rest, later.key = key → later.source = first.source :=
        fun later member _ => (own later (List.mem_cons_of_mem first member)).trans firstOwn.symm
      obtain ⟨after, spliced⟩ := append_of_snapshot firstRouted isSnapshot laterOwn
      exact ⟨spliced (holds.noSplice client), fun _ => firstOwn ▸ after⟩

include incremental single in
/-- No queue is spliced by a step that keeps the books. -/
theorem noSplice_step (holds : Unspliced key st) (keeps : KeepsBooks key st op) (client : Nat) :
    NoSplice key ((st.step op).log client) := by
  by_cases registers : st.Registers client op
  · rw [st.log_step_of_registers registers]
    exact noSplice_nil
  rw [st.log_step op client registers]
  by_cases apart : op.carries = some key
  · cases op with
    | onUpdate now message =>
        have routed : message.key = key := Option.some.inj apart
        by_cases queued : st.queued client (.onUpdate now message) = []
        · rw [queued, List.append_nil]
          exact holds.noSplice client
        · obtain ⟨item, listed⟩ := List.exists_mem_of_ne_nil _ queued
          obtain ⟨-, e, found, accepts, member⟩ := st.mem_queued_onUpdate listed
          rw [routed] at found accepts
          exact (holds.heard incremental single routed keeps found accepts member).2
    | deliverSnapshot who fetched =>
        by_cases same : client = who
        · subst same
          exact (holds.delivered single (Option.some.inj apart)).1
        · have nothing : st.queued client (.deliverSnapshot who fetched) = [] := by
            simp [queued, offered, same]
          rw [nothing, List.append_nil]
          exact holds.noSplice client
    | _ => cases apart
  · have other : ∀ item ∈ st.queued client op, item.key ≠ key :=
      fun _ => key_ne_of_apart holds.tagged apart
    exact (append_of_other other).2 (holds.noSplice client)

/-- What an operation that queues nothing of the key leaves of a book. -/
theorem follows_of_apart (holds : Unspliced key st) (apart : op.carries ≠ some key)
    {client leader : Nat} (follows : Follows key (st.log client) leader) :
    Follows key (st.log client ++ st.queued client op) leader := by
  have other : ∀ item ∈ st.queued client op, item.key ≠ key :=
    fun _ => key_ne_of_apart holds.tagged apart
  rwa [Follows, (append_of_other other).1]

include incremental single in
/-- A frame of the key leaves every attached client behind the leader it leaves. -/
theorem led_heard (holds : Unspliced key st) {now : Nat} {message : Message}
    (routed : message.key = key) (keeps : KeepsBooks key st (.onUpdate now message))
    {client leader : Nat}
    (member : client ∈ ((st.entryOr now key).update key now message.source message.seq
      message).1.subscribers)
    (leads : ((st.entryOr now key).update key now message.source message.seq
      message).1.blockLeader = some leader) :
    Follows key (st.log client ++ st.queued client (.onUpdate now message)) leader := by
  rw [SubEntry.update_subscribers] at member
  rw [SubEntry.update_blockLeader _ _ _ _ _ _ (seq_ne_point single routed)] at leads
  cases found : st.getEntry key with
  | none =>
      rw [entryOr_of_none found] at member
      exact absurd member List.not_mem_nil
  | some e =>
      rw [entryOr_of_some found] at member leads
      split at leads
      · next accepts =>
          obtain rfl := Option.some.inj leads
          exact (holds.heard incremental single routed keeps found accepts member).1
      · next refuses =>
          have nothing : st.queued client (.onUpdate now message) = [] := by
            subst routed
            exact queued_onUpdate_of_refuses found refuses client
          rw [nothing, List.append_nil]
          exact holds.led e found client member leader leads

include single in
/-- A delivered snapshot leaves every attached client behind the leader it pins. -/
theorem led_rebuilt (holds : Unspliced key st) {who : Nat} {fetched : Fetched}
    {e : SubEntry Message} (before : st.getEntry key = some e) (routed : fetched.key = key)
    (keeps : KeepsBooks key st (.deliverSnapshot who fetched)) {client leader : Nat}
    (member : client ∈ (e.rebuild key who fetched.source fetched.height
      fetched.message).1.subscribers)
    (leads : (e.rebuild key who fetched.source fetched.height fetched.message).1.blockLeader =
      some leader) :
    Follows key (st.log client ++ st.queued client (.deliverSnapshot who fetched)) leader := by
  rw [rebuild_blockLeader, single] at leads
  cases parked : e.isRebuilding who with
  | false =>
      rw [rebuild_of_absent _ _ _ _ _ _ parked] at member
      have nothing : st.queued client (.deliverSnapshot who fetched) = [] := by
        subst routed
        exact queued_deliverSnapshot_of_absent before parked client
      rw [nothing, List.append_nil]
      exact holds.led e before client member leader (by simpa [parked] using leads)
  | true =>
      obtain rfl : fetched.source = leader := by simpa [parked] using leads
      obtain ⟨others, own⟩ := keeps routed e before parked
      have sent : ∀ item ∈ st.queued client (.deliverSnapshot who fetched),
          item.key = key → item.source = fetched.source := fun item listed _ =>
        source_of_mem_queued_deliverSnapshot holds.tagged (routed.symm ▸ single) listed
      rcases (mem_rebuild_subscribers _ _ _ _ _ _).mp member with old | ⟨rfl, -⟩
      · exact (append_of_follows sent (others client old)).1
      · rcases own with follows | room
        · exact (append_of_follows sent follows).1
        · apply (holds.delivered single routed).2
          obtain ⟨p, waits⟩ := (isRebuilding_iff e client).mp parked
          subst routed
          rw [queued_deliverSnapshot_eq before waits]
          intro empty
          simp only [List.take_eq_nil_iff, List.cons_ne_nil, or_false] at empty
          omega

include incremental single in
/-- Every client a step leaves attached follows the leader the step leaves. -/
theorem led_step (holds : Unspliced key st) (keeps : KeepsBooks key st op)
    {e : SubEntry Message} (found : (st.step op).getEntry key = some e) {client leader : Nat}
    (member : client ∈ e.subscribers) (leads : e.blockLeader = some leader) :
    Follows key ((st.step op).log client) leader := by
  by_cases registers : st.Registers client op
  · rw [st.log_step_of_registers registers]
    exact Or.inl rfl
  rw [st.log_step op client registers]
  have idle : op.carries = none → Follows key (st.log client) leader →
      Follows key (st.log client ++ st.queued client op) leader := by
    intro none
    apply holds.follows_of_apart
    rw [none]
    exact (Option.some_ne_none key).symm
  cases becomes found with
  | @kept _ e before apart =>
      exact holds.follows_of_apart apart (holds.led e before client member leader leads)
  | @subscribed now who absent =>
      apply idle rfl
      rw [attach_blockLeader] at leads
      rcases (mem_attach_subscribers _ _ _).mp member with old | ⟨rfl, alone⟩
      · exact holds.led_entryOr now old leads
      · cases found : st.getEntry key with
        | none =>
            rw [entryOr_of_none found] at leads
            cases leads
        | some e =>
            rw [entryOr_of_some found] at leads alone
            have fresh : e.upstreamSubscribed = false := by
              simpa [incremental] using alone
            exact keeps rfl e found fresh leader leads
  | pinned => exact idle rfl (holds.led_entryOr _ member leads)
  | @left _ _ e before leaves stays =>
      have none : op.carries = none := by
        rcases leaves with rfl | rfl <;> rfl
      exact idle none (holds.led e before client (List.mem_of_mem_filter member) leader leads)
  | heard routed => exact holds.led_heard incremental single routed keeps member leads
  | rebuilt before routed => exact holds.led_rebuilt single before routed keeps member leads
  | gaveUp before => exact idle rfl (holds.led _ before client member leader leads)
  | @lost source e before =>
      apply idle rfl
      by_cases leading : e.blockLeader = some source
      · rw [loseSource_of_leads _ _ _ leading incremental] at leads
        cases leads
      · rw [loseSource_of_other _ _ _ leading] at member leads
        exact holds.led e before client member leader leads

include incremental single in
theorem step (holds : Unspliced key st) (keeps : KeepsBooks key st op) :
    Unspliced key (st.step op) where
  tagged := heldTagged_step holds.tagged op
  noSplice := holds.noSplice_step incremental single keeps
  led := fun _ found _ member _ leads =>
    holds.led_step incremental single keeps found member leads

end Unspliced

/-- A run whose every step keeps the books never splices an `l2Diff` queue. -/
theorem noSplice_of_keepsBooks (coin : String) (nSigFigs : Option UInt32)
    (nLevels mantissa : Option UInt64) (sources : List Source) (ops : List Op)
    (keeps : Throughout AppState.step (KeepsBooks (.l2Diff coin nSigFigs nLevels mantissa))
      (AppState.new sources) ops) (client : Nat) :
    NoSplice (.l2Diff coin nSigFigs nLevels mantissa)
      ((run AppState.step (AppState.new sources) ops).log client) := by
  have unspliced := run_keeps
    (fun st op (holds : Unspliced (.l2Diff coin nSigFigs nLevels mantissa) st) keeps =>
      Unspliced.step rfl rfl holds keeps)
    ops (Unspliced.start sources) keeps
  exact unspliced.noSplice client

/-- One client on one source, and a second client rebuilt from that same source. -/
theorem noSplice_of_keepsBooks_rebuild :
    NoSplice (.l2Diff "BTC" none none none)
      ((run AppState.step (AppState.new [{ id := 0 }, { id := 1 }])
        [.registerClient "a", .registerClient "b",
          .subscribe 1 1 (.l2Diff "BTC" none none none),
          .onUpdate 2 ⟨0, .l2Diff "BTC" none none none, .snapshot 10, "book", rfl⟩,
          .subscribe 3 2 (.l2Diff "BTC" none none none),
          .deliverSnapshot 2 ⟨0, .l2Diff "BTC" none none none, 11, "book", rfl⟩,
          .onUpdate 4 ⟨0, .l2Diff "BTC" none none none, .sticky 12, "increment", rfl⟩]).log 1) :=
  noSplice_of_keepsBooks "BTC" none none none [{ id := 0 }, { id := 1 }] _ (by decide) 1

/-- A second client is rebuilt from another source than the first client follows: the
leadership moves, and the new leader's increment reaches the first client's book. -/
theorem rebuild_splices_attached_client :
    ¬ ∀ sources ops client,
      NoSplice (.l2Diff "BTC" none none none)
        ((run AppState.step (AppState.new sources) ops).log client) := by
  intro always
  have spliced := always [{ id := 0 }, { id := 1 }]
    [.registerClient "a", .registerClient "b",
      .subscribe 1 1 (.l2Diff "BTC" none none none),
      .onUpdate 2 ⟨0, .l2Diff "BTC" none none none, .snapshot 10, "book 0", rfl⟩,
      .subscribe 3 2 (.l2Diff "BTC" none none none),
      .deliverSnapshot 2 ⟨1, .l2Diff "BTC" none none none, 11, "book 1", rfl⟩,
      .onUpdate 4 ⟨1, .l2Diff "BTC" none none none, .sticky 12, "increment 1", rfl⟩] 1
    [⟨0, .l2Diff "BTC" none none none, .snapshot 10, "book 0", rfl⟩]
    ⟨1, .l2Diff "BTC" none none none, .sticky 12, "increment 1", rfl⟩
    (by decide) rfl rfl 0 (by decide)
  exact absurd spliced (by decide)

end Wsarb
