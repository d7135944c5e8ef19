import Wsarb.State.Standing
import Wsarb.Stream.Attached
import Wsarb.Upstream.Link

/-!
Owns what opens a client's stream. A client that subscribes to a key nobody holds is
attached at once and trusts the sources, which open with a snapshot; but a frame sent before
an earlier `Unsubscribe` was read may arrive first, and be forwarded, and the height it
leaves behind may turn the snapshot away.
-/

namespace Wsarb

open Wsarb.Library AppState

/-- A client's call of `subscribe` for an incremental key it did not hold, with how many
frames the client had been queued. -/
structure Subscription where
  client : Nat
  key : SubKey
  mark : Nat

/-- The first frame of the key queued since the call. -/
def Subscription.first (call : Subscription) (log : List Message) : Option Message :=
  (log.drop call.mark).find? (·.key = call.key)

/-- The shared state with the connections to the sources. -/
structure Feed where
  st : Live
  links : Nat → Link
  calls : List Subscription

/-- One atomic step: an operation of the proxy, a source reading a request or sending a
frame, a frame arriving, a connection made anew. -/
inductive Feed.Move
  | operate (op : Op)
  | serve (source : Nat)
  | emit (source : Nat) (message : Message)
  | arrive (now source : Nat)
  | reconnect (source : Nat)

namespace Feed

/-- Start-up, with this many sources. -/
def start (count : Nat) : Feed where
  st := AppState.new ((List.range count).map ({ id := · }))
  links := fun _ => Link.new
  calls := []

variable (feed : Feed)

/-- The call an operation is, unless it is a duplicate. -/
def called : Op → List Subscription
  | .subscribe now client key =>
      if key.isIncremental = true ∧ (feed.st.subscribe now client key).2 ≠ .duplicate then
        [{ client := client, key := key, mark := (feed.st.log client).length }]
      else []
  | _ => []

def perform (op : Op) : Feed :=
  { feed with st := feed.st.step op, calls := feed.calls ++ feed.called op }

def setLink (source : Nat) (link : Link) : Feed :=
  { feed with links := Function.update feed.links source link }

/-- The operations that may come at any time: frames come over the connections alone, and a
client that subscribes has been registered. -/
def Admits : Op → Prop
  | .onUpdate .. => False
  | .subscribe _ client _ => client < feed.st.nextClientId
  | _ => True

instance : ∀ op, Decidable (feed.Admits op)
  | .onUpdate .. => isFalse id
  | .subscribe _ client _ => inferInstanceAs (Decidable (client < feed.st.nextClientId))
  | .registerClient _ | .pin .. | .unsubscribe .. | .deliverSnapshot .. | .failPending ..
  | .resyncAfterSourceLoss _ | .cleanupClient _ | .receive _ | .close _ => isTrue trivial

def step (feed : Feed) : Move → Feed
  | .operate op => if feed.Admits op then feed.perform op else feed
  | .serve source => feed.setLink source ((feed.links source).serve (feed.st.sentTo source))
  | .emit source message =>
      if message.source = source then
        feed.setLink source ((feed.links source).emit message)
      else feed
  | .arrive now source =>
      match (feed.links source).next with
      | none => feed
      | some p =>
          (feed.perform (.onUpdate now p.message)).setLink source (feed.links source).arrive
  | .reconnect source =>
      if source < feed.st.sources.length then
        feed.setLink source
          ((feed.links source).reconnect (feed.st.sentTo source) feed.st.subscribedRequests)
      else feed

/-- The first frame of the key queued after each call is a snapshot. -/
def OpensWithSnapshot : Prop :=
  ∀ call ∈ feed.calls, ∀ message ∈ call.first (feed.st.log call.client),
    message.seq.isSnapshot = true

/-- The client has called for the key, has been queued nothing of it since, and still
reads its queue. -/
def Awaits (client : Nat) (key : SubKey) : Prop :=
  (feed.st.heap client).tx.closed = false ∧
    ∃ call ∈ feed.calls, call.client = client ∧ call.key = key ∧
      call.first (feed.st.log client) = none

/-- A snapshot of the key from the source has arrived that is not late. -/
def Opened (source : Nat) (key : SubKey) : Prop :=
  ∃ p ∈ (feed.links source).heard, p.Opens (feed.st.sentTo source) key

instance (client : Nat) (key : SubKey) : Decidable (feed.Awaits client key) :=
  inferInstanceAs (Decidable (_ ∧ _))

instance (source : Nat) (key : SubKey) : Decidable (feed.Opened source key) :=
  inferInstanceAs (Decidable (∃ p ∈ _, _))

instance : Decidable feed.OpensWithSnapshot :=
  inferInstanceAs (Decidable (∀ call ∈ feed.calls, ∀ message ∈ call.first _, _))

/-- With a client attached that awaits its first frame of the key, a late increment is
refused or finds its queue full, and a snapshot that is not late and comes from a source the
entry may follow is above the entry and finds room. A snapshot handed to a client that
awaits its first frame finds room, and does not give the key to a source that has opened
while another attached client awaits its first frame. -/
def Timely : Move → Prop
  | .arrive _ source =>
      ∀ p ∈ (feed.links source).next, p.message.key.isIncremental = true →
        ∀ e ∈ feed.st.getEntry p.message.key,
          ∀ client ∈ e.subscribers, feed.Awaits client p.message.key →
            (p.Late (feed.st.sentTo source) → p.message.seq.isSnapshot = false →
              ¬ e.Accepts p.message.key source p.message.seq ∨
                (feed.st.heap client).tx.room = 0) ∧
            (¬ p.Late (feed.st.sentTo source) → p.message.seq.isSnapshot = true →
              (p.message.key.singleSourced = true →
                e.blockLeader = none ∨ e.blockLeader = some source) →
              e.last < p.message.seq.stamp ∧ 0 < (feed.st.heap client).tx.room)
  | .operate (.deliverSnapshot who fetched) =>
      ∀ e ∈ feed.st.getEntry fetched.key, e.isRebuilding who = true →
        (feed.Awaits who fetched.key → 0 < (feed.st.heap who).tx.room) ∧
        (fetched.key.singleSourced = true → ∀ client ∈ e.subscribers,
          feed.Awaits client fetched.key → ¬ feed.Opened fetched.source fetched.key)
  | _ => True

instance : ∀ move, Decidable (feed.Timely move)
  | .arrive _ source =>
      inferInstanceAs (Decidable (∀ p ∈ (feed.links source).next,
        p.message.key.isIncremental = true → ∀ e ∈ feed.st.getEntry p.message.key,
          ∀ client ∈ e.subscribers, feed.Awaits client p.message.key → _ ∧ _))
  | .operate (.deliverSnapshot who fetched) =>
      inferInstanceAs (Decidable (∀ e ∈ feed.st.getEntry fetched.key,
        e.isRebuilding who = true → _ ∧ _))
  | .operate (.registerClient _) | .operate (.subscribe ..) | .operate (.pin ..)
  | .operate (.unsubscribe ..) | .operate (.onUpdate ..) | .operate (.failPending ..)
  | .operate (.resyncAfterSourceLoss _) | .operate (.cleanupClient _) | .operate (.receive _)
  | .operate (.close _) | .serve _ | .emit .. | .reconnect _ => isTrue trivial

/-- The entry lets nothing of the source out: it follows another. -/
def Shut (key : SubKey) (e : SubEntry Message) (source : Nat) : Prop :=
  key.singleSourced = true ∧ e.blockLeader ≠ none ∧ e.blockLeader ≠ some source

/-- What holds whatever arrives when. -/
structure Grounded (feed : Feed) : Prop where
  tuned : feed.st.Tuned
  linked : ∀ source, (feed.links source).Sound source (feed.st.sentTo source)
  tagged : HeldTagged feed.st
  held : feed.st.Held
  unused : ∀ client, feed.st.nextClientId ≤ client → feed.st.subscriptions client = []
  known : ∀ call ∈ feed.calls, call.client < feed.st.nextClientId ∧
    call.mark ≤ (feed.st.log call.client).length ∧ call.key.isIncremental = true

/-- What holds in a run whose steps are all timely: while an attached client awaits its
first frame of a key, the entry is shut to every source that has opened. -/
structure Sound (feed : Feed) : Prop extends Grounded feed where
  opens : feed.OpensWithSnapshot
  quiet : ∀ key, key.isIncremental = true → ∀ e, feed.st.getEntry key = some e →
    ∀ client ∈ e.subscribers, feed.Awaits client key →
      ∀ source, feed.Opened source key → Shut key e source

variable {feed : Feed} {op : Op} {client source : Nat} {key : SubKey}

/-! ### The shared state -/

theorem grounded_start (count : Nat) : Grounded (start count) where
  tuned := tuned_start _
  linked source := by
    have nothing : (start count).st.sentTo source = [] := by
      rw [sentTo, requests]
      simp only [start, AppState.new, List.map_map, List.getElem?_map]
      cases (List.range count)[source]? <;> rfl
    rw [nothing]
    exact Link.sound_new source
  tagged := heldTagged_new _
  held _ _ found := nomatch found
  unused _ _ := rfl
  known _ member := absurd member List.not_mem_nil

theorem mem_called {call : Subscription} (member : call ∈ feed.called op) :
    ∃ now, op = .subscribe now call.client call.key ∧
      call.key ∉ feed.st.subscriptions call.client ∧
      call.mark = (feed.st.log call.client).length ∧ call.key.isIncremental = true := by
  cases op with
  | subscribe now who subscribed =>
      simp only [called] at member
      split at member
      · next both =>
          obtain rfl := List.mem_singleton.mp member
          refine ⟨now, rfl, fun held => both.2 ?_, rfl, both.1⟩
          rw [AppState.subscribe, if_pos held]
      · exact absurd member List.not_mem_nil
  | _ => exact absurd member List.not_mem_nil

/-- The next id only grows. -/
theorem nextClientId_le (op : Op) : feed.st.nextClientId ≤ (feed.st.step op).nextClientId := by
  rw [nextClientId_step]
  split
  · exact Nat.le_succ _
  · exact Nat.le_refl _

namespace Grounded

/-- A client that has called is not handed out anew. -/
theorem old (grounded : Grounded feed) {call : Subscription} (member : call ∈ feed.calls)
    (op : Op) : ¬ feed.st.Registers call.client op :=
  fun registers => Nat.ne_of_lt (grounded.known call member).1 registers.2

/-- A client whose subscription is admitted is not handed out anew either. -/
theorem unused_perform (grounded : Grounded feed)
    (admitted : ∀ now who key, op = .subscribe now who key → who < feed.st.nextClientId)
    (beyond : (feed.st.step op).nextClientId ≤ client) :
    (feed.st.step op).subscriptions client = [] := by
  have before : feed.st.subscriptions client = [] :=
    grounded.unused client ((nextClientId_le op).trans beyond)
  rw [subscriptions_step]
  cases op with
  | subscribe now who subscribed =>
      rw [nextClientId_step] at beyond
      have other : client ≠ who := fun same =>
        Nat.not_lt.mpr beyond (same ▸ admitted now who subscribed rfl)
      rw [subscriptionsAfter, if_neg fun both => other both.1, before]
  | registerClient ip => simp [subscriptionsAfter, before]
  | unsubscribe who left => simp [subscriptionsAfter, before]
  | cleanupClient who => simp [subscriptionsAfter, before]
  | _ => exact before

theorem perform (grounded : Grounded feed)
    (admitted : ∀ now who key, op = .subscribe now who key → who < feed.st.nextClientId) :
    Grounded (feed.perform op) where
  tuned := tuned_step grounded.tuned op
  linked source := by
    obtain ⟨more, asked⟩ := feed.st.sentTo_step op source
    show (feed.links source).Sound source ((feed.st.step op).sentTo source)
    rw [asked]
    exact (grounded.linked source).more more
  tagged := heldTagged_step grounded.tagged op
  held := held_step grounded.held op fun _ _ => grounded.unused _ (Nat.le_refl _)
  unused _ beyond := grounded.unused_perform admitted beyond
  known call member := by
    show call.client < (feed.st.step op).nextClientId ∧
      call.mark ≤ ((feed.st.step op).log call.client).length ∧ _
    rcases List.mem_append.mp member with before | now
    · obtain ⟨handed, behind, incremental⟩ := grounded.known call before
      refine ⟨handed.trans_le (nextClientId_le op), ?_, incremental⟩
      rw [feed.st.log_step op call.client (grounded.old before op), List.length_append]
      exact Nat.le_add_right_of_le behind
    · obtain ⟨time, rfl, -, mark, incremental⟩ := mem_called now
      refine ⟨(admitted time _ _ rfl).trans_le (nextClientId_le _), ?_, incremental⟩
      rw [feed.st.log_step _ call.client (not_registers _ (by simp) call.client),
        List.length_append, mark]
      exact Nat.le_add_right _ _

theorem heard (grounded : Grounded feed) (now : Nat) (message : Message) :
    Grounded (feed.perform (.onUpdate now message)) :=
  grounded.perform fun _ _ _ same => by cases same

theorem setLink (grounded : Grounded feed) {link : Link}
    (sound : link.Sound source (feed.st.sentTo source)) : Grounded (feed.setLink source link) :=
  { grounded with
    linked := fun other => by
      show (Function.update feed.links source link other).Sound other (feed.st.sentTo other)
      by_cases same : other = source
      · subst same
        rwa [Function.update_self]
      · rw [Function.update_of_ne same]
        exact grounded.linked other }

end Grounded

/-! ### Who awaits, and who has opened -/

/-- The first frame since a call is looked for in what is queued once nothing came before. -/
theorem Grounded.first_step (grounded : Grounded feed) {call : Subscription}
    (member : call ∈ feed.calls) (op : Op) :
    call.first ((feed.st.step op).log call.client) =
      (call.first (feed.st.log call.client)).or
        ((feed.st.queued call.client op).find? (·.key = call.key)) := by
  have behind := (grounded.known call member).2.1
  rw [feed.st.log_step op call.client (grounded.old member op)]
  unfold Subscription.first
  rw [List.drop_append_of_le_length behind, List.find?_append]

/-- Whoever awaits its first frame awaited it before and is queued none now, or has just
called. -/
theorem Grounded.awaits_perform (grounded : Grounded feed)
    (awaits : (feed.perform op).Awaits client key) :
    (feed.Awaits client key ∧ (feed.st.queued client op).find? (·.key = key) = none) ∨
      (∃ now, op = .subscribe now client key) ∧ key ∉ feed.st.subscriptions client := by
  obtain ⟨stillOpen, call, member, rfl, rfl, nothing⟩ := awaits
  rcases List.mem_append.mp member with before | now
  · left
    replace nothing : call.first ((feed.st.step op).log call.client) = none := nothing
    rw [grounded.first_step before, Option.or_eq_none_iff] at nothing
    refine ⟨⟨?_, call, before, rfl, rfl, nothing.1⟩, nothing.2⟩
    by_contra closed
    rw [Bool.not_eq_false] at closed
    have still : ((feed.perform op).st.heap call.client).tx.closed = true :=
      closed_step feed.st (grounded.old before op) closed
    rw [still] at stillOpen
    cases stillOpen
  · obtain ⟨time, same, absent, -⟩ := mem_called now
    exact Or.inr ⟨⟨time, same⟩, absent⟩

/-- No operation makes a snapshot that has arrived any less late. -/
theorem Grounded.opened_of_perform (grounded : Grounded feed)
    (opened : (feed.perform op).Opened source key) : feed.Opened source key := by
  obtain ⟨p, member, opens⟩ := opened
  obtain ⟨more, asked⟩ := feed.st.sentTo_step op source
  replace opens : p.Opens ((feed.st.step op).sentTo source) key := opens
  rw [asked] at opens
  have within := (grounded.linked source).within p (List.mem_of_mem_take member)
  exact ⟨p, member, ((opens_append within).mp opens).1⟩

/-- No source has opened a key that is not live upstream. -/
theorem Grounded.not_opened (grounded : Grounded feed) (incremental : key.isIncremental = true)
    (dead : ¬ feed.st.Upstream key) : ¬ feed.Opened source key := by
  rintro ⟨p, member, rfl, -, early⟩
  refine early ((grounded.linked source).late_of_last (List.mem_of_mem_take member) incremental ?_)
  exact fun last => dead (grounded.tuned.upstream_of_sentTo last)

theorem opened_setLink {other : Nat} {link : Link}
    (opened : (feed.setLink source link).Opened other key) :
    feed.Opened other key ∨ other = source ∧
      ∃ p ∈ link.heard, p.Opens (feed.st.sentTo source) key := by
  obtain ⟨p, member, opens⟩ := opened
  replace member : p ∈ (Function.update feed.links source link other).heard := member
  by_cases same : other = source
  · subst same
    rw [Function.update_self] at member
    exact Or.inr ⟨rfl, p, member, opens⟩
  · rw [Function.update_of_ne same] at member
    exact Or.inl ⟨p, member, opens⟩

/-- A change to a connection that lets nothing arrive keeps everything. -/
theorem Sound.setLink (sound : Sound feed) {link : Link}
    (kept : link.Sound source (feed.st.sentTo source))
    (heard : link.heard = (feed.links source).heard) : Sound (feed.setLink source link) where
  toGrounded := sound.toGrounded.setLink kept
  opens := sound.opens
  quiet key incremental e found client member awaits other opened := by
    apply sound.quiet key incremental e found client member awaits other
    rcases opened_setLink opened with before | ⟨rfl, p, arrived, opens⟩
    · exact before
    · exact ⟨p, heard ▸ arrived, opens⟩

/-! ### What opens a stream -/

/-- The stream of every caller still opens with a snapshot, if what is queued now to those
who await does. -/
theorem Sound.opens_perform (sound : Sound feed)
    (fits : ∀ client key, key.isIncremental = true → feed.Awaits client key → ∀ message,
      (feed.st.queued client op).find? (·.key = key) = some message →
        message.seq.isSnapshot = true) : (feed.perform op).OpensWithSnapshot := by
  intro call member message opening
  replace opening : call.first ((feed.st.step op).log call.client) = some message := opening
  rcases List.mem_append.mp member with before | now
  · rw [sound.first_step before] at opening
    cases first : call.first (feed.st.log call.client) with
    | some earlier =>
        rw [first] at opening
        obtain rfl := Option.some.inj opening
        exact sound.opens call before earlier first
    | none =>
        rw [first, Option.none_or] at opening
        refine fits call.client call.key (sound.known call before).2.2
          ⟨?_, call, before, rfl, rfl, first⟩ message opening
        have room : 0 < (feed.st.heap call.client).tx.room := by
          have listed := List.mem_of_find?_eq_some opening
          by_contra full
          rw [AppState.queued, Nat.eq_zero_of_not_pos full, List.take_zero] at listed
          exact absurd listed List.not_mem_nil
        exact (Mailbox.open_of_room room).1
  · obtain ⟨time, rfl, -, mark, -⟩ := mem_called now
    rw [feed.st.log_step _ call.client (not_registers _ (by simp) call.client),
      queued_of_carries_none rfl, List.append_nil, Subscription.first, mark, List.drop_length]
      at opening
    cases opening

theorem find_cons (message : Message) (rest : List Message) :
    (message :: rest).find? (·.key = message.key) = some message :=
  List.find?_cons_of_pos (by simp)

/-- A delivered snapshot is the first thing its client is queued. -/
theorem Grounded.opens_delivered (grounded : Grounded feed) {who : Nat} {fetched : Fetched}
    {message : Message} (opening : (feed.st.queued client (.deliverSnapshot who fetched)).find?
      (·.key = key) = some message) : message.seq.isSnapshot = true := by
  have listed := List.mem_of_find?_eq_some opening
  have routed : message.key = key := by simpa using List.find?_some opening
  have carried := Option.some.inj (carries_of_mem_queued grounded.tagged listed)
  obtain ⟨first, rest, queued⟩ := List.exists_cons_of_ne_nil (List.ne_nil_of_mem listed)
  have same := queued_deliverSnapshot_cons queued
  have about : first.key = key := by rw [same, ← routed, ← carried]; rfl
  rw [queued, List.find?_cons_of_pos (by simpa using about)] at opening
  rw [← Option.some.inj opening, same]
  rfl

/-! ### Operations of the proxy -/

/-- The entry an operation starts from is shut to every source that has opened, while an
attached client awaits. -/
theorem Sound.quiet_used (sound : Sound feed) (incremental : key.isIncremental = true)
    (now : Nat) (member : client ∈ (feed.st.entryOr now key).subscribers)
    (awaits : feed.Awaits client key) (opened : feed.Opened source key) :
    Shut key (feed.st.entryOr now key) source := by
  refine entryOr_of (P := fun e => client ∈ e.subscribers → Shut key e source) ?_ ?_ now member
  · exact fun _ nobody => absurd nobody List.not_mem_nil
  · exact fun e found listed => sound.quiet key incremental e found client listed awaits source
      opened

/-- A client that is attached to a key some source has opened, and awaits its first frame,
awaited it before the operation: a new subscriber would have been parked. -/
theorem Sound.awaited (sound : Sound feed) (incremental : key.isIncremental = true)
    {e : SubEntry Message} (found : (feed.st.step op).getEntry key = some e)
    (member : client ∈ e.subscribers) (awaits : (feed.perform op).Awaits client key)
    (live : feed.st.Upstream key) :
    feed.Awaits client key ∧ (feed.st.queued client op).find? (·.key = key) = none := by
  rcases sound.awaits_perform awaits with before | ⟨⟨now, rfl⟩, absent⟩
  · exact before
  · exfalso
    have needed := (entryOr_upstreamSubscribed now key).mpr live
    rw [getEntry_step, entryAfter, if_pos ⟨rfl, absent⟩] at found
    cases found
    rcases (mem_attach_subscribers _ _ _).mp member with old | ⟨-, alone⟩
    · exact absent (sound.held.used now (Or.inl old))
    · exact alone ⟨needed, incremental⟩

/-- A delivered snapshot keeps the entry shut to the sources that have opened. -/
theorem Sound.quiet_rebuilt (sound : Sound feed) {who : Nat} {fetched : Fetched}
    {e : SubEntry Message} (timely : Timely feed (.operate (.deliverSnapshot who fetched)))
    (before : feed.st.getEntry fetched.key = some e)
    (member : client ∈ (e.rebuild fetched.key who fetched.source fetched.height
      fetched.message).1.subscribers)
    (awaits : feed.Awaits client fetched.key)
    (nothing : (feed.st.queued client (.deliverSnapshot who fetched)).find?
      (·.key = fetched.key) = none)
    (opened : feed.Opened source fetched.key) :
    Shut fetched.key (e.rebuild fetched.key who fetched.source fetched.height fetched.message).1
      source := by
  have quiet := sound.quiet _ fetched.incremental e before
  cases parked : e.isRebuilding who with
  | false =>
      rw [rebuild_of_absent _ _ _ _ _ _ parked] at member ⊢
      exact quiet client member awaits source opened
  | true =>
      obtain ⟨room, others⟩ := timely e before parked
      rcases (mem_rebuild_subscribers _ _ _ _ _ _).mp member with old | ⟨rfl, -⟩
      · have shut := quiet client old awaits source opened
        rw [Shut, rebuild_blockLeader, if_pos ⟨parked, shut.1⟩]
        refine ⟨shut.1, Option.some_ne_none _, fun same => ?_⟩
        obtain rfl := Option.some.inj same
        exact others shut.1 client old awaits opened
      · -- The client rebuilt has just been queued its snapshot.
        obtain ⟨p, waits⟩ := (isRebuilding_iff e client).mp parked
        obtain ⟨spare, same⟩ := Nat.exists_eq_succ_of_ne_zero (Nat.pos_iff_ne_zero.mp
          (room awaits))
        rw [queued_deliverSnapshot_eq before waits, same, List.take_succ_cons] at nothing
        exact absurd (find_cons fetched.message _) (nothing ▸ Option.some_ne_none _).symm

theorem Sound.quiet_operate (sound : Sound feed) (admits : feed.Admits op)
    (timely : Timely feed (.operate op)) (incremental : key.isIncremental = true)
    {e : SubEntry Message} (found : (feed.st.step op).getEntry key = some e)
    (member : client ∈ e.subscribers) (awaits : (feed.perform op).Awaits client key)
    (after : (feed.perform op).Opened source key) : Shut key e source := by
  have opened := sound.opened_of_perform after
  have live : feed.st.Upstream key := by
    by_contra dead
    exact sound.not_opened incremental dead opened
  obtain ⟨already, nothing⟩ := sound.awaited incremental found member awaits live
  have quiet : ∀ e, feed.st.getEntry key = some e → client ∈ e.subscribers → Shut key e source :=
    fun e before listed => sound.quiet key incremental e before client listed already source opened
  cases becomes found with
  | kept before apart => exact quiet e before member
  | @subscribed now who absent =>
      rw [Shut, attach_blockLeader]
      rcases (mem_attach_subscribers _ _ _).mp member with old | ⟨-, alone⟩
      · exact sound.quiet_used incremental now old already opened
      · exact absurd ⟨(entryOr_upstreamSubscribed now key).mpr live, incremental⟩ alone
  | @pinned now => exact sound.quiet_used incremental now member already opened
  | @left _ who e before leaves stays => exact quiet e before (List.mem_of_mem_filter member)
  | heard routed => exact admits.elim
  | rebuilt before routed =>
      subst routed
      exact sound.quiet_rebuilt timely before member already nothing opened
  | @gaveUp who e before => exact quiet e before member
  | @lost lost e before =>
      by_cases leads : e.blockLeader = some lost
      · rw [loseSource_of_leads _ _ _ leads incremental] at member
        exact absurd member List.not_mem_nil
      · rw [loseSource_of_other _ _ _ leads] at member ⊢
        exact quiet e before member

/-- Taken together, an operation that is timely keeps the stream of every caller. -/
theorem Sound.operate (sound : Sound feed) (admits : feed.Admits op)
    (timely : Timely feed (.operate op)) : Sound (feed.perform op) where
  toGrounded := sound.perform fun now who key same => by
    subst same
    exact admits
  opens := by
    apply sound.opens_perform
    intro client key _ _ message opening
    cases op with
    | onUpdate now message => exact admits.elim
    | deliverSnapshot who fetched => exact sound.opens_delivered opening
    | _ => simp [queued, offered] at opening
  quiet _ incremental _ found _ member awaits _ opened :=
    sound.quiet_operate admits timely incremental found member awaits opened

/-! ### A frame arrives -/

/-- A source an entry is shut to has nothing let out. -/
theorem refuses_of_shut {e : SubEntry Message} {message : Message}
    (shut : Shut message.key e message.source) :
    ¬ e.Accepts message.key message.source message.seq := by
  intro accepts
  obtain ⟨single, led, other⟩ := shut
  obtain ⟨leader, leads⟩ := Option.ne_none_iff_exists'.mp led
  have same := leads_of_accepts single rfl accepts leads
  exact other (same ▸ leads)

/-- A frame leaves an entry shut to the sources it was shut to: whoever leads goes on
leading. -/
theorem shut_update {e : SubEntry Message} {message : Message}
    (shut : Shut message.key e source) (now : Nat) :
    Shut message.key (e.update message.key now message.source message.seq message).1 source := by
  obtain ⟨single, led, differs⟩ := shut
  obtain ⟨leader, leads⟩ := Option.ne_none_iff_exists'.mp led
  rw [Shut, SubEntry.update_blockLeader _ _ _ _ _ _ (seq_ne_point single rfl)]
  split
  · next accepts =>
      have same := leads_of_accepts single rfl accepts leads
      rw [← same, ← leads]
      exact ⟨single, led, differs⟩
  · exact ⟨single, led, differs⟩

/-- A snapshot of a source the entry does not follow leaves the entry shut to that source. -/
theorem shut_of_strange {e : SubEntry Message} {message : Message}
    (strange : ¬ (message.key.singleSourced = true →
      e.blockLeader = none ∨ e.blockLeader = some message.source)) :
    Shut message.key e message.source := by
  obtain ⟨single, leading⟩ := Classical.not_imp.mp strange
  exact ⟨single, not_or.mp leading⟩

/-- What an accepted frame queues to an attached client with room is found there. -/
theorem find_queued {e : SubEntry Message} {now : Nat} {message : Message}
    (found : feed.st.getEntry message.key = some e)
    (accepts : e.Accepts message.key message.source message.seq)
    (member : client ∈ e.subscribers) (room : 0 < (feed.st.heap client).tx.room) :
    (feed.st.queued client (.onUpdate now message)).find? (·.key = message.key) =
      some message := by
  obtain ⟨rest, queued⟩ : ∃ rest, feed.st.queued client (.onUpdate now message) = message :: rest :=
    queued_onUpdate_cons found accepts member room
  rw [queued]
  exact find_cons message rest

/-- An increment that arrives on time is let out to nobody who awaits. -/
theorem Sound.snapshot_of_queued (sound : Sound feed) {now : Nat} {p : Parcel}
    (due : (feed.links source).next = some p) (timely : Timely feed (.arrive now source))
    (incremental : key.isIncremental = true) (awaits : feed.Awaits client key) {message : Message}
    (opening : (feed.st.queued client (.onUpdate now p.message)).find? (·.key = key) =
      some message) : message.seq.isSnapshot = true := by
  have listed := List.mem_of_find?_eq_some opening
  obtain ⟨rfl, e, found, accepts, member⟩ := feed.st.mem_queued_onUpdate listed
  obtain rfl : p.message.key = key := by simpa using List.find?_some opening
  have linked := sound.linked source
  have own := linked.own p (Link.mem_frames_of_next due)
  have room := (mem_queued_onUpdate_iff.mp listed).1
  by_contra plain
  rw [Bool.not_eq_true] at plain
  by_cases late : p.Late (feed.st.sentTo source)
  · rcases (timely p due incremental e found client member awaits).1 late plain with
      refuses | full
    · rw [← own] at refuses
      exact refuses accepts
    · omega
  · have opened := linked.heard_of_next due incremental plain late
    have shut := sound.quiet _ incremental e found client member awaits source opened
    exact refuses_of_shut (own ▸ shut) accepts

/-- A frame that arrives on time keeps every entry shut to the sources that have opened. -/
theorem Sound.quiet_arrive (sound : Sound feed) {now : Nat} {p : Parcel}
    (due : (feed.links source).next = some p) (timely : Timely feed (.arrive now source))
    (incremental : key.isIncremental = true) {e : SubEntry Message}
    (found : (feed.st.step (.onUpdate now p.message)).getEntry key = some e)
    (member : client ∈ e.subscribers)
    (awaits : (feed.perform (.onUpdate now p.message)).Awaits client key) {other : Nat}
    (opened : feed.Opened other key ∨ other = source ∧ p.Opens (feed.st.sentTo source) key) :
    Shut key e other := by
  obtain ⟨already, nothing⟩ :=
    (sound.awaits_perform awaits).resolve_right fun ⟨⟨_, same⟩, _⟩ => by cases same
  rw [getEntry_step, entryAfter] at found
  by_cases routed : p.message.key = key
  · subst routed
    rw [if_pos rfl, Option.some.injEq] at found
    subst found
    rw [SubEntry.update_subscribers] at member
    cases before : feed.st.getEntry p.message.key with
    | none =>
        rw [entryOr_of_none before] at member
        exact absurd member List.not_mem_nil
    | some e =>
        rw [entryOr_of_some before] at member ⊢
        apply shut_update
        rcases opened with opened | ⟨rfl, -, snapshot, early⟩
        · exact sound.quiet _ incremental e before client member already other opened
        · -- The source opens now: either the entry does not follow it, or the snapshot is let
          -- out to everyone who awaits.
          have own := (sound.linked other).own p (Link.mem_frames_of_next due)
          rw [← own]
          apply shut_of_strange
          intro follows
          rw [own] at follows
          obtain ⟨above, room⟩ :=
            (timely p due incremental e before client member already).2 early snapshot follows
          have accepts : e.Accepts p.message.key p.message.source p.message.seq := by
            cases seq : p.message.seq with
            | snapshot h =>
                rw [seq, Seq.stamp] at above
                rw [own]
                exact ⟨follows, above⟩
            | _ =>
                rw [seq] at snapshot
                cases snapshot
          rw [find_queued before accepts member room] at nothing
          cases nothing
  · rw [if_neg routed] at found
    apply sound.quiet key incremental e found client member already other
    rcases opened with before | ⟨-, about, -⟩
    · exact before
    · exact absurd about routed

theorem Sound.arrive (sound : Sound feed) {now : Nat} {p : Parcel}
    (due : (feed.links source).next = some p) (timely : Timely feed (.arrive now source)) :
    Sound ((feed.perform (.onUpdate now p.message)).setLink source (feed.links source).arrive) where
  toGrounded := by
    have performed := sound.heard now p.message
    exact performed.setLink ((performed.linked source).arrive due)
  opens := sound.opens_perform fun client key incremental awaits message opening =>
    sound.snapshot_of_queued due timely incremental awaits opening
  quiet key incremental e found client member awaits other opened := by
    apply sound.quiet_arrive due timely incremental found member awaits
    rcases opened_setLink opened with before | ⟨same, q, arrived, opens⟩
    · exact Or.inl (sound.opened_of_perform before)
    · subst same
      rw [Link.heard_arrive due] at arrived
      rcases List.mem_append.mp arrived with before | last
      · exact Or.inl (sound.opened_of_perform ⟨q, before, opens⟩)
      · obtain rfl := List.mem_singleton.mp last
        obtain ⟨more, asked⟩ := feed.st.sentTo_step (.onUpdate now q.message) other
        replace opens : q.Opens ((feed.st.step (.onUpdate now q.message)).sentTo other) key := opens
        rw [asked] at opens
        have within := (sound.linked other).within q (Link.mem_frames_of_next due)
        exact Or.inr ⟨rfl, ((opens_append within).mp opens).1⟩

/-! ### Runs -/

theorem sound_start (count : Nat) : Sound (start count) where
  toGrounded := grounded_start count
  opens _ member := absurd member List.not_mem_nil
  quiet _ _ _ found := nomatch found

/-- A timely step keeps the stream of every caller. -/
theorem Sound.step (sound : Sound feed) (move : Move) (timely : Timely feed move) :
    Sound (feed.step move) := by
  have linked := sound.linked
  cases move with
  | operate op =>
      show Sound (if feed.Admits op then feed.perform op else feed)
      split
      · next admits => exact sound.operate admits timely
      · exact sound
  | serve source => exact sound.setLink (linked source).serve Link.heard_serve
  | emit source message =>
      show Sound (if message.source = source then _ else feed)
      split
      · next own =>
          exact sound.setLink ((linked source).emit own) ((linked source).heard_emit message)
      · exact sound
  | arrive now source =>
      show Sound (match (feed.links source).next with | none => feed | some p => _)
      split
      · exact sound
      · next p due => exact sound.arrive due timely
  | reconnect source =>
      show Sound (if source < feed.st.sources.length then _ else feed)
      split
      · next known =>
          refine sound.setLink ((linked source).reconnect fun key live => ?_)
            (Link.heard_reconnect _)
          exact sound.tuned.last_sentTo known (mem_subscribedRequests.mp live)
      · exact sound

/-- In a run whose steps are all timely, the first frame of an incremental key queued to a
client after each of its calls is a snapshot. -/
theorem opensWithSnapshot_of_timely (count : Nat) (moves : List Move)
    (timely : Throughout step Timely (start count) moves) :
    (run step (start count) moves).OpensWithSnapshot := by
  have sound := run_keeps
    (fun (feed : Feed) move (sound : Sound feed) (timely : Timely feed move) =>
      sound.step move timely)
    moves (sound_start count) timely
  exact sound.opens

/-- A late increment that is let out to an attached client that awaits its first frame, and
finds room, is that first frame. -/
theorem breaks_of_late (grounded : Grounded feed) {now : Nat} {p : Parcel} {e : SubEntry Message}
    (due : (feed.links source).next = some p) (plain : p.message.seq.isSnapshot = false)
    (found : feed.st.getEntry p.message.key = some e)
    (accepts : e.Accepts p.message.key source p.message.seq) (member : client ∈ e.subscribers)
    (awaits : feed.Awaits client p.message.key) (room : 0 < (feed.st.heap client).tx.room) :
    ¬ (feed.step (.arrive now source)).OpensWithSnapshot := by
  intro opens
  obtain ⟨-, call, called, rfl, about, first⟩ := awaits
  have own := (grounded.linked source).own p (Link.mem_frames_of_next due)
  have step : feed.step (.arrive now source) =
      (feed.perform (.onUpdate now p.message)).setLink source (feed.links source).arrive := by
    simp only [Feed.step, due]
  rw [step] at opens
  have opening : call.first ((feed.st.step (.onUpdate now p.message)).log call.client) =
      some p.message := by
    rw [grounded.first_step called, first, Option.none_or, about]
    exact find_queued found (own ▸ accepts) member room
  have snapshot := opens call (List.mem_append_left _ called) p.message opening
  rw [plain] at snapshot
  cases snapshot

/-- Client 1 leaves the key with a block of it still on its way. -/
def leaving : List Move :=
  [.operate (.registerClient "a"), .operate (.registerClient "b"),
    .operate (.subscribe 1 1 (.l4Book "BTC")), .serve 0,
    .emit 0 (.l4Snapshot 0 "BTC" 10 "book 10"),
    .emit 0 (.l4Block 0 "BTC" 11 "block 11"),
    .arrive 2 0, .operate (.unsubscribe 1 (.l4Book "BTC"))]

/-- The block arrives while nobody holds the key, and the snapshot client 2 is then opened
with is above it. -/
theorem opensWithSnapshot_of_timely_above :
    (run step (start 1) (leaving ++ [.arrive 3 0, .operate (.subscribe 4 2 (.l4Book "BTC")),
      .serve 0, .serve 0, .emit 0 (.l4Snapshot 0 "BTC" 12 "book 12"),
      .emit 0 (.l4Block 0 "BTC" 13 "block 13"),
      .arrive 5 0, .arrive 6 0])).OpensWithSnapshot :=
  opensWithSnapshot_of_timely 1 _ (by decide)

/-- Client 2 takes the place of client 1 before the block arrives, and is queued the block. -/
theorem late_increment_opens_stream :
    ¬ ∀ (count : Nat) (moves : List Move), (run step (start count) moves).OpensWithSnapshot := by
  intro always
  have opens := always 1 (leaving ++ [.operate (.subscribe 3 2 (.l4Book "BTC")), .arrive 4 0])
  exact absurd opens (by decide)

end Feed

end Wsarb
