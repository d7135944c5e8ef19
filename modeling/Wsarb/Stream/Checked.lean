import Wsarb.Stream.Chronicle
import Wsarb.Stream.Attached
import Wsarb.Tools.StreamCheck

/-!
Owns what the stream checker makes of an `l4Book` stream as the proxy queues it. While no snapshot
from above its entry is handed to the client and the leader is not lost under it while it is
parked, nothing queued to it is below what came before but a snapshot: the checker passes the
stream exactly if it opened with one.

Operations are taken one at a time: a queue in which two frames overtook each other between the
decision and the sending is not of these runs.

Does not own: whether the stream opens with a snapshot, or how the checker reads a text.
-/

namespace Wsarb

open Wsarb.Library AppState

/-- A frame that is not below the one before it, unless it is a snapshot. -/
def Steadily (before message : Message) : Prop :=
  message.seq.isSnapshot = true ∨ before.seq.stamp ≤ message.seq.stamp

/-- The frames of the key queued to the client. -/
def AppState.keyLog (st : Live) (key : SubKey) (client : Nat) : List Message :=
  (st.log client).filter (·.key = key)

/-- What is held rises, and not above the entry's height. -/
def HeldUnder (top : Nat) (held : List (Nat × Nat × Message)) : Prop :=
  (held.map (·.2.1)).Pairwise (· ≤ ·) ∧ ∀ frame ∈ held, frame.2.1 ≤ top

/-- The client does not leave the key, the leader is not lost under it while it is parked, and a
snapshot handed to it is not from above the entry and finds room in its queue. -/
def Eased (key : SubKey) (client : Nat) (st : Live) : Op → Prop
  | .subscribe _ who _ => who < st.nextClientId
  | .unsubscribe who left => left = key → who ≠ client
  | .cleanupClient who => who ≠ client
  | .resyncAfterSourceLoss source =>
      st.losesLeader key (.resyncAfterSourceLoss source) = true → st.parked key client = false
  | .deliverSnapshot who fetched =>
      who = client → fetched.key = key →
        0 < (st.heap client).tx.room ∧ ∀ e ∈ st.getEntry key, fetched.height ≤ e.last
  | _ => True

instance (key : SubKey) (client : Nat) (st : Live) (op : Op) : Decidable (Eased key client st op) :=
  match op with
  | .subscribe _ who _ => inferInstanceAs (Decidable (who < _))
  | .unsubscribe who left => inferInstanceAs (Decidable (left = key → who ≠ client))
  | .cleanupClient who => inferInstanceAs (Decidable (who ≠ client))
  | .resyncAfterSourceLoss source =>
      inferInstanceAs (Decidable (st.losesLeader key (.resyncAfterSourceLoss source) = true →
        st.parked key client = false))
  | .deliverSnapshot who fetched =>
      inferInstanceAs (Decidable (who = client → fetched.key = key →
        0 < (st.heap client).tx.room ∧ ∀ e ∈ st.getEntry key, fetched.height ≤ e.last))
  | .registerClient _ | .pin .. | .onUpdate .. | .failPending .. | .receive _ | .close _ =>
      isTrue trivial

/-- The frames queued so far are steady, and so are those still held, under the entry. -/
structure SteadyFor (key : SubKey) (client : Nat) (st : Live) : Prop where
  seated : st.Seated
  tagged : HeldTagged st
  steady : (st.keyLog key client).IsChain Steadily
  attached : ∀ e, st.getEntry key = some e → client ∈ e.subscribers →
    ∀ last ∈ (st.keyLog key client).getLast?, last.seq.stamp ≤ e.last
  parked : ∀ e, st.getEntry key = some e → ∀ p ∈ e.pending, p.client = client →
    HeldUnder e.last p.held
  holds : key ∈ st.subscriptions client ∨ st.keyLog key client = []

namespace SteadyFor

variable {key : SubKey} {client : Nat} {st : Live} {op : Op} {e after : SubEntry Message}

/-- What a snapshot releases rises from above it to at most the entry's height. -/
theorem released_rises {p : Pending Message} (tagged : Tagged key e) (member : p ∈ e.pending)
    {top : Nat} (under : HeldUnder top p.held) (source height : Nat) :
    (SubEntry.backlogOf key source height p.held).Pairwise
        (fun before message => before.seq.stamp ≤ message.seq.stamp) ∧
      ∀ message ∈ SubEntry.backlogOf key source height p.held,
        height < message.seq.stamp ∧ message.seq.stamp ≤ top := by
  have stamps : ∀ frame ∈ p.held, frame.2.2.seq.stamp = frame.2.1 := fun frame held =>
    Seq.stamp_of_heldHeight (tagged p member frame held).2.2
  constructor
  · have rising := List.pairwise_map.mp under.1
    refine List.pairwise_map.mpr ((rising.sublist List.filter_sublist).imp_of_mem ?_)
    intro before frame held held' le
    rwa [stamps before (List.mem_of_mem_filter held), stamps frame (List.mem_of_mem_filter held')]
  · intro message released
    obtain ⟨src, h, held, above, -⟩ := mem_backlogOf.mp released
    have stamp := stamps _ held
    have most := under.2 _ held
    simp only at stamp most
    omega

theorem new (key : SubKey) (client : Nat) (sources : List Source) :
    SteadyFor key client (AppState.new sources) where
  seated := seated_new sources
  tagged := heldTagged_new sources
  steady := .nil
  attached := fun _ found => nomatch found
  parked := fun _ found => nomatch found
  holds := .inr rfl

section Raced

variable (incremental : key.isIncremental = true) (raced : key.singleSourced = false)
include incremental raced

/-- What such a key lets through is not below its entry. -/
theorem last_le_of_accepts {message : Message} (routed : message.key = key)
    (accepts : e.Accepts key message.source message.seq) : e.last ≤ message.seq.stamp := by
  rcases raced_seq_cases incremental raced routed with ⟨h, seq⟩ | ⟨h, seq⟩
  · rw [seq] at accepts ⊢
    have newer : e.last < h := accepts.2
    exact newer.le
  · rw [seq] at accepts ⊢
    have newer := accepts.2
    show e.last ≤ h
    omega

/-- Its entry comes down only when its leader is lost. -/
theorem last_le (found : st.getEntry key = some e) (found' : (st.step op).getEntry key = some after)
    (leads : st.losesLeader key op = false) : e.last ≤ after.last := by
  cases becomes found' with
  | kept before apart =>
      obtain rfl := Option.some.inj (found.symm.trans before)
      exact Nat.le_refl _
  | subscribed absent =>
      rw [entryOr_of_some found, attach_last]
  | pinned =>
      rw [entryOr_of_some found]
  | left before leaves _ =>
      obtain rfl := Option.some.inj (found.symm.trans before)
      exact Nat.le_refl _
  | @heard now message routed =>
      rw [entryOr_of_some found, SubEntry.update_last]
      split
      · next accepts => exact last_le_of_accepts incremental raced routed accepts
      · exact Nat.le_refl _
  | rebuilt before routed =>
      obtain rfl := Option.some.inj (found.symm.trans before)
      rw [(rebuild_arbitration e key _ _ _ _).1]
  | gaveUp before =>
      obtain rfl := Option.some.inj (found.symm.trans before)
      exact Nat.le_refl _
  | @lost source _ before =>
      obtain rfl := Option.some.inj (found.symm.trans before)
      have other : e.blockLeader ≠ some source := by
        intro same
        simp [losesLeader, found, same] at leads
      rw [loseSource_of_other _ _ _ other]

/-- What is held behind the client stays in order under the entry. -/
theorem parked_step (holds : SteadyFor key client st) (eased : Eased key client st op)
    (found' : (st.step op).getEntry key = some after) {p : Pending Message}
    (member : p ∈ after.pending) (own : p.client = client) : HeldUnder after.last p.held := by
  cases waits found' member with
  | @stayed _ e _ before listed _ =>
      have under := holds.parked e before p listed own
      have kept : st.losesLeader key op = false := by
        by_contra lost
        rw [Bool.not_eq_false] at lost
        have waiting := own ▸ parked_of_mem before listed
        cases op with
        | resyncAfterSourceLoss source =>
            rw [eased lost] at waiting
            exact nomatch waiting
        | _ => exact nomatch lost
      have above := last_le incremental raced before found' kept
      exact ⟨under.1, fun frame held => (under.2 frame held).trans above⟩
  | @piled now message e p before listed goesOut _ =>
      obtain ⟨routed, accepts⟩ := forwardedBy_onUpdate_iff.mp goesOut
      have under := holds.parked e before p listed own
      have top : after.last = message.seq.stamp := by
        have entry : after =
            ((st.entryOr now key).update key now message.source message.seq message).1 := by
          rw [getEntry_step, entryAfter, if_pos routed] at found'
          exact (Option.some.inj found').symm
        rw [entry, SubEntry.update_last, if_pos accepts]
      rw [entryOr_of_some before] at accepts
      have above := last_le_of_accepts incremental raced routed accepts
      constructor
      · show ((p.held ++ [(message.source, message.seq.stamp, message)]).map (·.2.1)).Pairwise _
        rw [List.map_append]
        refine List.pairwise_append.mpr ⟨under.1, List.pairwise_singleton _ _, ?_⟩
        intro earlier listed' last same
        obtain ⟨frame, held, rfl⟩ := List.mem_map.mp listed'
        rw [List.mem_singleton.mp same]
        exact (under.2 frame held).trans above
      · intro frame held
        rcases List.mem_append.mp held with old | new
        · exact ((under.2 frame old).trans above).trans top.ge
        · rw [List.mem_singleton.mp new]
          exact top.ge
  | joined => exact ⟨List.Pairwise.nil, fun _ held => absurd held List.not_mem_nil⟩
  | orphaned => exact ⟨List.Pairwise.nil, fun _ held => absurd held List.not_mem_nil⟩

/-- Where nothing is queued to the client, its entry stays above what was. -/
theorem attached_quiet (holds : SteadyFor key client st)
    (calm : ∀ fetched, op = .deliverSnapshot client fetched → fetched.key = key →
      st.parked key client = false)
    (found' : (st.step op).getEntry key = some after) (member : client ∈ after.subscribers) :
    ∀ last ∈ (st.keyLog key client).getLast?, last.seq.stamp ≤ after.last := by
  have used (now : Nat) (there : client ∈ (st.entryOr now key).subscribers) :
      ∃ e, st.getEntry key = some e ∧ client ∈ e.subscribers := by
    cases found : st.getEntry key with
    | none =>
        rw [entryOr_of_none found] at there
        exact absurd there List.not_mem_nil
    | some e => exact ⟨e, rfl, entryOr_of_some found now ▸ there⟩
  suffices was : (∃ e, st.getEntry key = some e ∧ client ∈ e.subscribers ∧
      st.losesLeader key op = false) ∨ st.keyLog key client = [] by
    intro last ends
    rcases was with ⟨e, found, listed, kept⟩ | none'
    · exact (holds.attached e found listed last ends).trans
        (last_le incremental raced found found' kept)
    · rw [none'] at ends
      cases ends
  cases becomes found' with
  | kept before apart =>
      refine .inl ⟨after, before, member, ?_⟩
      cases op with
      | resyncAfterSourceLoss source =>
          by_contra leads
          have led : after.blockLeader = some source := by simpa [losesLeader, before] using leads
          have same : (after.loseSource source key).1 = after := by
            rw [getEntry_step, entryAfter, before] at found'
            exact Option.some.inj found'
          rw [← same, loseSource_of_leads _ _ _ led incremental] at member
          exact absurd member List.not_mem_nil
      | _ => rfl
  | @subscribed now who absent =>
      rcases (mem_attach_subscribers _ _ _).mp member with listed | ⟨rfl, -⟩
      · obtain ⟨e, found, there⟩ := used now listed
        exact .inl ⟨e, found, there, rfl⟩
      · exact .inr (holds.holds.resolve_left absent)
  | @pinned now =>
      obtain ⟨e, found, there⟩ := used now member
      exact .inl ⟨e, found, there, rfl⟩
  | left before leaves _ =>
      refine .inl ⟨_, before, List.mem_of_mem_filter member, ?_⟩
      rcases leaves with rfl | rfl <;> rfl
  | @heard now message routed =>
      rw [SubEntry.update_subscribers] at member
      obtain ⟨e, found, there⟩ := used now member
      exact .inl ⟨e, found, there, rfl⟩
  | @rebuilt who fetched e before routed =>
      rcases (mem_rebuild_subscribers _ _ _ _ _ _).mp member with listed | ⟨rfl, waiting⟩
      · exact .inl ⟨e, before, listed, rfl⟩
      · have alone := calm fetched rfl routed
        rw [AppState.parked, before, Option.any_some, waiting] at alone
        cases alone
  | gaveUp before => exact .inl ⟨_, before, member, rfl⟩
  | @lost source e before =>
      by_cases leads : e.blockLeader = some source
      · rw [loseSource_of_leads _ _ _ leads incremental] at member
        exact absurd member List.not_mem_nil
      · rw [loseSource_of_other _ _ _ leads] at member
        refine .inl ⟨e, before, member, ?_⟩
        simp [losesLeader, before, leads]

/-- What an operation queues to the client goes on steadily from what was queued before, and the
entry it then stands on is not below it. -/
theorem queued_step (holds : SteadyFor key client st) (eased : Eased key client st op) :
    (st.keyLog key client ++ (st.queued client op).filter (·.key = key)).IsChain Steadily ∧
      ∀ after, (st.step op).getEntry key = some after → client ∈ after.subscribers →
        ∀ last ∈ (st.keyLog key client ++ (st.queued client op).filter (·.key = key)).getLast?,
          last.seq.stamp ≤ after.last := by
  have quiet (silent : (st.queued client op).filter (·.key = key) = [])
      (calm : ∀ fetched, op = .deliverSnapshot client fetched → fetched.key = key →
        st.parked key client = false) :
      (st.keyLog key client ++ (st.queued client op).filter (·.key = key)).IsChain Steadily ∧
        ∀ after, (st.step op).getEntry key = some after → client ∈ after.subscribers →
          ∀ last ∈ (st.keyLog key client ++
            (st.queued client op).filter (·.key = key)).getLast?, last.seq.stamp ≤ after.last := by
    rw [silent, List.append_nil]
    exact ⟨holds.steady, fun after found' member =>
      attached_quiet incremental raced holds calm found' member⟩
  cases op with
  | onUpdate now message =>
      cases queued : (st.queued client (.onUpdate now message)).filter (·.key = key) with
      | nil => exact queued ▸ quiet queued fun _ same => by cases same
      | cons first rest =>
          have each : ∀ item ∈ first :: rest, item = message ∧ item.key = key ∧
              ∃ e, st.getEntry message.key = some e ∧
                e.Accepts message.key message.source message.seq ∧ client ∈ e.subscribers := by
            intro item listed
            rw [← queued, List.mem_filter, decide_eq_true_eq] at listed
            have facts := st.mem_queued_onUpdate listed.1
            exact ⟨facts.1, listed.2, facts.2⟩
          obtain ⟨same, routed, e, found, accepts, member⟩ := each first List.mem_cons_self
          rw [same] at routed
          subst routed
          have above := last_le_of_accepts incremental raced rfl accepts
          have copies : first :: rest = List.replicate (rest.length + 1) message :=
            List.eq_replicate_iff.mpr ⟨rfl, fun item listed => (each item listed).1⟩
          constructor
          · rw [copies]
            refine List.isChain_append.mpr ⟨holds.steady, ?_, ?_⟩
            · exact List.isChain_replicate_of_rel _ (.inr (Nat.le_refl _))
            · intro last ends opening begins
              have opens := List.eq_of_mem_replicate (List.mem_of_mem_head? begins)
              exact .inr (opens ▸ (holds.attached e found member last ends).trans above)
          · intro after found' _ last ends
            rw [List.getLast?_append_cons] at ends
            have lastly := (each last (List.mem_of_getLast? ends)).1
            rw [getEntry_step, entryAfter, if_pos rfl] at found'
            rw [← Option.some.inj found', entryOr_of_some found, SubEntry.update_last,
              if_pos accepts, lastly]
  | deliverSnapshot who fetched =>
      cases queued : (st.queued client (.deliverSnapshot who fetched)).filter (·.key = key) with
      | nil =>
          refine queued ▸ quiet queued fun other same routed => ?_
          obtain ⟨rfl, rfl⟩ := Op.deliverSnapshot.inj same
          have room := (eased rfl routed).1
          by_contra waiting
          rw [Bool.not_eq_false, AppState.parked] at waiting
          obtain ⟨e, found, waits⟩ := Option.any_eq_true .. |>.mp waiting
          obtain ⟨p, listed⟩ := (isRebuilding_iff e who).mp waits
          subst routed
          rw [queued_deliverSnapshot_eq found listed] at queued
          obtain ⟨more, depth⟩ := Nat.exists_eq_add_of_lt room
          simp [depth, Fetched.message] at queued
      | cons first rest =>
          have kept : first ∈ (st.queued client (.deliverSnapshot who fetched)).filter
              (·.key = key) := queued ▸ List.mem_cons_self
          obtain ⟨listed, own⟩ := List.mem_filter.mp kept
          obtain ⟨rfl, e, p, found, waits, -⟩ := st.queued_deliverSnapshot listed
          have routed : fetched.key = key :=
            (Option.some.inj (carries_of_mem_queued holds.tagged listed)).trans
              (of_decide_eq_true own)
          subst routed
          have member := List.mem_of_find?_eq_some waits
          have named : p.client = client := by simpa using List.find?_some waits
          obtain ⟨rising, between⟩ := released_rises (holds.tagged _ e found) member
            (holds.parked e found p member named) fetched.source fetched.height
          have low := (eased rfl rfl).2 e found
          have chain : (fetched.message :: SubEntry.backlogOf fetched.key fetched.source
              fetched.height p.held).IsChain Steadily := by
            refine (List.pairwise_cons.mpr ⟨?_, rising.imp Or.inr⟩).isChain
            exact fun message released => .inr (between message released).1.le
          have all : (st.queued client (.deliverSnapshot client fetched)).filter
              (·.key = fetched.key) = st.queued client (.deliverSnapshot client fetched) := by
            refine List.filter_eq_self.mpr fun item queued => decide_eq_true ?_
            exact (Option.some.inj (carries_of_mem_queued holds.tagged queued)).symm
          rw [← queued, all, queued_deliverSnapshot_eq found waits]
          constructor
          · refine List.isChain_append.mpr ⟨holds.steady, chain.take _, ?_⟩
            intro last ends opening begins
            refine .inl ?_
            have opens : opening = fetched.message := by
              cases room : (st.heap client).tx.room with
              | zero => simp [room] at begins
              | succ more => simpa [room] using begins.symm
            rw [opens]
            rfl
          · intro after found' _ last ends
            have height : after.last = e.last := by
              rw [getEntry_step, entryAfter, if_pos rfl, found] at found'
              rw [← Option.some.inj found', (rebuild_arbitration e _ _ _ _ _).1]
            have nonempty : (fetched.message :: SubEntry.backlogOf fetched.key fetched.source
                fetched.height p.held).take (st.heap client).tx.room ≠ [] := by
              rw [← queued_deliverSnapshot_eq found waits]
              exact List.ne_nil_of_mem listed
            rw [List.getLast?_append_of_ne_nil _ nonempty] at ends
            rw [height]
            rcases List.mem_cons.mp (List.mem_of_mem_take (List.mem_of_getLast? ends)) with
              same | released
            · rw [same]
              exact low
            · exact (between last released).2
  | _ => exact quiet (by simp [queued, offered]) fun _ same => by cases same

end Raced

/-- A client that is queued a frame of the key holds it. -/
theorem holds_of_queued (holds : SteadyFor key client st) {item : Message}
    (member : item ∈ st.queued client op) (routed : item.key = key) :
    key ∈ st.subscriptions client := by
  cases op with
  | onUpdate now message =>
      obtain ⟨rfl, e, found, -, listed⟩ := st.mem_queued_onUpdate member
      rw [routed] at found
      exact holds.seated.held key e found client (.inl listed)
  | deliverSnapshot who fetched =>
      have carried := Option.some.inj (carries_of_mem_queued holds.tagged member)
      obtain ⟨rfl, e, p, found, waits, -⟩ := st.queued_deliverSnapshot member
      rw [carried, routed] at found
      exact holds.seated.held key e found client
        (.inr ((isRebuilding_iff e client).mpr ⟨p, waits⟩))
  | _ => simp [queued, offered] at member

theorem keeps_key (held : key ∈ st.subscriptions client) (eased : Eased key client st op)
    (old : ¬ st.Registers client op) : key ∈ (st.step op).subscriptions client := by
  rw [subscriptions_step]
  cases op with
  | registerClient ip =>
      have other : client ≠ st.nextClientId := fun same => old ⟨⟨ip, rfl⟩, same⟩
      rwa [subscriptionsAfter, if_neg other]
  | subscribe now who other =>
      rw [subscriptionsAfter]
      split
      · exact List.mem_cons_of_mem _ held
      · exact held
  | unsubscribe who left =>
      rw [subscriptionsAfter]
      split
      · next same =>
          refine List.mem_filter.mpr ⟨held, decide_eq_true fun gone => ?_⟩
          exact eased gone.symm same.symm
      · exact held
  | cleanupClient who =>
      have other : client ≠ who := Ne.symm eased
      rwa [subscriptionsAfter, if_neg other]
  | _ => exact held

/-- Every operation keeps the stream steady. -/
theorem step (incremental : key.isIncremental = true) (raced : key.singleSourced = false)
    (holds : SteadyFor key client st) (eased : Eased key client st op) :
    SteadyFor key client (st.step op) := by
  have handed : st.Handed op := by
    cases op with
    | subscribe now who other => exact eased
    | _ => trivial
  have seated := seated_step holds.seated op handed
  have tagged := heldTagged_step holds.tagged op
  have parked : ∀ after, (st.step op).getEntry key = some after → ∀ p ∈ after.pending,
      p.client = client → HeldUnder after.last p.held := fun _ found' _ member own =>
    parked_step incremental raced holds eased found' member own
  by_cases registers : st.Registers client op
  · have blank : (st.step op).keyLog key client = [] := by
      rw [keyLog, log_step_of_registers st registers]
      rfl
    refine ⟨seated, tagged, blank ▸ .nil, ?_, parked, .inr blank⟩
    rw [blank]
    exact fun _ _ _ _ ends => nomatch ends
  · have grown : (st.step op).keyLog key client =
        st.keyLog key client ++ (st.queued client op).filter (·.key = key) := by
      rw [keyLog, st.log_step op client registers, List.filter_append]
      rfl
    obtain ⟨steady, attached⟩ := queued_step incremental raced holds eased
    refine ⟨seated, tagged, grown ▸ steady, grown ▸ attached, parked, ?_⟩
    rcases holds.holds with held | none'
    · exact .inl (keeps_key held eased registers)
    · cases queued : (st.queued client op).filter (·.key = key) with
      | nil => exact .inr (by rw [grown, none', queued]; rfl)
      | cons first rest =>
          have kept : first ∈ (st.queued client op).filter (·.key = key) :=
            queued ▸ List.mem_cons_self
          obtain ⟨member, own⟩ := List.mem_filter.mp kept
          exact .inl (keeps_key (holds_of_queued holds member (of_decide_eq_true own)) eased
            registers)

end SteadyFor

/-! ### The checker's verdict -/

/-- While the client of a checker keeps its stream at ease, and the checker reads every text queued
to it as the kind and the height it was queued under, the checker passes these texts exactly if a
snapshot opened them. -/
theorem checker_passes_iff (coin : String) (client : Nat) (sources : List Source) (ops : List Op)
    (eased : Throughout AppState.step (Eased (.l4Book coin) client) (AppState.new sources) ops)
    (read : ∀ message ∈ (run AppState.step (AppState.new sources) ops).keyLog (.l4Book coin) client,
      StreamCheck.item? message.text = some ⟨message.seq.isSnapshot, message.seq.stamp⟩) :
    let log := (run AppState.step (AppState.new sources) ops).keyLog (.l4Book coin) client
    (StreamCheck.runClient (log.map (·.text)) none).ok = true ↔
      ∃ first, log.head? = some first ∧ first.seq.isSnapshot = true := by
  intro log
  have steady : log.IsChain Steadily :=
    (run_keeps (fun _ _ holds eased => SteadyFor.step rfl rfl holds eased) ops
      (SteadyFor.new (.l4Book coin) client sources) eased).steady
  have items : (log.map (·.text)).filterMap StreamCheck.item? =
      log.map fun message => ⟨message.seq.isSnapshot, message.seq.stamp⟩ := by
    rw [List.filterMap_map, ← List.filterMap_eq_map]
    exact List.filterMap_congr read
  rw [StreamCheck.ok_iff, items]
  constructor
  · intro ⟨_, first, rest, split, snapshot, _⟩
    obtain ⟨message, others, same, rfl, -⟩ := List.map_eq_cons_iff.mp split
    exact ⟨message, by rw [same]; rfl, snapshot⟩
  · intro ⟨first, opens, snapshot⟩
    obtain ⟨rest, split⟩ := List.head?_eq_some_iff.mp opens
    refine ⟨rfl, _, _, by rw [split]; rfl, snapshot, ?_⟩
    have mapped := (List.isChain_map (R := StreamCheck.Steady) fun message : Message =>
      (⟨message.seq.isSnapshot, message.seq.stamp⟩ : StreamCheck.Item)).mpr steady
    rwa [split] at mapped

/-- An `l4Book` snapshot as a source answers with it. -/
def answeredBook (source : Nat) (coin : String) (height : Nat) : Fetched :=
  ⟨source, .l4Book coin, height, StreamCheck.l4Frame "Snapshot" height, rfl⟩

/-- A late joiner is parked behind a client of two sources, and handed a snapshot at 11 while the
entry stands at 12. -/
def joinsLate : List Op :=
  [.registerClient "127.0.0.1", .registerClient "127.0.0.1",
    .subscribe 0 1 (.l4Book "BTC"),
    .onUpdate 1 (.l4Snapshot 0 "BTC" 10 (StreamCheck.l4Frame "Snapshot" 10)),
    .subscribe 2 2 (.l4Book "BTC"),
    .onUpdate 3 (.l4Block 0 "BTC" 11 (StreamCheck.l4Frame "Updates" 11)),
    .onUpdate 4 (.l4Block 1 "BTC" 12 (StreamCheck.l4Frame "Updates" 12)),
    .deliverSnapshot 2 (answeredBook 0 "BTC" 11),
    .onUpdate 5 (.l4Block 0 "BTC" 13 (StreamCheck.l4Frame "Updates" 13))]

theorem checker_passes_iff_late :
    (StreamCheck.runClient (((run AppState.step (AppState.new [{ id := 0 }, { id := 1 }])
      joinsLate).keyLog (.l4Book "BTC") 2).map (·.text)) none).ok = true :=
  (checker_passes_iff "BTC" 2 [{ id := 0 }, { id := 1 }] joinsLate (by decide) (by decide)).mpr
    ⟨_, rfl, rfl⟩

end Wsarb
