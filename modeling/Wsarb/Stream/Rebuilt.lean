import Wsarb.Stream.Attached

/-!
Owns what becomes of an `l2Diff` client after its rebuild: `deliver_snapshot` makes the
snapshot's source the leader and leaves the entry's height to whoever led before, so the
new leader carries the client exactly when it does not start below that height.
-/

namespace Wsarb

open Wsarb.Library AppState

variable (key : SubKey) (client source : Nat)

/-- The stamp of the frame of `source` on the key, if the operation brings one. -/
def ownStamp : Op → Option Nat
  | .onUpdate _ message =>
      if message.key = key ∧ message.source = source then some message.seq.stamp else none
  | _ => none

/-- The operation neither takes the client off the key nor the key off the source, and a
frame of the source is an increment. -/
def Undisturbed : Op → Prop
  | .onUpdate _ message =>
      message.key = key → message.source = source → ∃ v, message.seq = .sticky v
  | .deliverSnapshot _ fetched => fetched.key ≠ key
  | .resyncAfterSourceLoss lost => lost ≠ source
  | .unsubscribe who left => left = key → who ≠ client
  | .cleanupClient who => who ≠ client
  | _ => True

/-- A frame of the source, if the operation brings one, is forwarded to the client. -/
def Carried (st : Live) : Op → Prop
  | .onUpdate now message =>
      message.key = key → message.source = source →
        client ∈ st.recipients now message.source message.key message.seq message
  | _ => True

variable {key client source} (single : key.singleSourced = true)
  {st : Live} {e : SubEntry Message} {op : Op}

theorem of_apart (client source : Nat) (st : Live) (apart : op.carries ≠ some key) :
    ownStamp key source op = none ∧ Carried key client source st op := by
  cases op with
  | onUpdate now message =>
      have other : message.key ≠ key := fun same => apart (congrArg some same)
      exact ⟨if_neg fun both => other both.1, fun same => absurd same other⟩
  | _ => exact ⟨rfl, trivial⟩

section Heard

variable (found : st.getEntry key = some e) (leads : e.blockLeader = some source)
  {now : Nat} {message : Message} (routed : message.key = key)

include found leads routed in
/-- A frame of the leader is carried to an attached client exactly when it is not below the
entry, which it then moves. -/
theorem led_own (member : client ∈ e.subscribers) (own : message.source = source) {v : Nat}
    (sticky : message.seq = .sticky v) :
    (Carried key client source st (.onUpdate now message) ↔ e.last ≤ v) ∧
      (e.update key now message.source message.seq message).1.last = max e.last v := by
  have accepts : e.Accepts key message.source message.seq ↔ e.last ≤ v := by
    rw [sticky, own]
    simp [SubEntry.Accepts, leads]
  constructor
  · rw [← accepts]
    constructor
    · intro reaches
      obtain ⟨_, found', goesOut, -⟩ :=
        (st.mem_recipients _ _ _ _ _ client).mp (reaches routed own)
      rw [routed] at found' goesOut
      rwa [Option.some.inj (found.symm.trans found')]
    · intro goesOut _ _
      rw [st.mem_recipients, routed]
      exact ⟨e, found, goesOut, member⟩
  · rw [SubEntry.update_last]
    by_cases fresh : e.last ≤ v
    · rw [if_pos (accepts.mpr fresh), sticky, max_eq_right fresh]
      rfl
    · rw [if_neg (mt accepts.mp fresh), max_eq_left (Nat.le_of_not_le fresh)]

include single leads routed in
/-- A frame of another source changes neither the leader nor the height. -/
theorem led_other (other : message.source ≠ source) :
    (e.update key now message.source message.seq message).1.last = e.last := by
  have refuses : ¬ e.Accepts key message.source message.seq := fun accepts =>
    other (leads_of_accepts single routed accepts leads).symm
  rw [SubEntry.update_last, if_neg refuses]

include single leads routed in
/-- Whoever leads goes on leading. -/
theorem led_leader :
    (e.update key now message.source message.seq message).1.blockLeader = some source := by
  rw [SubEntry.update_blockLeader _ _ _ _ _ _ (seq_ne_point single routed)]
  split
  · next accepts => rw [leads_of_accepts single routed accepts leads]
  · exact leads

end Heard

include single in
/-- While it is not disturbed, a source that leads goes on leading, its client stays, and
the height moves with the source's own increments alone. -/
theorem led_step (found : st.getEntry key = some e) (member : client ∈ e.subscribers)
    (leads : e.blockLeader = some source) (undisturbed : Undisturbed key client source op) :
    ∃ after, (st.step op).getEntry key = some after ∧ client ∈ after.subscribers ∧
      after.blockLeader = some source ∧
      after.last = (ownStamp key source op).elim e.last (max e.last) ∧
      (Carried key client source st op ↔ ∀ v ∈ ownStamp key source op, e.last ≤ v) := by
  have remains : Remains key client e op := by
    cases op with
    | unsubscribe who left => exact undisturbed
    | cleanupClient who => exact undisturbed
    | resyncAfterSourceLoss lost =>
        rw [Remains, leads]
        exact fun same => undisturbed (Option.some.inj same).symm
    | _ => trivial
  obtain ⟨after, found', member'⟩ := stays found member remains
  refine ⟨after, found', member', ?_⟩
  cases becomes found' with
  | @kept op _ before apart =>
      obtain rfl := Option.some.inj (found.symm.trans before)
      obtain ⟨silent, carried⟩ := of_apart client source st apart
      rw [silent]
      exact ⟨leads, rfl, iff_of_true carried (by simp)⟩
  | subscribed absent =>
      rw [entryOr_of_some found, attach_blockLeader, attach_last]
      exact ⟨leads, rfl, iff_of_true trivial (by simp [ownStamp])⟩
  | pinned =>
      rw [entryOr_of_some found]
      exact ⟨leads, rfl, iff_of_true trivial (by simp [ownStamp])⟩
  | @left op who before found'' leaves _ =>
      obtain rfl := Option.some.inj (found.symm.trans found'')
      obtain rfl | rfl := leaves
      · exact ⟨leads, rfl, iff_of_true trivial (by simp [ownStamp])⟩
      · exact ⟨leads, rfl, iff_of_true trivial (by simp [ownStamp])⟩
  | @heard now message routed =>
      have leads' : (e.update key now message.source message.seq message).1.blockLeader =
          some source := led_leader single leads routed
      rw [entryOr_of_some found]
      by_cases own : message.source = source
      · obtain ⟨v, sticky⟩ := undisturbed routed own
        have stamp : ownStamp key source (.onUpdate now message) = some v := by
          rw [ownStamp, if_pos ⟨routed, own⟩, sticky]
          rfl
        obtain ⟨carried, last⟩ := led_own found leads routed member own sticky
        rw [stamp, Option.elim_some, carried]
        exact ⟨leads', last, by simp⟩
      · have silent : ownStamp key source (.onUpdate now message) = none :=
          if_neg fun both => own both.2
        rw [silent]
        refine ⟨leads', led_other single leads routed own, ?_⟩
        exact iff_of_true (fun _ same => absurd same own) (by simp)
  | rebuilt before routed => exact absurd routed undisturbed
  | gaveUp before =>
      obtain rfl := Option.some.inj (found.symm.trans before)
      exact ⟨leads, rfl, iff_of_true trivial (by simp [ownStamp])⟩
  | @lost lost before found'' =>
      obtain rfl := Option.some.inj (found.symm.trans found'')
      rw [loseSource_of_other _ _ _ remains]
      exact ⟨leads, rfl, iff_of_true trivial (by simp [ownStamp])⟩

include single in
/-- A leader whose stamps never go down carries its client exactly when its first stamp is
not below the height it starts from. -/
theorem carried_iff_of_leads (ops : List Op)
    (undisturbed : ∀ op ∈ ops, Undisturbed key client source op)
    (ascending : (ops.filterMap (ownStamp key source)).Pairwise (· ≤ ·))
    (found : st.getEntry key = some e) (member : client ∈ e.subscribers)
    (leads : e.blockLeader = some source) :
    Throughout step (Carried key client source) st ops ↔
      ∀ first ∈ (ops.filterMap (ownStamp key source)).head?, e.last ≤ first := by
  induction ops generalizing st e with
  | nil => simp
  | cons op rest inductionHypothesis =>
      obtain ⟨first, later⟩ := List.forall_mem_cons.mp undisturbed
      obtain ⟨after, found', member', leads', last, carried⟩ :=
        led_step single found member leads first
      have rest := fun ascending => inductionHypothesis later ascending found' member' leads'
      rw [throughout_cons, carried]
      cases stamp : ownStamp key source op with
      | none =>
          rw [List.filterMap_cons_none stamp] at ascending ⊢
          rw [stamp, Option.elim_none] at last
          rw [rest ascending, last]
          simp
      | some v =>
          rw [List.filterMap_cons_some stamp] at ascending ⊢
          obtain ⟨above, ascending⟩ := List.pairwise_cons.mp ascending
          rw [stamp, Option.elim_some] at last
          rw [rest ascending, last]
          simp only [Option.mem_some, forall_eq', List.head?_cons]
          constructor
          · exact And.left
          · intro fresh
            refine ⟨fresh, fun next member => ?_⟩
            rw [max_eq_right fresh]
            exact above next (List.mem_of_mem_head? member)

/-- On `l2Diff`, whatever follows a rebuild short of another one, a loss of the source or
the client's own leaving, every later frame of the snapshot's source reaches the client
exactly when the first of them is not below the height the entry had at the rebuild. -/
theorem rebuilt_client_carried_iff (coin : String) (nSigFigs : Option UInt32)
    (nLevels mantissa : Option UInt64) (st : Live) (e : SubEntry Message) (client : Nat)
    (fetched : Fetched) (routed : fetched.key = .l2Diff coin nSigFigs nLevels mantissa)
    (found : st.getEntry fetched.key = some e) (parked : e.isRebuilding client = true)
    (ops : List Op)
    (undisturbed : ∀ op ∈ ops, Undisturbed fetched.key client fetched.source op)
    (ascending : (ops.filterMap (ownStamp fetched.key fetched.source)).Pairwise (· ≤ ·)) :
    Throughout step (Carried fetched.key client fetched.source)
        (st.step (.deliverSnapshot client fetched)) ops ↔
      ∀ first ∈ (ops.filterMap (ownStamp fetched.key fetched.source)).head?, e.last ≤ first := by
  have single : fetched.key.singleSourced = true := by
    rw [routed]
    rfl
  have after : (st.step (.deliverSnapshot client fetched)).getEntry fetched.key =
      some (e.rebuild fetched.key client fetched.source fetched.height fetched.message).1 := by
    rw [getEntry_step, entryAfter, if_pos rfl, found]
    rfl
  have member := (mem_rebuild_subscribers e fetched.key client fetched.source fetched.height
    fetched.message).mpr (Or.inr ⟨rfl, parked⟩)
  have leads : (e.rebuild fetched.key client fetched.source fetched.height
      fetched.message).1.blockLeader = some fetched.source := by
    rw [rebuild_blockLeader, if_pos ⟨parked, single⟩]
  rw [carried_iff_of_leads single ops undisturbed ascending after member leads,
    (rebuild_arbitration _ _ _ _ _ _).1]

/-- Client 2 is parked while source 0 leads at height 20. -/
def parkedAtTwenty : List Op :=
  [.registerClient "a", .registerClient "b", .subscribe 1 1 (.l2Diff "BTC" none none none),
    .onUpdate 2 ⟨0, .l2Diff "BTC" none none none, .snapshot 20, "book 0", rfl⟩,
    .subscribe 3 2 (.l2Diff "BTC" none none none)]

/-- Rebuilt from source 1 at 15, the client is carried from that source's increment at 21. -/
theorem rebuilt_client_carried_iff_ahead :
    Throughout step (Carried (.l2Diff "BTC" none none none) 2 1)
      ((run step (AppState.new [{ id := 0 }, { id := 1 }]) parkedAtTwenty).step
        (.deliverSnapshot 2 ⟨1, .l2Diff "BTC" none none none, 15, "book 1", rfl⟩))
      [.onUpdate 4 ⟨1, .l2Diff "BTC" none none none, .sticky 21, "increment", rfl⟩] :=
  (rebuilt_client_carried_iff "BTC" none none none
    (run step (AppState.new [{ id := 0 }, { id := 1 }]) parkedAtTwenty) _ 2
    ⟨1, .l2Diff "BTC" none none none, 15, "book 1", rfl⟩ rfl rfl rfl
    [.onUpdate 4 ⟨1, .l2Diff "BTC" none none none, .sticky 21, "increment", rfl⟩]
    (by simp [Undisturbed]) (by decide)).mpr (by decide)

/-- Rebuilt from source 1 at 15, the client misses that source's increment at 16, which is
stale at the height source 0 left. -/
theorem rebuilt_client_misses_increment :
    ¬ ∀ (sources : List Source) (before : List Op) (client : Nat) (fetched : Fetched)
      (e : SubEntry Message) (ops : List Op),
      fetched.key = .l2Diff "BTC" none none none →
      (run step (AppState.new sources) before).getEntry fetched.key = some e →
      e.isRebuilding client = true →
      (∀ op ∈ ops, Undisturbed fetched.key client fetched.source op) →
      (ops.filterMap (ownStamp fetched.key fetched.source)).Pairwise (· ≤ ·) →
      (∀ v ∈ ops.filterMap (ownStamp fetched.key fetched.source), fetched.height < v) →
      Throughout step (Carried fetched.key client fetched.source)
        ((run step (AppState.new sources) before).step (.deliverSnapshot client fetched)) ops := by
  intro always
  have carried := always [{ id := 0 }, { id := 1 }] parkedAtTwenty 2
    ⟨1, .l2Diff "BTC" none none none, 15, "book 1", rfl⟩ _
    [.onUpdate 4 ⟨1, .l2Diff "BTC" none none none, .sticky 16, "increment", rfl⟩]
    rfl rfl rfl (by simp [Undisturbed]) (by decide) (by decide)
  exact absurd (carried.1 rfl rfl) (by decide)

end Wsarb
