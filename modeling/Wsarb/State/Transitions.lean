import Wsarb.State.Operations

/-!
Owns what one operation can make of one key's entry, as a list of cases: every invariant
of entries is proved by going through `Becomes`. Owns the first such invariant: frames
held for a parked client carry their own source, key and height.
-/

namespace Wsarb

open Wsarb.Library

/-- The key whose frames an operation may queue. -/
def Op.carries : Op → Option SubKey
  | .onUpdate _ message => some message.key
  | .deliverSnapshot _ fetched => some fetched.key
  | _ => none

namespace AppState

/-- The ways an operation can leave a key with the entry `e`. -/
inductive Becomes (st : Live) (key : SubKey) : Op → SubEntry Message → Prop
  | kept {op : Op} {e : SubEntry Message} (before : st.getEntry key = some e)
      (apart : op.carries ≠ some key) :
      Becomes st key op e
  | subscribed {now client : Nat} (absent : key ∉ st.subscriptions client) :
      Becomes st key (.subscribe now client key) (attach (st.entryOr now key) key client).1
  | pinned {now : Nat} :
      Becomes st key (.pin now key)
        { st.entryOr now key with pinned := true, upstreamSubscribed := true }
  | left {op : Op} {client : Nat} {e : SubEntry Message} (before : st.getEntry key = some e)
      (leaves : op = .unsubscribe client key ∨ op = .cleanupClient client)
      (stays : (leave e client).2 = false) :
      Becomes st key op (without e client)
  | heard {now : Nat} {message : Message} (routed : message.key = key) :
      Becomes st key (.onUpdate now message)
        ((st.entryOr now key).update key now message.source message.seq message).1
  | rebuilt {client : Nat} {fetched : Fetched} {e : SubEntry Message}
      (before : st.getEntry key = some e) (routed : fetched.key = key) :
      Becomes st key (.deliverSnapshot client fetched)
        (e.rebuild key client fetched.source fetched.height fetched.message).1
  | gaveUp {client : Nat} {e : SubEntry Message} (before : st.getEntry key = some e) :
      Becomes st key (.failPending key client) (givenUp client e)
  | lost {source : Nat} {e : SubEntry Message} (before : st.getEntry key = some e) :
      Becomes st key (.resyncAfterSourceLoss source) (e.loseSource source key).1

variable {st : Live} {key : SubKey} {op : Op} {e : SubEntry Message}

theorem detached_eq_some {client : Nat} {old : Option (SubEntry Message)}
    (found : detached client old = some e) :
    ∃ before, old = some before ∧ (leave before client).2 = false ∧ e = without before client := by
  cases old with
  | none => simp [detached] at found
  | some before =>
      refine ⟨before, rfl, ?_⟩
      unfold detached at found
      by_cases last : abandoned (without before client) = true
      · simp [leave, last] at found
      · have stays : leave before client = (without before client, false) := by
          rw [leave, if_neg last]
        simp only [stays, Bool.false_eq_true, if_false, Option.some.injEq] at found
        exact ⟨by rw [stays], found.symm⟩

/-- An entry after an operation came about in one of the ways listed. -/
theorem becomes (found : (st.step op).getEntry key = some e) : Becomes st key op e := by
  rw [getEntry_step] at found
  cases op with
  | registerClient ip => exact .kept found (Option.some_ne_none key).symm
  | subscribe now client subscribed =>
      simp only [entryAfter] at found
      split at found
      · next attaches =>
          obtain ⟨rfl, absent⟩ := attaches
          cases found
          exact .subscribed absent
      · exact .kept found (Option.some_ne_none key).symm
  | pin now pinned =>
      simp only [entryAfter] at found
      split at found
      · next same =>
          subst same
          cases found
          exact .pinned
      · exact .kept found (Option.some_ne_none key).symm
  | unsubscribe client gone =>
      simp only [entryAfter] at found
      split at found
      · next leaves =>
          obtain ⟨rfl, -⟩ := leaves
          obtain ⟨before, old, stays, rfl⟩ := detached_eq_some found
          exact .left old (Or.inl rfl) stays
      · exact .kept found (Option.some_ne_none key).symm
  | onUpdate now message =>
      simp only [entryAfter] at found
      split at found
      · next routed =>
          cases found
          exact .heard routed
      · next other => exact .kept found fun same => other (Option.some.inj same)
  | deliverSnapshot client fetched =>
      simp only [entryAfter] at found
      split at found
      · next routed =>
          obtain ⟨before, old, rfl⟩ := Option.map_eq_some_iff.mp found
          exact .rebuilt old routed
      · next other => exact .kept found fun same => other (Option.some.inj same)
  | failPending failed client =>
      simp only [entryAfter] at found
      split at found
      · next same =>
          subst same
          obtain ⟨before, old, rfl⟩ := Option.map_eq_some_iff.mp found
          exact .gaveUp old
      · exact .kept found (Option.some_ne_none key).symm
  | resyncAfterSourceLoss source =>
      obtain ⟨before, old, rfl⟩ := Option.map_eq_some_iff.mp found
      exact .lost old
  | cleanupClient client =>
      simp only [entryAfter] at found
      split at found
      · obtain ⟨before, old, stays, rfl⟩ := detached_eq_some found
        exact .left old (Or.inr rfl) stays
      · exact .kept found (Option.some_ne_none key).symm
  | receive client => exact .kept found (Option.some_ne_none key).symm
  | close client => exact .kept found (Option.some_ne_none key).symm

theorem entryOr_of_some (found : st.getEntry key = some e) (now : Nat) :
    st.entryOr now key = e := by
  rw [entryOr, found, Option.getD_some]

theorem entryOr_of_none (absent : st.getEntry key = none) (now : Nat) :
    st.entryOr now key = SubEntry.new now := by
  rw [entryOr, absent, Option.getD_none]

/-- What holds of a fresh entry and of the entry there is holds of the one used. -/
theorem entryOr_of {P : SubEntry Message → Prop} (fresh : ∀ now, P (SubEntry.new now))
    (holds : ∀ e, st.getEntry key = some e → P e) (now : Nat) : P (st.entryOr now key) := by
  cases found : st.getEntry key with
  | none => rw [entryOr_of_none found]; exact fresh now
  | some e => rw [entryOr_of_some found]; exact holds e found

end AppState

/-! ### Field by field -/

section Fields

open AppState

variable {β : Type} (e : SubEntry β) (key : SubKey) (client : Nat)

@[simp] theorem attach_blockLeader : (attach e key client).1.blockLeader = e.blockLeader := by
  unfold attach
  dsimp only
  split_ifs <;> rfl

@[simp] theorem attach_last : (attach e key client).1.last = e.last := by
  unfold attach
  dsimp only
  split_ifs <;> rfl

@[simp] theorem attach_counters : (attach e key client).1.blockSent = e.blockSent ∧
    (attach e key client).1.blockSeen = e.blockSeen ∧
    (attach e key client).1.needsSnapshot = e.needsSnapshot := by
  unfold attach
  dsimp only
  split_ifs <;> exact ⟨rfl, rfl, rfl⟩

/-- Who is attached after a subscription: whoever was, and the subscriber unless it must
wait for a snapshot. -/
theorem mem_attach_subscribers {other : Nat} :
    other ∈ (attach e key client).1.subscribers ↔
      other ∈ e.subscribers ∨
        other = client ∧ ¬ (e.upstreamSubscribed = true ∧ key.isIncremental = true) := by
  unfold attach
  cases e.upstreamSubscribed <;> cases key.isIncremental <;>
    by_cases listed : client ∈ e.subscribers <;> by_cases parked : e.isRebuilding client = true <;>
    simp [listed, parked] <;> grind

/-- Who is parked after a subscription: whoever was, and the subscriber, holding nothing
yet, if it must wait and is not waiting already. -/
theorem mem_attach_pending {p : Pending β} :
    p ∈ (attach e key client).1.pending ↔
      p ∈ e.pending ∨
        e.upstreamSubscribed = true ∧ key.isIncremental = true ∧ e.isRebuilding client = false ∧
          p = { client := client, held := [], bytes := 0 } := by
  unfold attach
  cases e.upstreamSubscribed <;> cases key.isIncremental <;>
    by_cases listed : client ∈ e.subscribers <;> by_cases parked : e.isRebuilding client = true <;>
    simp [listed, parked]

theorem isRebuilding_iff : e.isRebuilding client = true ↔
    ∃ p, e.pending.find? (·.client == client) = some p := by
  rw [SubEntry.isRebuilding, List.any_eq_true, ← List.find?_isSome, Option.isSome_iff_exists]

variable (source height : Nat) (snapshot : β)

theorem rebuild_of_absent (absent : e.isRebuilding client = false) :
    e.rebuild key client source height snapshot = (e, none) := by
  have nobody : e.pending.find? (·.client == client) = none := by
    rw [SubEntry.isRebuilding] at absent
    rw [List.find?_eq_none]
    intro p member holds
    rw [List.any_eq_false] at absent
    exact absent p member holds
  simp only [SubEntry.rebuild, nobody]

theorem rebuild_of_parked {p : Pending β}
    (parked : e.pending.find? (·.client == client) = some p) :
    e.rebuild key client source height snapshot =
      ({ e with
          pending := e.pending.eraseP (·.client == client)
          blockLeader := if key.singleSourced then some source else e.blockLeader
          subscribers := e.subscribers ++ [client] },
        some (snapshot :: SubEntry.backlogOf key source height p.held)) := by
  simp only [SubEntry.rebuild, parked]

theorem mem_rebuild_subscribers {other : Nat} :
    other ∈ (e.rebuild key client source height snapshot).1.subscribers ↔
      other ∈ e.subscribers ∨ other = client ∧ e.isRebuilding client = true := by
  cases parked : e.isRebuilding client with
  | false => simp [rebuild_of_absent e key client source height snapshot parked]
  | true =>
      obtain ⟨p, found⟩ := (isRebuilding_iff e client).mp parked
      simp [rebuild_of_parked e key client source height snapshot found]

theorem mem_of_mem_rebuild_pending {p : Pending β}
    (member : p ∈ (e.rebuild key client source height snapshot).1.pending) : p ∈ e.pending := by
  cases parked : e.isRebuilding client with
  | false => rwa [rebuild_of_absent e key client source height snapshot parked] at member
  | true =>
      obtain ⟨_, found⟩ := (isRebuilding_iff e client).mp parked
      rw [rebuild_of_parked e key client source height snapshot found] at member
      exact List.mem_of_mem_eraseP member

theorem rebuild_blockLeader :
    (e.rebuild key client source height snapshot).1.blockLeader =
      if e.isRebuilding client = true ∧ key.singleSourced = true then some source
      else e.blockLeader := by
  cases parked : e.isRebuilding client with
  | false => simp [rebuild_of_absent e key client source height snapshot parked]
  | true =>
      obtain ⟨p, found⟩ := (isRebuilding_iff e client).mp parked
      simp [rebuild_of_parked e key client source height snapshot found]

/-- A delivered snapshot leaves the arbitration as it is, the leader apart. -/
theorem rebuild_arbitration :
    (e.rebuild key client source height snapshot).1.last = e.last ∧
      (e.rebuild key client source height snapshot).1.blockSent = e.blockSent ∧
      (e.rebuild key client source height snapshot).1.blockSeen = e.blockSeen ∧
      (e.rebuild key client source height snapshot).1.needsSnapshot = e.needsSnapshot ∧
      (e.rebuild key client source height snapshot).1.upstreamSubscribed =
        e.upstreamSubscribed := by
  cases parked : e.isRebuilding client with
  | false =>
      rw [rebuild_of_absent e key client source height snapshot parked]
      exact ⟨rfl, rfl, rfl, rfl, rfl⟩
  | true =>
      obtain ⟨p, found⟩ := (isRebuilding_iff e client).mp parked
      rw [rebuild_of_parked e key client source height snapshot found]
      exact ⟨rfl, rfl, rfl, rfl, rfl⟩

theorem loseSource_of_other (other : e.blockLeader ≠ some source) :
    e.loseSource source key = (e, []) := by
  rw [SubEntry.loseSource, if_pos other]

theorem loseSource_of_leads (leads : e.blockLeader = some source)
    (incremental : key.isIncremental = true) :
    (e.loseSource source key).1 =
      { e with
        blockLeader := none
        blockSampled := 0
        needsSnapshot := e.needsSnapshot ||| sourceBit source
        last := 0
        subscribers := []
        pending := e.pending ++
          e.subscribers.map fun client => { client := client, held := [], bytes := 0 } } := by
  simp [SubEntry.loseSource, leads, incremental]

/-- A self-contained stream carried by one source only loses its leader. -/
theorem loseSource_of_leads_whole (leads : e.blockLeader = some source)
    (whole : key.isIncremental = false) (single : key.singleSourced = true) :
    (e.loseSource source key).1 = { e with blockLeader := none, blockSampled := 0, last := 0 } := by
  simp [SubEntry.loseSource, leads, whole, single]

/-- A self-contained stream that is raced loses nothing. -/
theorem loseSource_of_raced (whole : key.isIncremental = false)
    (raced : key.singleSourced = false) : e.loseSource source key = (e, []) := by
  simp [SubEntry.loseSource, whole, raced]

/-- Who is parked after a loss: whoever was, and everyone attached, holding nothing yet. -/
theorem mem_of_mem_loseSource_pending {p : Pending β}
    (member : p ∈ (e.loseSource source key).1.pending) :
    p ∈ e.pending ∨ e.blockLeader = some source ∧ p.held = [] := by
  by_cases leads : e.blockLeader = some source
  · unfold SubEntry.loseSource at member
    rw [if_neg (not_not.mpr leads)] at member
    split_ifs at member
    · exact Or.inl member
    · exact Or.inl member
    · rcases List.mem_append.mp member with old | fresh
      · exact Or.inl old
      · obtain ⟨_, -, rfl⟩ := List.mem_map.mp fresh
        exact Or.inr ⟨leads, rfl⟩
  · rw [loseSource_of_other e key source leads] at member
    exact Or.inl member

end Fields

namespace AppState

/-! ### What is held and what is queued -/

/-- On an incremental key every frame is held under its stamp. -/
theorem heldHeight_of_incremental {key : SubKey} (incremental : key.isIncremental = true)
    {message : Message} (routed : message.key = key) :
    message.seq.heldHeight = some message.seq.stamp := by
  have admitted := message.admitted
  rw [routed] at admitted
  cases key <;> cases seq : message.seq <;>
    simp_all [SubKey.isIncremental, SubKey.admits, Seq.heldHeight, Seq.stamp]

/-- Every held frame carries the source, key and height it is held under. -/
def Tagged (key : SubKey) (e : SubEntry Message) : Prop :=
  ∀ p ∈ e.pending, ∀ frame ∈ p.held, frame.2.2.source = frame.1 ∧ frame.2.2.key = key ∧
    frame.2.2.seq.heldHeight = some frame.2.1

/-- Every entry's held frames are tagged. -/
def HeldTagged (st : Live) : Prop := ∀ key e, st.getEntry key = some e → Tagged key e

variable {st : Live}

theorem heldTagged_new (sources : List Source) : HeldTagged (AppState.new sources) :=
  fun _ _ found => nomatch found

theorem tagged_entryOr (tagged : HeldTagged st) (now : Nat) (key : SubKey) :
    Tagged key (st.entryOr now key) :=
  entryOr_of (fun _ _ member => absurd member List.not_mem_nil) (fun e => tagged key e) now

theorem heldTagged_step (tagged : HeldTagged st) (op : Op) : HeldTagged (st.step op) := by
  intro key e found p member frame held
  cases becomes found with
  | kept before apart => exact tagged key e before p member frame held
  | subscribed absent =>
      rcases (mem_attach_pending _ _ _).mp member with old | ⟨-, -, -, rfl⟩
      · exact tagged_entryOr tagged _ key p old frame held
      · exact absurd held List.not_mem_nil
  | pinned => exact tagged_entryOr tagged _ key p member frame held
  | left before leaves stays =>
      exact tagged key _ before p (List.mem_of_mem_filter member) frame held
  | @heard now message routed =>
      have old := tagged_entryOr tagged now key
      rw [SubEntry.update_pending] at member
      split at member
      · unfold SubEntry.pendingAfter at member
        cases height : message.seq.heldHeight with
        | none =>
            rw [height] at member
            exact old p member frame held
        | some h =>
            rw [height] at member
            obtain ⟨before, parked, rfl⟩ := List.mem_map.mp (List.mem_of_mem_filter member)
            rcases List.mem_append.mp held with already | now
            · exact old before parked frame already
            · obtain rfl := List.mem_singleton.mp now
              exact ⟨rfl, routed, height⟩
      · exact old p member frame held
  | rebuilt before routed =>
      exact tagged key _ before p (mem_of_mem_rebuild_pending _ _ _ _ _ _ member) frame held
  | gaveUp before => exact tagged key _ before p (List.mem_of_mem_eraseP member) frame held
  | lost before =>
      rcases mem_of_mem_loseSource_pending _ _ _ member with old | ⟨-, nothing⟩
      · exact tagged key _ before p old frame held
      · rw [nothing] at held
        exact absurd held List.not_mem_nil

theorem Reached.heldTagged (reached : Reached st) : HeldTagged st := by
  obtain ⟨sources, reachable⟩ := reached
  exact reachable.invariant (heldTagged_new sources) fun _ op tagged => heldTagged_step tagged op

/-- A released frame is above the snapshot and, where one source carries the stream, the
snapshot's own source's. -/
theorem mem_backlogOf {β : Type} {key : SubKey} {source height : Nat}
    {held : List (Nat × Nat × β)} {item : β} :
    item ∈ SubEntry.backlogOf key source height held ↔
      ∃ src h, (src, h, item) ∈ held ∧ height < h ∧
        (key.singleSourced = true → src = source) := by
  simp only [SubEntry.backlogOf, List.mem_map, List.mem_filter, Bool.and_eq_true,
    decide_eq_true_eq, Bool.or_eq_true, Bool.not_eq_true', beq_iff_eq]
  constructor
  · rintro ⟨⟨src, h, _⟩, ⟨held, above, own⟩, rfl⟩
    exact ⟨src, h, held, above, fun single => own.resolve_left (by simp [single])⟩
  · rintro ⟨src, h, held, above, own⟩
    refine ⟨(src, h, item), ⟨held, above, ?_⟩, rfl⟩
    cases single : key.singleSourced with
    | false => exact Or.inl rfl
    | true => exact Or.inr (own single)

/-- Whatever an operation queues belongs to the key it carries. -/
theorem carries_of_mem_queued (tagged : HeldTagged st) {op : Op} {client : Nat} {item : Message}
    (member : item ∈ st.queued client op) : op.carries = some item.key := by
  cases op with
  | onUpdate now message =>
      rw [(st.mem_queued_onUpdate member).1]
      rfl
  | deliverSnapshot who fetched =>
      obtain ⟨-, e, p, found, parked, listed⟩ := st.queued_deliverSnapshot member
      rcases List.mem_cons.mp listed with rfl | released
      · rfl
      · obtain ⟨src, h, held, -⟩ := mem_backlogOf.mp released
        have same := (tagged _ e found p (List.mem_of_find?_eq_some parked) _ held).2.1
        rw [same]
        rfl
  | _ => simp [queued, offered] at member

/-- An operation that carries nothing of a key queues nothing of it. -/
theorem key_ne_of_apart (tagged : HeldTagged st) {key : SubKey} {op : Op}
    (apart : op.carries ≠ some key) {client : Nat} {item : Message}
    (member : item ∈ st.queued client op) : item.key ≠ key := by
  intro routed
  rw [carries_of_mem_queued tagged member, routed] at apart
  exact apart rfl

/-- Operations that carry no frame queue none. -/
theorem queued_of_carries_none {op : Op} (idle : op.carries = none) (client : Nat) :
    st.queued client op = [] := by
  cases op with
  | onUpdate now message => cases idle
  | deliverSnapshot who fetched => cases idle
  | _ => simp [queued, offered]

theorem mem_queued_onUpdate_iff {now client : Nat} {message : Message} :
    message ∈ st.queued client (.onUpdate now message) ↔
      0 < (st.heap client).tx.room ∧ ∃ e, st.getEntry message.key = some e ∧
        e.Accepts message.key message.source message.seq ∧ client ∈ e.subscribers := by
  rw [← st.mem_recipients now _ _ _ message, queued, offered, List.take_replicate,
    List.mem_replicate, and_iff_left rfl, ← List.count_pos_iff]
  omega

/-- A frame the entry refuses is queued to nobody. -/
theorem queued_onUpdate_of_refuses {now : Nat} {message : Message} {e : SubEntry Message}
    (found : st.getEntry message.key = some e)
    (refuses : ¬ e.Accepts message.key message.source message.seq) (client : Nat) :
    st.queued client (.onUpdate now message) = [] := by
  rw [List.eq_nil_iff_forall_not_mem]
  intro item listed
  obtain ⟨-, other, found', accepts, -⟩ := st.mem_queued_onUpdate listed
  rw [found] at found'
  exact refuses (Option.some.inj found' ▸ accepts)

/-- A snapshot for a client nobody parked is queued to nobody. -/
theorem queued_deliverSnapshot_of_absent {who : Nat} {fetched : Fetched} {e : SubEntry Message}
    (found : st.getEntry fetched.key = some e) (absent : e.isRebuilding who = false)
    (client : Nat) : st.queued client (.deliverSnapshot who fetched) = [] := by
  rw [List.eq_nil_iff_forall_not_mem]
  intro item listed
  obtain ⟨-, other, p, found', parked, -⟩ := st.queued_deliverSnapshot listed
  rw [found] at found'
  rw [← Option.some.inj found'] at parked
  rw [(isRebuilding_iff e who).mpr ⟨p, parked⟩] at absent
  cases absent

/-- A parked client is queued its snapshot first, if its queue has room at all. -/
theorem queued_deliverSnapshot_eq {e : SubEntry Message} {p : Pending Message} {client : Nat}
    {fetched : Fetched} (found : st.getEntry fetched.key = some e)
    (parked : e.pending.find? (·.client == client) = some p) :
    st.queued client (.deliverSnapshot client fetched) =
      (fetched.message ::
        SubEntry.backlogOf fetched.key fetched.source fetched.height p.held).take
          (st.heap client).tx.room := by
  simp only [queued, offered, if_true, backlog?, found, Option.bind_some,
    rebuild_of_parked _ _ _ _ _ _ parked, Option.getD_some]

/-- What a delivery queues opens with the snapshot. -/
theorem queued_deliverSnapshot_cons {client who : Nat} {fetched : Fetched} {first : Message}
    {rest : List Message}
    (queued : st.queued client (.deliverSnapshot who fetched) = first :: rest) :
    first = fetched.message := by
  have listed : first ∈ st.queued client (.deliverSnapshot who fetched) :=
    queued ▸ List.mem_cons_self
  obtain ⟨rfl, e, p, found, parked, -⟩ := st.queued_deliverSnapshot listed
  rw [queued_deliverSnapshot_eq found parked] at queued
  cases room : (st.heap client).tx.room with
  | zero => simp [room] at queued
  | succ room =>
      rw [room, List.take_succ_cons] at queued
      exact (List.cons.inj queued).1.symm

/-- What an accepted frame queues to an attached client with room begins with it. -/
theorem queued_onUpdate_cons {now client : Nat} {message : Message} {e : SubEntry Message}
    (found : st.getEntry message.key = some e)
    (accepts : e.Accepts message.key message.source message.seq)
    (member : client ∈ e.subscribers) (room : 0 < (st.heap client).tx.room) :
    ∃ rest, st.queued client (.onUpdate now message) = message :: rest := by
  have listed : message ∈ st.queued client (.onUpdate now message) :=
    mem_queued_onUpdate_iff.mpr ⟨room, e, found, accepts, member⟩
  obtain ⟨first, rest, queued⟩ := List.exists_cons_of_ne_nil (List.ne_nil_of_mem listed)
  have same : first = message := (st.mem_queued_onUpdate (queued ▸ List.mem_cons_self)).1
  exact ⟨rest, same ▸ queued⟩

/-- On a single-sourced key a snapshot and the frames released behind it are all from one
source. -/
theorem source_of_mem_queued_deliverSnapshot (tagged : HeldTagged st) {client who : Nat}
    {fetched : Fetched} {item : Message} (single : fetched.key.singleSourced = true)
    (member : item ∈ st.queued client (.deliverSnapshot who fetched)) :
    item.source = fetched.source := by
  obtain ⟨-, e, p, found, parked, listed⟩ := st.queued_deliverSnapshot member
  rcases List.mem_cons.mp listed with rfl | released
  · rfl
  · obtain ⟨src, h, held, -, own⟩ := mem_backlogOf.mp released
    have same := (tagged _ e found p (List.mem_of_find?_eq_some parked) _ held).1
    exact same.trans (own single)

end AppState

end Wsarb
