import Wsarb.State.Registry

/-!
Owns who stands on an entry, attached or parked: subscribing adds the subscriber, leaving
takes the leaver off, and traffic moves clients between the two lists but takes nobody off
without hanging it up.
-/

namespace Wsarb

open Wsarb.Library

namespace SubEntry

variable {β : Type} (e : SubEntry β) (key : SubKey) (client : Nat)

/-- The client is attached to the entry or parked on it. -/
def Stands : Prop := client ∈ e.subscribers ∨ e.isRebuilding client = true

theorem isRebuilding_iff_mem :
    e.isRebuilding client = true ↔ ∃ p ∈ e.pending, p.client = client := by
  simp [isRebuilding]

theorem stands_attach (other : Nat) :
    (AppState.attach e key client).1.Stands other ↔ e.Stands other ∨ other = client := by
  simp only [Stands, isRebuilding_iff_mem, mem_attach_subscribers, mem_attach_pending]
  constructor
  · rintro ((old | ⟨same, -⟩) | ⟨p, old | ⟨-, -, -, rfl⟩, same⟩)
    · exact Or.inl (Or.inl old)
    · exact Or.inr same
    · exact Or.inl (Or.inr ⟨p, old, same⟩)
    · exact Or.inr same.symm
  · rintro ((old | ⟨p, old, same⟩) | rfl)
    · exact Or.inl (Or.inl old)
    · exact Or.inr ⟨p, Or.inl old, same⟩
    · by_cases waits : e.upstreamSubscribed = true ∧ key.isIncremental = true
      · right
        cases parked : e.isRebuilding other with
        | true =>
            obtain ⟨p, old, same⟩ := (isRebuilding_iff_mem e other).mp parked
            exact ⟨p, Or.inl old, same⟩
        | false => exact ⟨_, Or.inr ⟨waits.1, waits.2, rfl, rfl⟩, rfl⟩
      · exact Or.inl (Or.inr ⟨rfl, waits⟩)

theorem stands_without (other : Nat) :
    (AppState.without e client).Stands other ↔ e.Stands other ∧ other ≠ client := by
  simp only [Stands, isRebuilding_iff_mem, AppState.without, List.mem_filter, decide_eq_true_eq,
    ne_eq]
  constructor
  · rintro (⟨old, differs⟩ | ⟨p, ⟨old, differs⟩, rfl⟩)
    · exact ⟨Or.inl old, differs⟩
    · exact ⟨Or.inr ⟨p, old, rfl⟩, differs⟩
  · rintro ⟨old | ⟨p, old, rfl⟩, differs⟩
    · exact Or.inl ⟨old, differs⟩
    · exact Or.inr ⟨p, ⟨old, differs⟩, rfl⟩

/-- Nobody stands on the entry and it is not live upstream. -/
structure Deserted : Prop where
  nobody : ∀ client, ¬ e.Stands client
  notLive : e.upstreamSubscribed = false

theorem deserted_new (now : Nat) : (SubEntry.new now : SubEntry β).Deserted where
  nobody client stands := by
    rcases stands with listed | parked
    · exact absurd listed List.not_mem_nil
    · cases parked
  notLive := rfl

theorem nobody_of_abandoned (empty : AppState.abandoned e = true) : ¬ e.Stands client := by
  simp only [AppState.abandoned, Bool.and_eq_true, List.isEmpty_iff] at empty
  rintro (listed | parked)
  · rw [empty.1.1.1] at listed
    exact absurd listed List.not_mem_nil
  · obtain ⟨p, member, -⟩ := (isRebuilding_iff_mem e client).mp parked
    rw [empty.1.1.2] at member
    exact absurd member List.not_mem_nil

theorem stands_leave (other : Nat) :
    (AppState.leave e client).1.Stands other ↔ e.Stands other ∧ other ≠ client := by
  rw [← stands_without]
  unfold AppState.leave
  split <;> rfl

/-- A client that leaves and asks for the entry to be dropped leaves it deserted. -/
theorem deserted_leave (drop : (AppState.leave e client).2 = true) :
    (AppState.leave e client).1.Deserted := by
  unfold AppState.leave at drop ⊢
  split
  · next empty =>
      exact ⟨fun other => nobody_of_abandoned (AppState.without e client) other empty, rfl⟩
  · next stays =>
      rw [if_neg stays] at drop
      cases drop

/-- Whoever else stands on an entry keeps it when a client leaves. -/
theorem stands_detached {other : Nat} (stands : e.Stands other) (differs : other ≠ client) :
    ∃ after, AppState.detached client (some e) = some after ∧ after.Stands other := by
  have still := (stands_leave e client other).mpr ⟨stands, differs⟩
  refine ⟨(AppState.leave e client).1, if_neg fun drop => ?_, still⟩
  exact (deserted_leave e client drop).nobody other still

/-- Leaving a deserted entry leaves it deserted. -/
theorem Deserted.leave {e : SubEntry β} (deserted : e.Deserted) (client : Nat) :
    (AppState.leave e client).1.Deserted where
  nobody other stands := deserted.nobody other ((stands_leave e client other).mp stands).1
  notLive := by rw [AppState.leave_upstreamSubscribed, deserted.notLive, Bool.false_and]

variable [Payload β] (now src : Nat) (seq : Seq) (payload : β)

/-- A frame parks nobody, and puts out only those it lists as overflowed. -/
theorem stands_update :
    ((e.update key now src seq payload).1.Stands client → e.Stands client) ∧
      (e.Stands client → (e.update key now src seq payload).1.Stands client ∨
        client ∈ (e.update key now src seq payload).2.overflowed) := by
  simp only [Stands, update_subscribers, isRebuilding_iff_mem, update_pending]
  by_cases accepts : e.Accepts key src seq
  · have delivers := (e.arbitrate_deliver_iff key now src seq).mpr accepts
    have parked := (e.arbitrate_members key now src seq).2.1
    simp only [if_pos accepts, pendingAfter]
    cases height : seq.heldHeight with
    | none => exact ⟨id, Or.inl⟩
    | some h =>
        constructor
        · rintro (listed | ⟨p, member, rfl⟩)
          · exact Or.inl listed
          · obtain ⟨before, old, rfl⟩ := List.mem_map.mp (List.mem_of_mem_filter member)
            exact Or.inr ⟨before, old, rfl⟩
        · rintro (listed | ⟨p, member, rfl⟩)
          · exact Or.inl (Or.inl listed)
          · have piled := List.mem_map_of_mem (f := (·.pile src h payload)) member
            by_cases fits : (p.pile src h payload).bytes ≤ pendingMaxBytes
            · exact Or.inl (Or.inr ⟨_, List.mem_filter.mpr ⟨piled, by simpa using fits⟩, rfl⟩)
            · right
              simp only [update, delivers, if_true, hold, height, parked]
              exact List.mem_map.mpr
                ⟨_, List.mem_filter.mpr ⟨piled, by simpa using fits⟩, rfl⟩
  · rw [if_neg accepts]
    exact ⟨id, Or.inl⟩

end SubEntry

namespace AppState

variable {st : Live} {client : Nat} {key : SubKey} {e : SubEntry Message}

/-- A delivered snapshot moves a client from one list to the other. -/
theorem stands_rebuild (who source height : Nat) (snapshot : Message) :
    (e.rebuild key who source height snapshot).1.Stands client ↔ e.Stands client := by
  cases parked : e.isRebuilding who with
  | false => rw [rebuild_of_absent e key who source height snapshot parked]
  | true =>
      obtain ⟨p, found⟩ := (isRebuilding_iff e who).mp parked
      rw [rebuild_of_parked e key who source height snapshot found]
      simp only [SubEntry.Stands, SubEntry.isRebuilding_iff_mem, List.mem_append,
        List.mem_singleton]
      constructor
      · rintro ((listed | rfl) | ⟨p, member, rfl⟩)
        · exact Or.inl listed
        · exact Or.inr ((e.isRebuilding_iff_mem client).mp parked)
        · exact Or.inr ⟨p, List.mem_of_mem_eraseP member, rfl⟩
      · rintro (listed | ⟨p, member, rfl⟩)
        · exact Or.inl (Or.inl listed)
        · by_cases same : p.client = who
          · exact Or.inl (Or.inr same)
          · exact Or.inr ⟨p, (List.mem_eraseP_of_neg (by simpa using same)).mpr member, rfl⟩

/-- Giving a client up takes nobody else off the entry. -/
theorem stands_givenUp (who : Nat) :
    ((givenUp who e).Stands client → e.Stands client) ∧
      (e.Stands client → client ≠ who → (givenUp who e).Stands client) := by
  simp only [SubEntry.Stands, SubEntry.isRebuilding_iff_mem, givenUp]
  constructor
  · rintro (listed | ⟨p, member, rfl⟩)
    · exact Or.inl listed
    · exact Or.inr ⟨p, List.mem_of_mem_eraseP member, rfl⟩
  · rintro (listed | ⟨p, member, rfl⟩) differs
    · exact Or.inl listed
    · exact Or.inr ⟨p, (List.mem_eraseP_of_neg (by simpa using differs)).mpr member, rfl⟩

/-- The loss of a source parks clients and takes nobody off the entry. -/
theorem stands_loseSource (source : Nat) :
    (e.loseSource source key).1.Stands client ↔ e.Stands client := by
  unfold SubEntry.loseSource
  split_ifs
  · rfl
  · rfl
  · rfl
  · simp only [SubEntry.Stands, SubEntry.isRebuilding_iff_mem, List.mem_append, List.mem_map,
      List.not_mem_nil, false_or]
    constructor
    · rintro ⟨p, old | ⟨who, listed, rfl⟩, same⟩
      · exact Or.inr ⟨p, old, same⟩
      · exact Or.inl (same ▸ listed)
    · rintro (listed | ⟨p, old, same⟩)
      · exact ⟨_, Or.inr ⟨client, listed, rfl⟩, rfl⟩
      · exact ⟨p, Or.inl old, same⟩

/-- Traffic leaves a client on its entry, or hangs it up. -/
theorem stands_of_traffic {op : Op} (traffic : op.isTraffic = true)
    (found : st.getEntry key = some e) (stands : e.Stands client) :
    ((st.step op).heap client).kill = true ∨
      ∃ after, (st.step op).getEntry key = some after ∧ after.Stands client := by
  have same := st.getEntry_step op key
  cases op with
  | onUpdate now message =>
      by_cases routed : message.key = key
      · subst routed
        simp only [entryAfter, if_true, entryOr_of_some found] at same
        rcases (e.stands_update message.key client now message.source message.seq message).2 stands
          with still | overflowed
        · exact Or.inr ⟨_, same, still⟩
        · left
          refine steadily_fanOut steady_kill _ _ _ (kill_notifyKills ?_ _)
          show client ∈ ((st.entryOr now message.key).update _ _ _ _ _).2.overflowed
          rwa [entryOr_of_some found]
      · exact Or.inr ⟨e, (same.trans (if_neg routed)).trans found, stands⟩
  | deliverSnapshot who fetched =>
      by_cases routed : fetched.key = key
      · simp only [entryAfter, if_pos routed, found, Option.map_some] at same
        exact Or.inr ⟨_, same, (stands_rebuild _ _ _ _).mpr stands⟩
      · exact Or.inr ⟨e, (same.trans (if_neg routed)).trans found, stands⟩
  | failPending failed who =>
      by_cases routed : failed = key
      · subst routed
        simp only [entryAfter, if_true, found, Option.map_some] at same
        by_cases gone : (givenUp who e).Stands client
        · exact Or.inr ⟨_, same, gone⟩
        · left
          have own : client = who := by
            by_contra differs
            exact gone ((stands_givenUp who).2 stands differs)
          have parked : e.isRebuilding who = true := by
            by_contra absent
            exact gone ((givenUp_of_absent absent).symm ▸ stands)
          subst own
          show ((st.failPending failed client).heap client).kill = true
          simp only [failPending, found, parked, if_true, notifyKill, heap_modifyClient]
      · exact Or.inr ⟨e, (same.trans (if_neg routed)).trans found, stands⟩
  | resyncAfterSourceLoss source =>
      simp only [entryAfter, found, Option.map_some] at same
      exact Or.inr ⟨_, same, (stands_loseSource source).mpr stands⟩
  | receive who => exact Or.inr ⟨e, same.trans found, stands⟩
  | close who => exact Or.inr ⟨e, same.trans found, stands⟩
  | _ => cases traffic

/-- Traffic leaves a deserted key deserted. -/
theorem deserted_of_traffic {op : Op} (traffic : op.isTraffic = true)
    (deserted : ∀ e, st.getEntry key = some e → e.Deserted)
    (found : (st.step op).getEntry key = some e) : e.Deserted := by
  have used := fun now => entryOr_of (P := SubEntry.Deserted)
    (fun now => SubEntry.deserted_new now) deserted now
  cases becomes found with
  | kept before apart => exact deserted e before
  | @heard now message routed =>
      refine ⟨fun client stands => (used now).nobody client ?_, ?_⟩
      · exact (SubEntry.stands_update ..).1 stands
      · rw [SubEntry.update_upstreamSubscribed]
        exact (used now).notLive
  | @rebuilt who fetched e before routed =>
      refine ⟨fun client stands => (deserted e before).nobody client ?_, ?_⟩
      · exact (stands_rebuild _ _ _ _).mp stands
      · rw [(rebuild_arbitration e key who _ _ _).2.2.2.2]
        exact (deserted e before).notLive
  | @gaveUp who e before =>
      exact ⟨fun client stands => (deserted e before).nobody client ((stands_givenUp who).1 stands),
        (deserted e before).notLive⟩
  | left before leaves => rcases leaves with rfl | rfl <;> cases traffic
  | @lost source e before =>
      refine ⟨fun client stands => (deserted e before).nobody client ?_, ?_⟩
      · exact (stands_loseSource source).mp stands
      · rw [loseSource_upstreamSubscribed]
        exact (deserted e before).notLive
  | _ => cases traffic

/-! ### Who may stand there -/

/-- Whoever stands on a key's entry holds the key. -/
def Held (st : Live) : Prop :=
  ∀ key e, st.getEntry key = some e → ∀ client, e.Stands client → key ∈ st.subscriptions client

/-- Whoever stands on the entry an operation starts from holds the key. -/
theorem Held.used (held : st.Held) (now : Nat) (stands : (st.entryOr now key).Stands client) :
    key ∈ st.subscriptions client :=
  entryOr_of (P := fun e => e.Stands client → key ∈ st.subscriptions client)
    (fun now stands => absurd stands ((SubEntry.deserted_new now).nobody client))
    (fun e before => held key e before client) now stands

/-- Traffic puts nobody on an entry. -/
theorem held_of_traffic {op : Op} (traffic : op.isTraffic = true) (held : st.Held) :
    (st.step op).Held := by
  intro key e found client stands
  rw [subscriptions_of_traffic traffic]
  cases becomes found with
  | kept before apart => exact held key e before client stands
  | @heard now message routed => exact held.used now ((SubEntry.stands_update ..).1 stands)
  | rebuilt before routed => exact held key _ before client ((stands_rebuild _ _ _ _).mp stands)
  | gaveUp before => exact held key _ before client ((stands_givenUp _).1 stands)
  | left before leaves => rcases leaves with rfl | rfl <;> cases traffic
  | lost before => exact held key _ before client ((stands_loseSource _).mp stands)
  | _ => cases traffic

/-- Where a client leaves the key if it holds it, whoever still stands there is another, or the
key was not left. -/
theorem Held.of_leaving (held : st.Held) {who : Nat} {leaves : Prop} [Decidable leaves]
    (found : (if leaves then detached who (st.getEntry key) else st.getEntry key) = some e)
    (stands : e.Stands client) :
    key ∈ st.subscriptions client ∧ (client = who → ¬ leaves) := by
  split at found
  · obtain ⟨before, old, -, rfl⟩ := detached_eq_some found
    obtain ⟨stood, differs⟩ := (SubEntry.stands_without before who client).mp stands
    exact ⟨held key before old client stood, fun same => absurd same differs⟩
  · next stays => exact ⟨held key e found client stands, fun _ => stays⟩

/-- Every operation keeps that, where a handle is handed out to somebody who holds nothing. -/
theorem held_step (held : st.Held) (op : Op)
    (fresh : ∀ ip, op = .registerClient ip → st.subscriptions st.nextClientId = []) :
    (st.step op).Held := by
  cases op with
  | registerClient ip =>
      intro key e found client stands
      rw [getEntry_step] at found
      have holds := held key e found client stands
      have other : client ≠ st.nextClientId := by
        rintro rfl
        rw [fresh ip rfl] at holds
        exact absurd holds List.not_mem_nil
      rwa [subscriptions_step, subscriptionsAfter, if_neg other]
  | subscribe now who subscribed =>
      intro key e found client stands
      rw [getEntry_step] at found
      simp only [entryAfter] at found
      rw [subscriptions_step, subscriptionsAfter]
      split at found
      · next attaches =>
          obtain ⟨rfl, absent⟩ := attaches
          cases found
          rcases (SubEntry.stands_attach _ _ _ _).mp stands with old | rfl
          · have holds := held.used now old
            split
            · exact List.mem_cons_of_mem _ holds
            · exact holds
          · rw [if_pos ⟨rfl, absent⟩]
            exact List.mem_cons_self
      · have holds := held key e found client stands
        split
        · exact List.mem_cons_of_mem _ holds
        · exact holds
  | pin now pinned =>
      intro key e found client stands
      rw [getEntry_step] at found
      simp only [entryAfter] at found
      rw [subscriptions_step]
      split at found
      · cases found
        apply held.used now
        exact stands
      · exact held key e found client stands
  | unsubscribe who left =>
      intro key e found client stands
      rw [getEntry_step] at found
      obtain ⟨holds, stays⟩ := held.of_leaving found stands
      rw [subscriptions_step, subscriptionsAfter]
      split
      · next same =>
          subst same
          apply List.mem_filter.mpr
          exact ⟨holds, decide_eq_true fun own => stays rfl ⟨own.symm, holds⟩⟩
      · exact holds
  | cleanupClient who =>
      intro key e found client stands
      rw [getEntry_step] at found
      obtain ⟨holds, stays⟩ := held.of_leaving found stands
      have other : client ≠ who := fun same => stays same (same ▸ holds)
      rwa [subscriptions_step, subscriptionsAfter, if_neg other]
  | onUpdate now message => exact held_of_traffic rfl held
  | deliverSnapshot who fetched => exact held_of_traffic rfl held
  | failPending key who => exact held_of_traffic rfl held
  | resyncAfterSourceLoss source => exact held_of_traffic rfl held
  | receive who => exact held_of_traffic rfl held
  | close who => exact held_of_traffic rfl held

end AppState

end Wsarb
