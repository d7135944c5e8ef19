import Mathlib.Data.List.Perm.Basic
import Wsarb.State.Standing

/-!
Owns how often a client is listed on an entry: once, attached or parked. Subscribing lists a
client that is not listed yet, since whoever is listed holds the key already; every other
operation moves the listed clients between the two lists or takes some off.
-/

namespace Wsarb

open Wsarb.Library AppState

namespace SubEntry

variable {β : Type} (e : SubEntry β) (key : SubKey) (client : Nat)

/-- The clients attached to the entry, and after them the clients parked on it. -/
def members : List Nat := e.subscribers ++ e.pending.map (·.client)

theorem mem_members : client ∈ e.members ↔ e.Stands client := by
  rw [members, Stands, isRebuilding_iff_mem, List.mem_append, List.mem_map]

theorem nodup_attach (once : e.members.Nodup) (absent : ¬ e.Stands client) :
    (attach e key client).1.members.Nodup := by
  rw [← mem_members] at absent
  have added : (client :: e.members).Nodup := List.nodup_cons.mpr ⟨absent, once⟩
  have attached : (e.subscribers ++ [client] ++ e.pending.map (·.client)).Nodup := by
    rw [List.append_assoc]
    exact List.nodup_middle.mpr added
  have parked : (e.subscribers ++ (e.pending ++
      [({ client := client, held := [], bytes := 0 } : Pending β)]).map (·.client)).Nodup := by
    rw [List.map_append, ← List.append_assoc]
    exact (List.perm_append_singleton client e.members).nodup_iff.mpr added
  unfold attach
  dsimp only
  split_ifs <;> first | exact once | exact attached | exact parked

theorem members_without : (without e client).members = e.members.filter (· ≠ client) := by
  rw [members, members, List.filter_append, List.filter_map]
  rfl

/-- A frame takes off those whose backlog has outgrown the cap. -/
theorem members_update [Payload β] (now src : Nat) (seq : Seq) (payload : β) :
    (e.update key now src seq payload).1.members.Sublist e.members := by
  have names : ∀ h, (e.pending.map (·.pile src h payload)).map (·.client) =
      e.pending.map (·.client) := by
    intro h
    rw [List.map_map]
    rfl
  rw [members, members, update_subscribers, update_pending]
  apply List.Sublist.append_left
  split
  · unfold pendingAfter
    cases seq.heldHeight with
    | none => exact List.Sublist.refl _
    | some h =>
        rw [← names h]
        exact List.filter_sublist.map _
  · exact List.Sublist.refl _

/-- Giving a client up takes it off. -/
theorem members_givenUp : (givenUp client e).members.Sublist e.members :=
  (List.eraseP_sublist.map _).append_left _

/-- A client listed once and given up is parked no more. -/
theorem givenUp_alone (once : e.members.Nodup) :
    (givenUp client e).isRebuilding client = false := by
  have parked : (e.pending.map (·.client)).Nodup := (List.nodup_append.mp once).2.1
  have gone : (givenUp client e).pending.map (·.client) =
      (e.pending.map (·.client)).erase client := by
    rw [List.erase_eq_eraseP', List.eraseP_map]
    rfl
  by_contra waits
  rw [Bool.not_eq_false, isRebuilding_iff_mem] at waits
  obtain ⟨p, member, named⟩ := waits
  apply parked.not_mem_erase
  rw [← gone]
  exact List.mem_map.mpr ⟨p, member, named⟩

/-- A delivered snapshot moves a client from one list to the other. -/
theorem members_rebuild (source height : Nat) (snapshot : β) :
    (e.rebuild key client source height snapshot).1.members.Perm e.members := by
  cases parked : e.isRebuilding client with
  | false => rw [rebuild_of_absent e key client source height snapshot parked]
  | true =>
      obtain ⟨p, found⟩ := (isRebuilding_iff e client).mp parked
      rw [rebuild_of_parked e key client source height snapshot found]
      have holds : (p.client == client) = true := by simpa using List.find?_some found
      obtain ⟨first, before, after, -, named, split, erased⟩ :=
        List.exists_of_eraseP (p := fun waits => waits.client == client)
          (List.mem_of_find?_eq_some found) holds
      obtain rfl : first.client = client := by simpa using named
      simp only [members, erased]
      rw [split, List.append_assoc, List.singleton_append, List.map_append, List.map_append,
        List.map_cons]
      exact (List.perm_middle.symm).append_left e.subscribers

/-- The loss of a source moves the attached behind the parked. -/
theorem members_loseSource (source : Nat) :
    (e.loseSource source key).1.members.Perm e.members := by
  unfold SubEntry.loseSource
  split_ifs
  · exact List.Perm.refl _
  · exact List.Perm.refl _
  · exact List.Perm.refl _
  · have names : (e.subscribers.map fun client =>
        ({ client := client, held := [], bytes := 0 } : Pending β)).map (·.client) =
          e.subscribers := by
      rw [List.map_map]
      exact List.map_id _
    simp only [members, List.nil_append, List.map_append, names]
    exact List.perm_append_comm

end SubEntry

namespace AppState

variable {st : Live}

/-- Every client is listed at most once on an entry, holds what it is listed for, and a handle
not handed out yet holds nothing. -/
structure Seated (st : Live) : Prop where
  once : ∀ key e, st.getEntry key = some e → e.members.Nodup
  held : st.Held
  blank : ∀ client, st.nextClientId ≤ client → st.subscriptions client = []

theorem seated_new (sources : List Source) : Seated (AppState.new sources) where
  once := fun _ _ found => nomatch found
  held := fun _ _ found => nomatch found
  blank := fun _ _ => rfl

/-- The operation is nobody's subscription, or that of a client whose handle is out. -/
def Handed (st : Live) : Op → Prop
  | .subscribe _ client _ => client < st.nextClientId
  | _ => True

instance (op : Op) : Decidable (st.Handed op) :=
  match op with
  | .subscribe _ client _ => inferInstanceAs (Decidable (client < _))
  | .registerClient _ | .pin .. | .unsubscribe .. | .onUpdate .. | .deliverSnapshot ..
  | .failPending .. | .resyncAfterSourceLoss _ | .cleanupClient _ | .receive _ | .close _ =>
      isTrue trivial

/-- The entry an operation starts from lists nobody twice. -/
theorem Seated.used (seated : st.Seated) (now : Nat) (key : SubKey) :
    (st.entryOr now key).members.Nodup :=
  entryOr_of (P := fun e => e.members.Nodup) (fun _ => List.nodup_nil) (seated.once key) now

theorem Seated.once_step (seated : st.Seated) (op : Op) (key : SubKey) (e : SubEntry Message)
    (found : (st.step op).getEntry key = some e) : e.members.Nodup := by
  cases becomes found with
  | kept before apart => exact seated.once key e before
  | @subscribed now client absent =>
      exact SubEntry.nodup_attach _ key client (seated.used now key)
        fun stands => absent (seated.held.used now stands)
  | @pinned now => exact seated.used now key
  | @left _ client before entry leaves stays =>
      rw [SubEntry.members_without]
      exact (seated.once key before entry).filter _
  | @heard now message routed =>
      exact (SubEntry.members_update _ key now _ _ message).nodup (seated.used now key)
  | rebuilt before routed =>
      exact (SubEntry.members_rebuild _ key _ _ _ _).nodup_iff.mpr (seated.once key _ before)
  | gaveUp before => exact (SubEntry.members_givenUp _ _).nodup (seated.once key _ before)
  | lost before =>
      exact (SubEntry.members_loseSource _ key _).nodup_iff.mpr (seated.once key _ before)

theorem seated_step (seated : st.Seated) (op : Op) (handed : st.Handed op) :
    (st.step op).Seated where
  once := fun key e found => seated.once_step op key e found
  held := held_step seated.held op fun _ _ => seated.blank _ (Nat.le_refl _)
  blank := by
    intro client later
    rw [nextClientId_step] at later
    have nothing : st.nextClientId ≤ client → st.subscriptions client = [] := seated.blank client
    rw [subscriptions_step]
    cases op with
    | registerClient ip =>
        have other : client ≠ st.nextClientId := Nat.ne_of_gt later
        rw [subscriptionsAfter, if_neg other]
        exact nothing (Nat.le_of_lt later)
    | subscribe now who key =>
        have other : client ≠ who := Nat.ne_of_gt (Nat.lt_of_lt_of_le handed later)
        rw [subscriptionsAfter, if_neg fun both => other both.1]
        exact nothing later
    | unsubscribe who key =>
        rw [subscriptionsAfter, nothing later]
        split <;> rfl
    | cleanupClient who =>
        rw [subscriptionsAfter, nothing later]
        split <;> rfl
    | _ => exact nothing later

/-- Whoever stands on an entry has a handle that was given out. -/
theorem Seated.old_of_stands (seated : st.Seated) {key : SubKey} {e : SubEntry Message}
    (found : st.getEntry key = some e) {client : Nat} (stands : e.Stands client) :
    client < st.nextClientId := by
  have holds := seated.held key e found client stands
  by_contra fresh
  rw [seated.blank client (Nat.not_lt.mp fresh)] at holds
  cases holds

/-- A client that is attached is not parked as well. -/
theorem Seated.attached_alone (seated : st.Seated) {key : SubKey} {e : SubEntry Message}
    (found : st.getEntry key = some e) {client : Nat} (listed : client ∈ e.subscribers) :
    e.isRebuilding client = false := by
  by_contra parked
  obtain ⟨p, waits, named⟩ := (e.isRebuilding_iff_mem client).mp (by simpa using parked)
  have apart := List.disjoint_of_nodup_append (seated.once key e found)
  exact apart listed (List.mem_map.mpr ⟨p, waits, named⟩)

end AppState

end Wsarb
