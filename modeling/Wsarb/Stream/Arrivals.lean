import Wsarb.Stream.Parking

/-!
Owns rows of frames that arrive one after the other and all go out: who is sent them, and who is
still parked behind them at the end.

Does not own: why they go out.
-/

namespace Wsarb

open Wsarb.Library AppState

/-- Frames arriving one after the other, each at its own time. -/
def arrivals (frames : List (Nat × Message)) : List Op :=
  frames.map fun frame => .onUpdate frame.1 frame.2

/-- Every one of the frames is of the key and goes out as it arrives. -/
def GoOut (key : SubKey) : Live → List (Nat × Message) → Prop
  | _, [] => True
  | st, frame :: rest =>
      (frame.2.key = key ∧ (st.entryOr frame.1 key).Accepts key frame.2.source frame.2.seq) ∧
        GoOut key (st.step (.onUpdate frame.1 frame.2)) rest

namespace AppState

variable {st : Live} {key : SubKey} {client now : Nat} {message : Message}
  {frames : List (Nat × Message)}

/-! ### One arrival -/

theorem attached_onUpdate (now : Nat) (message : Message) (key : SubKey) (client : Nat) :
    (st.step (.onUpdate now message)).attached key client = st.attached key client := by
  rw [attached, attached, getEntry_step, entryAfter]
  split
  · next routed =>
      rw [Option.any_some, SubEntry.update_subscribers, entryOr]
      cases st.getEntry key <;> rfl
  · rfl

/-- A frame parks nobody. -/
theorem parked_of_parked_onUpdate
    (parked : (st.step (.onUpdate now message)).parked key client = true) :
    st.parked key client = true := by
  obtain ⟨e, found, p, member, named⟩ := parked_iff.mp parked
  cases waits found member with
  | stayed before listed => exact parked_iff.mpr ⟨_, before, _, listed, named⟩
  | piled before listed => exact parked_iff.mpr ⟨_, before, _, listed, named⟩

/-- A parked client is not attached. -/
theorem Seated.not_attached_of_parked (seated : st.Seated)
    (parked : st.parked key client = true) : st.attached key client = false := by
  by_contra attached
  obtain ⟨e, found, member⟩ := attached_iff.mp (Bool.eq_true_of_not_eq_false attached)
  rw [seated.not_parked_of_attached found member] at parked
  cases parked

/-- A frame that goes out is sent once to an attached client, and to nobody else. -/
theorem Seated.tx_onUpdate (seated : st.Seated) (routed : message.key = key)
    (accepts : (st.entryOr now key).Accepts key message.source message.seq) :
    ((st.step (.onUpdate now message)).heap client).tx =
      if st.attached key client then (st.heap client).tx.push message
      else (st.heap client).tx := by
  subst routed
  show ((st.onUpdate now message.source message.key message.seq message).heap client).tx = _
  rw [AppState.tx_onUpdate, recipients, SubEntry.update_recipients, if_pos accepts, attached,
    entryOr]
  cases found : st.getEntry message.key with
  | none => rfl
  | some e =>
      have once : e.subscribers.Nodup :=
        (List.nodup_append.mp (seated.once message.key e found)).1
      rw [Option.getD_some, Option.any_some]
      by_cases member : client ∈ e.subscribers
      · rw [List.count_eq_one_of_mem once member, if_pos (decide_eq_true member)]
        rfl
      · rw [List.count_eq_zero_of_not_mem member, if_neg (by simpa using member)]
        rfl

/-! ### Rows of arrivals -/

theorem handed_arrivals (st : Live) (frames : List (Nat × Message)) :
    Throughout AppState.step Handed st (arrivals frames) := by
  apply throughout_of_forall
  intro op member _
  obtain ⟨frame, -, rfl⟩ := List.mem_map.mp member
  trivial

theorem Settled.run_arrivals (settled : st.Settled client) (frames : List (Nat × Message)) :
    (run AppState.step st (arrivals frames)).Settled client := by
  have keeps : ∀ (st : Live) op, st.Settled client → st.Handed op → (st.step op).Settled client :=
    fun _ _ settled handed => settled.step handed
  exact run_keeps keeps _ settled (handed_arrivals st frames)

theorem forwardedOver_arrivals (goOut : GoOut key st frames) :
    forwardedOver key st (arrivals frames) = frames.map (·.2) := by
  induction frames generalizing st with
  | nil => rfl
  | cons frame rest inductionHypothesis =>
      show st.forwardedBy key (.onUpdate frame.1 frame.2) ++
        forwardedOver key (st.step (.onUpdate frame.1 frame.2)) (arrivals rest) = _
      rw [forwardedBy_onUpdate_iff.mpr goOut.1, inductionHypothesis goOut.2]
      rfl

theorem key_of_goOut (goOut : GoOut key st frames) :
    ∀ message ∈ frames.map (·.2), message.key = key := by
  induction frames generalizing st with
  | nil => exact fun _ none => absurd none List.not_mem_nil
  | cons frame rest inductionHypothesis =>
      rw [List.map_cons, List.forall_mem_cons]
      exact ⟨goOut.1.1, inductionHypothesis goOut.2⟩

/-- Frames attach and detach nobody, and an attached client is sent each that goes out. -/
theorem Seated.tx_arrivals (seated : st.Seated) (goOut : GoOut key st frames) :
    ((run AppState.step st (arrivals frames)).heap client).tx =
      if st.attached key client then (st.heap client).tx.offer (frames.map (·.2))
      else (st.heap client).tx := by
  induction frames generalizing st with
  | nil => exact (ite_self _).symm
  | cons frame rest inductionHypothesis =>
      have later := inductionHypothesis (seated_step seated (.onUpdate frame.1 frame.2) trivial)
        goOut.2
      rw [attached_onUpdate, seated.tx_onUpdate goOut.1.1 goOut.1.2] at later
      show ((run AppState.step (st.step (.onUpdate frame.1 frame.2))
        (arrivals rest)).heap client).tx = _
      rw [later]
      split <;> rfl

/-- An attached client with room for them all is queued all of them. -/
theorem Seated.logOf_arrivals (seated : st.Seated) (goOut : GoOut key st frames)
    (attached : st.attached key client = true)
    (roomy : frames.length ≤ (st.heap client).tx.room) :
    (run AppState.step st (arrivals frames)).logOf client key =
      st.logOf client key ++ frames.map (·.2) := by
  have own : (frames.map (·.2)).filter (·.key = key) = frames.map (·.2) := by
    rw [List.filter_eq_self]
    exact fun message member => decide_eq_true (key_of_goOut goOut message member)
  rw [logOf, log, seated.tx_arrivals goOut, if_pos attached, Mailbox.accepted_offer,
    List.take_of_length_le (by rwa [List.length_map]), List.filter_append, own]
  rfl

/-! ### The parked -/

/-- Who is parked after some frames was parked all along. -/
theorem always_parked_of_last (frames : List (Nat × Message))
    (parked : (run AppState.step st (arrivals frames)).parked key client = true) :
    Always AppState.step (fun st => st.parked key client = true) st (arrivals frames) := by
  induction frames generalizing st with
  | nil => exact parked
  | cons frame rest inductionHypothesis =>
      have later := inductionHypothesis parked
      exact ⟨parked_of_parked_onUpdate later.first, later⟩

/-- A parked client stays parked through all the frames exactly if they fit under the cap. -/
theorem Settled.always_parked_iff (settled : st.Settled client)
    (incremental : key.isIncremental = true) {held : List Message}
    (behind : Behind st key client held) (goOut : GoOut key st frames) :
    Always AppState.step (fun st => st.parked key client = true) st (arrivals frames) ↔
      bytesOf (held ++ frames.map (·.2)) ≤ pendingMaxBytes := by
  induction frames generalizing st held with
  | nil =>
      refine iff_of_true (parked_of_behind behind) ?_
      obtain ⟨e, p, -, -, -, holds⟩ := behind
      rw [List.map_nil, List.append_nil, ← holds.bytes]
      exact holds.within
  | cons frame rest inductionHypothesis =>
      have forwarded : st.forwardedBy key (.onUpdate frame.1 frame.2) = [frame.2] :=
        forwardedBy_onUpdate_iff.mpr goOut.1
      have stays := settled.stays_parked_iff incremental behind forwarded
      have settledAfter : (AppState.step st (.onUpdate frame.1 frame.2)).Settled client :=
        settled.step trivial
      have later := fun (behind : Behind _ key client (held ++ [frame.2])) =>
        inductionHypothesis settledAfter behind goOut.2
      rw [List.append_assoc] at later
      constructor
      · rintro ⟨-, still⟩
        have piled := settled.piles incremental behind still.first
        rw [forwarded] at piled
        exact (later piled).mp still
      · intro fits
        have small : bytesOf held + Payload.len frame.2 ≤ pendingMaxBytes := by
          rw [bytesOf_append, List.map_cons] at fits
          simp only [bytesOf, List.map_cons, List.sum_cons] at fits ⊢
          omega
        have piled := settled.piles incremental behind (stays.mpr small)
        rw [forwarded] at piled
        exact ⟨parked_of_behind behind, (later piled).mpr fits⟩

/-- Behind a client that was parked with nothing held are all the frames, if they fit under the
cap; else it has been evicted. -/
theorem Settled.behind_arrivals (settled : st.Settled client)
    (incremental : key.isIncremental = true) (waits : Behind st key client [])
    (goOut : GoOut key st frames) :
    if bytesOf (frames.map (·.2)) ≤ pendingMaxBytes then
      Behind (run AppState.step st (arrivals frames)) key client (frames.map (·.2))
    else (run AppState.step st (arrivals frames)).parked key client = false := by
  have staysIff := settled.always_parked_iff incremental waits goOut
  split
  · next fits =>
      obtain ⟨-, behind, -⟩ := settled.run_parked incremental waits _ (handed_arrivals st frames)
        (staysIff.mpr fits)
      rwa [forwardedOver_arrivals goOut, List.nil_append] at behind
  · next outgrown =>
      by_contra still
      apply outgrown
      exact staysIff.mp (always_parked_of_last _ (Bool.eq_true_of_not_eq_false still))

/-- A client that is not parked on the key is offered nothing by a snapshot for it. -/
theorem offered_of_not_parked {fetched : Fetched} (free : st.parked fetched.key client = false) :
    st.offered client (.deliverSnapshot client fetched) = [] := by
  rw [offered, if_pos rfl, backlog?]
  cases found : st.getEntry fetched.key with
  | none => rfl
  | some e =>
      rw [parked, found, Option.any_some] at free
      rw [Option.bind_some, rebuild_of_absent _ _ _ _ _ _ free]
      rfl

end AppState

end Wsarb
