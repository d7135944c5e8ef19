import Wsarb.Library.Run
import Wsarb.State.Waiting

/-!
Owns the history of one key beside the shared state: the frames forwarded on it, divided
at the last loss of its leader, and for each client how many of them had gone out when it
was parked. Owns the law that ties this history to what is held behind a parked client.
-/

namespace Wsarb

open Wsarb.Library AppState

/-- The shared state with the history of one key. -/
structure Chronicle where
  st : Live
  /-- Forwarded before the leader was last lost. -/
  older : List Message
  /-- Forwarded since. -/
  live : List Message
  /-- How many of `live` had gone out when the client was parked. -/
  missed : Nat → Nat

namespace AppState

/-- The operation is the loss of the source leading the key. -/
def losesLeader (st : Live) (key : SubKey) : Op → Bool
  | .resyncAfterSourceLoss source =>
      (st.getEntry key).any fun e => decide (e.blockLeader = some source)
  | _ => false

end AppState

namespace Chronicle

def start (sources : List Source) : Chronicle := ⟨AppState.new sources, [], [], fun _ => 0⟩

def step (key : SubKey) (chronicle : Chronicle) (op : Op) : Chronicle :=
  let after := chronicle.st.step op
  if chronicle.st.losesLeader key op then
    { st := after, older := chronicle.older ++ chronicle.live, live := [], missed := fun _ => 0 }
  else
    { st := after
      older := chronicle.older
      live := chronicle.live ++ chronicle.st.forwardedBy key op
      missed := fun client =>
        if after.parked key client && !chronicle.st.parked key client then chronicle.live.length
        else chronicle.missed client }

variable {key : SubKey}

/-- Behind every parked client stand some of the older frames, none if it was parked since,
and then every frame forwarded since it was parked. -/
structure Faithful (key : SubKey) (chronicle : Chronicle) : Prop where
  tagged : HeldTagged chronicle.st
  missed_le : ∀ client, chronicle.missed client ≤ chronicle.live.length
  held : ∀ e, chronicle.st.getEntry key = some e → ∀ p ∈ e.pending, ∃ kept,
    kept.Sublist chronicle.older ∧ (0 < chronicle.missed p.client → kept = []) ∧
      p.held.map (·.2.2) = kept ++ chronicle.live.drop (chronicle.missed p.client)

theorem faithful_start (sources : List Source) : Faithful key (start sources) where
  tagged := heldTagged_new sources
  missed_le := fun _ => Nat.le_refl 0
  held := fun _ found => nomatch found

/-- What is held behind one client stays as told by the history when nothing is added to
either. -/
theorem Faithful.same {chronicle : Chronicle} (holds : Faithful key chronicle) {op : Op}
    (keeps : chronicle.st.losesLeader key op = false)
    (silent : chronicle.st.forwardedBy key op = []) {e : SubEntry Message}
    (found : chronicle.st.getEntry key = some e) {p : Pending Message} (member : p ∈ e.pending) :
    ∃ kept, kept.Sublist (step key chronicle op).older ∧
      (0 < (step key chronicle op).missed p.client → kept = []) ∧
      p.held.map (·.2.2) =
        kept ++ (step key chronicle op).live.drop ((step key chronicle op).missed p.client) := by
  have waits := parked_of_mem found member
  simpa [step, keeps, silent, waits] using holds.held e found p member

/-- The history is told right through the loss of the key's leader. -/
theorem Faithful.loses {chronicle : Chronicle} (holds : Faithful key chronicle) {op : Op}
    (loses : chronicle.st.losesLeader key op = true) : Faithful key (step key chronicle op) := by
  have shape : step key chronicle op =
      { st := chronicle.st.step op, older := chronicle.older ++ chronicle.live, live := []
        missed := fun _ => 0 } := if_pos loses
  refine ⟨?_, ?_, ?_⟩
  · rw [shape]
    exact heldTagged_step holds.tagged op
  · rw [shape]
    exact fun _ => Nat.le_refl 0
  · rw [shape]
    intro e found p member
    have old : ∀ before, chronicle.st.getEntry key = some before → p ∈ before.pending →
        ∃ kept, kept.Sublist (chronicle.older ++ chronicle.live) ∧ (0 < 0 → kept = []) ∧
          p.held.map (·.2.2) = kept ++ ([] : List Message).drop 0 := by
      intro before found waits
      obtain ⟨kept, sublist, -, held⟩ := holds.held before found p waits
      refine ⟨_, ?_, fun never => absurd never (Nat.lt_irrefl 0),
        held.trans (List.append_nil _).symm⟩
      exact sublist.append (List.drop_sublist _ _)
    cases op with
    | resyncAfterSourceLoss source =>
        cases waits found member with
        | stayed before listed silent => exact old _ before listed
        | orphaned before _ leads attached =>
            exact ⟨[], List.nil_sublist _, fun _ => rfl, rfl⟩
    | _ => cases loses

/-- A frame that goes out is piled up behind every parked client. -/
theorem Faithful.heard {chronicle : Chronicle} (holds : Faithful key chronicle) {now : Nat}
    {message : Message} {e : SubEntry Message} (found : chronicle.st.getEntry key = some e)
    {p : Pending Message} (waits : p ∈ e.pending)
    (goesOut : chronicle.st.forwardedBy key (.onUpdate now message) = [message]) :
    ∃ kept, kept.Sublist (step key chronicle (.onUpdate now message)).older ∧
      (0 < (step key chronicle (.onUpdate now message)).missed p.client → kept = []) ∧
      (p.pile message.source message.seq.stamp message).held.map (·.2.2) =
        kept ++ (step key chronicle (.onUpdate now message)).live.drop
          ((step key chronicle (.onUpdate now message)).missed p.client) := by
  obtain ⟨kept, sublist, late, held⟩ := holds.held e found p waits
  have parked := parked_of_mem found waits
  have within := holds.missed_le p.client
  have missed : (step key chronicle (.onUpdate now message)).missed p.client =
      chronicle.missed p.client := by
    simp [step, losesLeader, parked]
  have live : (step key chronicle (.onUpdate now message)).live =
      chronicle.live ++ [message] := congrArg (chronicle.live ++ ·) goesOut
  refine ⟨kept, sublist, fun since => late (missed ▸ since), ?_⟩
  show (p.held ++ [(message.source, message.seq.stamp, message)]).map (·.2.2) =
    kept ++ (step key chronicle (.onUpdate now message)).live.drop
      ((step key chronicle (.onUpdate now message)).missed p.client)
  rw [missed, live, List.drop_append_of_le_length within, List.map_append, held,
    List.append_assoc]
  rfl

/-- The history is told right by every step. -/
theorem Faithful.step (incremental : key.isIncremental = true) {chronicle : Chronicle}
    (holds : Faithful key chronicle) (op : Op) : Faithful key (step key chronicle op) := by
  cases loses : chronicle.st.losesLeader key op with
  | true => exact holds.loses loses
  | false =>
      have shape : Chronicle.step key chronicle op =
          { st := chronicle.st.step op, older := chronicle.older
            live := chronicle.live ++ chronicle.st.forwardedBy key op
            missed := fun client =>
              if (chronicle.st.step op).parked key client && !chronicle.st.parked key client then
                chronicle.live.length
              else chronicle.missed client } := if_neg (by rw [loses]; decide)
      refine ⟨?_, ?_, ?_⟩
      · rw [shape]
        exact heldTagged_step holds.tagged op
      · rw [shape]
        intro client
        have within := holds.missed_le client
        simp only [List.length_append]
        split_ifs <;> omega
      · intro e found p member
        have found : (chronicle.st.step op).getEntry key = some e := by
          rwa [shape] at found
        have now := parked_of_mem found member
        cases waits found member with
        | stayed before listed silent =>
            exact holds.same loses (silent.resolve_right (by simp [incremental])) before listed
        | piled before listed goesOut fits => exact holds.heard before listed goesOut
        | joined _ absent live alone =>
            -- A client parked now holds nothing, and nothing has gone out since.
            refine ⟨[], List.nil_sublist _, fun _ => rfl, ?_⟩
            rw [shape]
            simp [now, alone, forwardedBy]
        | orphaned before _ leads attached =>
            rw [losesLeader, before, Option.any_some, leads] at loses
            simp at loses

/-- The history of a run is told right. -/
theorem faithful_run (key : SubKey) (incremental : key.isIncremental = true)
    (sources : List Source) (ops : List Op) :
    Faithful key (run (Chronicle.step key) (start sources) ops) :=
  Reachable.invariant ⟨ops, rfl⟩ (faithful_start sources)
    fun _ op holds => holds.step incremental op

end Chronicle

end Wsarb
