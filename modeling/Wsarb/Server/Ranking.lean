import Wsarb.Library.Ranking
import Wsarb.Server.Texts
import Wsarb.Upstream.Lifecycle

/-!
Owns where a fetched snapshot comes from: the connected sources are asked in turn, those that have
spoken most recently first, and those silent for too long only when all of them are.

The ranking is taken in one step, when the fetch starts; what each source's throwaway connection
will carry is whatever it is.

Does not own: what becomes of the snapshot.
-/

namespace Wsarb

open Wsarb.Library

/-- The longest duration there is, in nanoseconds. -/
def durationMax : Nat := UInt64.size * 1000000000 - 1

/-- How long the source has been silent; a source that never spoke comes last. -/
def Uplink.idle (uplink : Uplink) : Nat := uplink.stats.idleFor.getD durationMax

namespace Fleet

def ranked (fleet : List Uplink) : List (Nat × Nat) :=
  ((fleet.filter (·.stats.connected)).map fun uplink => (uplink.idle, uplink.id)).mergeSort
    fun first second => decide (first.1 ≤ second.1)

def asked (fleet : List Uplink) : List Nat :=
  let ranked := ranked fleet
  let fresh := ranked.filter fun entry => decide (entry.1 ≤ silenceLimit)
  (if fresh.isEmpty then ranked else fresh).map (·.2)

/-- What `fetch_snapshot` comes back with, given what each source's connection would carry. -/
def fetch (fromStr : String → Option Frame) (fleet : List Uplink) (key : SubKey)
    (answers : Nat → List String) : Option (Nat × Nat × String) :=
  fetchSnapshot fromStr key ((asked fleet).map fun id => (id, answers id))

/-- The connected sources; only those not silent for too long, if there are any. -/
def candidates (fleet : List Uplink) : List Uplink :=
  let connected := fleet.filter (·.stats.connected)
  let fresh := connected.filter fun uplink => decide (uplink.idle ≤ silenceLimit)
  if fresh.isEmpty then connected else fresh

variable {fleet : List Uplink}

/-- The sources asked are the candidates, ranked. -/
theorem ranks_candidates (once : fleet.Nodup) :
    ∃ ranking, Ranks Uplink.idle (candidates fleet) ranking ∧
      asked fleet = ranking.map (·.id) := by
  let connected := fleet.filter (·.stats.connected)
  let ranking := connected.mergeSort fun a b => decide (a.idle ≤ b.idle)
  have ranks : Ranks Uplink.idle connected ranking := Ranks.mergeSort (once.filter _)
  have named : ranked fleet = ranking.map fun uplink => (uplink.idle, uplink.id) :=
    (List.map_mergeSort (f := fun uplink : Uplink => (uplink.idle, uplink.id))
      fun _ _ _ _ => rfl).symm
  let recent : Uplink → Bool := fun uplink => decide (uplink.idle ≤ silenceLimit)
  have fresh : (ranked fleet).filter (fun entry => decide (entry.1 ≤ silenceLimit)) =
      (ranking.filter recent).map fun uplink => (uplink.idle, uplink.id) := by
    rw [named, List.filter_map]
    rfl
  have alike : (ranking.filter recent).isEmpty = (connected.filter recent).isEmpty := by
    have perm : (ranking.filter recent).Perm (connected.filter recent) :=
      (List.mergeSort_perm _ _).filter _
    rw [Bool.eq_iff_iff, List.isEmpty_iff, List.isEmpty_iff]
    exact ⟨fun none' => (none' ▸ perm).nil_eq.symm, fun none' => (none' ▸ perm).eq_nil⟩
  have asks : asked fleet = (if (connected.filter recent).isEmpty then ranking
      else ranking.filter recent).map (·.id) := by
    unfold asked
    dsimp only
    rw [fresh, named, List.isEmpty_map, alike]
    split <;> rw [List.map_map] <;> rfl
  have picks : candidates fleet = if (connected.filter recent).isEmpty then connected
      else connected.filter recent := rfl
  rw [asks, picks]
  split
  · exact ⟨ranking, ranks, rfl⟩
  · exact ⟨ranking.filter recent, ranks.filter recent, rfl⟩

/-- After any run, a fetch comes back with the snapshot of the freshest candidate that answers, the
one listed first if several are as fresh; and with nothing exactly if no candidate answers. -/
theorem freshest_answers (fromStr : String → Option Frame) (count : Nat) (events : List Event)
    (key : SubKey) (answers : Nat → List String) :
    let fleet := run step (start count) events
    (∀ source height text, fetch fromStr fleet key answers = some (source, height, text) ↔
      ∃ before uplink after, candidates fleet = before ++ uplink :: after ∧ uplink.id = source ∧
        snapshotFrom fromStr key (answers source) = some (height, text) ∧
        (∀ other ∈ before, other.idle ≤ uplink.idle →
          snapshotFrom fromStr key (answers other.id) = none) ∧
        ∀ other ∈ after, other.idle < uplink.idle →
          snapshotFrom fromStr key (answers other.id) = none) ∧
    (fetch fromStr fleet key answers = none ↔
      ∀ uplink ∈ candidates fleet, snapshotFrom fromStr key (answers uplink.id) = none) := by
  intro fleet
  have ids : fleet.map (·.id) = List.range count := ids_run count events
  have once : fleet.Nodup := List.Nodup.of_map _ (ids ▸ List.nodup_range)
  obtain ⟨ranking, ranks, asks⟩ := ranks_candidates once
  have fetched : fetch fromStr fleet key answers = ranking.findSome? fun uplink =>
      (snapshotFrom fromStr key (answers uplink.id)).map (uplink.id, ·) := by
    rw [fetch, asks, fetchSnapshot, List.map_map, List.findSome?_map]
    rfl
  rw [fetched]
  constructor
  · intro source height text
    rw [ranks.findSome?_eq_some_iff]
    simp only [Option.map_eq_some_iff, Option.map_eq_none_iff, Prod.mk.injEq]
    constructor
    · rintro ⟨before, uplink, after, split, ⟨_, taken, rfl, rfl⟩, earlier, later⟩
      exact ⟨before, uplink, after, split, rfl, taken, earlier, later⟩
    · rintro ⟨before, uplink, after, split, rfl, taken, earlier, later⟩
      exact ⟨before, uplink, after, split, ⟨_, taken, rfl, rfl⟩, earlier, later⟩
  · rw [List.findSome?_eq_none_iff]
    simp only [Option.map_eq_none_iff, ranks.mem_iff]

end Fleet

end Wsarb
