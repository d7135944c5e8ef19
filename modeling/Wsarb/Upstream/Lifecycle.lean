import Wsarb.Library.Since
import Wsarb.State.Silence

/-!
Owns the lifecycle of the upstream connections and their supervision: each source's task dials,
streams and waits before it dials again; every window one pass over all sources rolls their
counters, finds the silent ones and asks for some of their connections to be bounced. Owns how the
counters, the waits and the bounces follow from what happened, over whole runs.

A pass is one step: it rolls every window and judges by what it finds then, and no packet is counted
between the two. The tasks make a move only where their loop is ready for it. Silence is counted
exactly for fewer than 2^32 passes.

Does not own: what a connection carries, or what its loss does to the registry; or a packet that
comes in while a pass is under way.
-/

namespace Wsarb

open Wsarb.Library

/-- The first wait before dialing again, in milliseconds. -/
def reconnectMin : Nat := 250

/-- The longest wait before dialing again, in milliseconds. -/
def reconnectMax : Nat := 10000

/-- Windows of silence before the connection is bounced once. -/
def silentReconnectFirst : Nat := 6

/-- How often it is bounced after that. -/
def silentReconnectEvery : Nat := 60

/-- How far the lifecycle loop of a source is. -/
inductive Life
  | dialing
  | streaming
  | asleep
  deriving DecidableEq

/-- An upstream source with its lifecycle loop. -/
structure Uplink where
  id : Nat
  stats : WindowStats := { connected := false }
  disconnects : Nat := 0
  life : Life := .dialing
  /-- How long the next wait is, in milliseconds. -/
  backoff : Nat := reconnectMin
  /-- A bounce has been asked for and not been made. -/
  reconnect : Bool := false

inductive Uplink.Move
  | connected
  | connectFailed
  /-- A text or binary frame comes in. -/
  | packet
  /-- The connection ends by itself. -/
  | ended
  /-- The connection is ended because a bounce was asked for. -/
  | bounced
  /-- The wait is over. -/
  | woke
  deriving DecidableEq

namespace Uplink

/-- The loop is at a point where it can make the move. -/
def Ready (uplink : Uplink) : Move → Prop
  | .connected | .connectFailed => uplink.life = .dialing
  | .packet | .ended => uplink.life = .streaming
  | .bounced => uplink.life = .streaming ∧ uplink.reconnect = true
  | .woke => uplink.life = .asleep

instance (uplink : Uplink) (move : Move) : Decidable (uplink.Ready move) := by
  cases move <;> unfold Ready <;> infer_instance

def disconnect (uplink : Uplink) : Uplink :=
  { uplink with
    life := .asleep
    stats := { uplink.stats with connected := false }
    disconnects := uplink.disconnects + 1 }

def move (uplink : Uplink) : Move → Uplink
  | .connected =>
      { uplink with
        life := .streaming
        backoff := reconnectMin
        stats := { uplink.stats with connected := true } }
  | .connectFailed => { uplink with life := .asleep }
  | .packet => { uplink with stats := uplink.stats.deliver }
  | .ended => uplink.disconnect
  | .bounced => { uplink.disconnect with reconnect := false }
  | .woke => { uplink with life := .dialing, backoff := min (uplink.backoff * 2) reconnectMax }

def watched (uplink : Uplink) : Watched := ⟨uplink.id, uplink.stats⟩

/-- A silent source's connection is bounced at this tick. -/
def due (uplink : Uplink) : Bool :=
  uplink.stats.silentWindows == silentReconnectFirst ||
    (decide (silentReconnectFirst < uplink.stats.silentWindows) &&
      (uplink.stats.silentWindows - silentReconnectFirst) % silentReconnectEvery == 0)

end Uplink

namespace Fleet

inductive Event
  | source (id : Nat) (move : Uplink.Move)
  | tick
  deriving DecidableEq

def rolled (fleet : List Uplink) : List Uplink :=
  fleet.map fun uplink => { uplink with stats := uplink.stats.rollWindow }

/-- The sources a tick takes for dead, by the windows it has just rolled. -/
def flagged (fleet : List Uplink) : List Nat :=
  silentSources silenceLimit ((rolled fleet).map Uplink.watched)

def pass (fleet : List Uplink) : List Uplink :=
  (rolled fleet).map fun uplink =>
    if uplink.id ∈ flagged fleet ∧ uplink.due then { uplink with reconnect := true } else uplink

def step (fleet : List Uplink) : Event → List Uplink
  | .source id move =>
      fleet.map fun uplink => if uplink.id = id then uplink.move move else uplink
  | .tick => pass fleet

def start (count : Nat) : List Uplink := (List.range count).map fun id => { id := id }

/-- A task makes a move its loop is ready for. -/
def InTurn (fleet : List Uplink) : Event → Prop
  | .source id move => ∀ uplink ∈ fleet, uplink.id = id → uplink.Ready move
  | .tick => True

instance (fleet : List Uplink) (event : Event) : Decidable (InTurn fleet event) := by
  cases event <;> unfold InTurn <;> infer_instance

/-! ### What the events say -/

/-- How often the window has been rolled since the source last spoke. -/
def ticksSince (id : Nat) (events : List Event) : Nat :=
  countSince (.source id .packet) .tick events

/-- How often the source has waited since it was last connected. -/
def waits (id : Nat) (events : List Event) : Nat :=
  countSince (.source id .connected) (.source id .woke) events

def Heard (id : Nat) (events : List Event) : Prop := .source id .packet ∈ events

instance (id : Nat) (events : List Event) : Decidable (Heard id events) :=
  inferInstanceAs (Decidable (_ ∈ _))

theorem count_concat (events : List Event) (event what : Event) :
    (events ++ [event]).count what = events.count what + if event = what then 1 else 0 := by
  rw [List.count_append, List.count_singleton]
  simp

/-- What the counters of a source say of what it delivered. -/
structure Spoken (events : List Event) (id : Nat) (stats : WindowStats) : Prop where
  packets : stats.count.packets = events.count (.source id .packet)
  rolled : stats.prev.packets + countSince .tick (.source id .packet) events = stats.count.packets
  silent : Heard id events → .source id .packet ∉ since .tick events →
    stats.silentWindows = (ticksSince id events - 1) % 2 ^ 64

/-- How the loop of a source stands. -/
structure Looped (events : List Event) (uplink : Uplink) : Prop where
  connected : uplink.stats.connected = decide (uplink.life = .streaming)
  disconnects : uplink.disconnects + (if uplink.life = .streaming then 1 else 0) =
    events.count (.source uplink.id .connected)
  backoff : uplink.backoff = min (reconnectMin * 2 ^ waits uplink.id events) reconnectMax

variable {events : List Event} {uplink : Uplink} {id : Nat} {stats : WindowStats}

theorem spoken_start (id : Nat) (connected : Bool) : Spoken [] id { connected := connected } where
  packets := rfl
  rolled := by simp
  silent := fun heard => absurd heard List.not_mem_nil

/-- Only a packet of its own and a pass change the counters of a source. -/
theorem Spoken.other (spoken : Spoken events id stats) {event : Event} (noTick : event ≠ .tick)
    (noPacket : event ≠ .source id .packet) (connected : Bool) :
    Spoken (events ++ [event]) id { stats with connected := connected } where
  packets := by
    rw [count_concat, if_neg noPacket, Nat.add_zero]
    exact spoken.packets
  rolled := by
    rw [countSince_other noTick noPacket]
    exact spoken.rolled
  silent := by
    intro heard quiet
    rw [since_other noTick, List.mem_append, not_or] at quiet
    rw [ticksSince, countSince_other noPacket noTick]
    refine spoken.silent ?_ quiet.1
    rw [Heard, List.mem_append, List.mem_singleton] at heard
    exact heard.resolve_right (Ne.symm noPacket)

/-- A packet comes in. -/
theorem Spoken.packet (spoken : Spoken events id stats) :
    Spoken (events ++ [.source id .packet]) id stats.deliver where
  packets := by
    rw [count_concat, if_pos rfl, ← spoken.packets]
    rfl
  rolled := by
    rw [countSince_what (by simp), ← Nat.add_assoc, WindowStats.deliver]
    exact congrArg (· + 1) spoken.rolled
  silent := by
    intro _ quiet
    rw [since_other (by simp), List.mem_append, not_or] at quiet
    exact absurd List.mem_cons_self quiet.2

/-- The window is rolled. -/
theorem Spoken.tick (spoken : Spoken events id stats) :
    Spoken (events ++ [.tick]) id stats.rollWindow where
  packets := by
    rw [count_concat, if_neg (by simp), Nat.add_zero]
    exact spoken.packets
  rolled := by
    rw [countSince_mark]
    rfl
  silent := by
    intro heard _
    have heard : Heard id events := by simpa [Heard] using heard
    have next : ticksSince id (events ++ [.tick]) = ticksSince id events + 1 :=
      countSince_what (by simp) events
    have delta := spoken.rolled
    have silentWindows : stats.rollWindow.silentWindows =
        if stats.count.packets - stats.prev.packets = 0 then (stats.silentWindows + 1) % 2 ^ 64
        else 0 := rfl
    rw [silentWindows, next, Nat.add_sub_cancel]
    by_cases spoke : .source id .packet ∈ since .tick events
    · have some' : 0 < countSince .tick (.source id .packet) events :=
        List.count_pos_iff.mpr spoke
      rw [if_neg (by omega), ticksSince, countSince_eq_zero spoke, Nat.zero_mod]
    · have none' : countSince .tick (.source id .packet) events = 0 :=
        List.count_eq_zero.mpr spoke
      have some' : 0 < ticksSince id events := countSince_pos (by simp) heard spoke
      rw [if_pos (by omega), spoken.silent heard spoke]
      omega

theorem looped_start (id : Nat) : Looped [] { id := id } where
  connected := rfl
  disconnects := rfl
  backoff := by simp [waits, reconnectMin, reconnectMax]

/-- What leaves a loop where it is. -/
theorem Looped.other (looped : Looped events uplink) {event : Event}
    (noConnect : event ≠ .source uplink.id .connected) (noWait : event ≠ .source uplink.id .woke)
    {after : Uplink} (id : after.id = uplink.id) (life : after.life = uplink.life)
    (connected : after.stats.connected = uplink.stats.connected)
    (disconnects : after.disconnects = uplink.disconnects)
    (backoff : after.backoff = uplink.backoff) : Looped (events ++ [event]) after where
  connected := by rw [connected, life, looped.connected]
  disconnects := by
    rw [disconnects, life, id, count_concat, if_neg noConnect, looped.disconnects, Nat.add_zero]
  backoff := by
    rw [backoff, looped.backoff, id, waits, waits, countSince_other noConnect noWait]

/-- A connection ends, for whatever reason. -/
theorem Looped.ended (looped : Looped events uplink) (streaming : uplink.life = .streaming)
    {move : Uplink.Move} (noConnect : move ≠ .connected) (noWait : move ≠ .woke)
    (reconnect : Bool) :
    Looped (events ++ [.source uplink.id move])
      { uplink.disconnect with reconnect := reconnect } where
  connected := rfl
  disconnects := by
    have before := looped.disconnects
    rw [if_pos streaming] at before
    show uplink.disconnects + 1 =
      (events ++ [Event.source uplink.id move]).count (Event.source uplink.id .connected)
    rw [count_concat, if_neg (by simpa using noConnect), before, Nat.add_zero]
  backoff := by
    show uplink.backoff = min (reconnectMin * 2 ^ waits uplink.id _) reconnectMax
    rw [waits, countSince_other (by simpa using noConnect) (by simpa using noWait)]
    exact looped.backoff

/-- A source's own move, as far as its loop goes. -/
theorem Looped.move (looped : Looped events uplink) {move : Uplink.Move}
    (ready : uplink.Ready move) :
    Looped (events ++ [.source uplink.id move]) (uplink.move move) := by
  have before := looped.disconnects
  cases move with
  | connected =>
      refine ⟨rfl, ?_, ?_⟩
      · rw [ready, if_neg (by decide)] at before
        show uplink.disconnects + 1 = (events ++ [Event.source uplink.id .connected]).count
          (Event.source uplink.id .connected)
        rw [count_concat, if_pos rfl, ← before]
      · show reconnectMin = min (reconnectMin * 2 ^ waits uplink.id _) reconnectMax
        rw [waits, countSince_mark]
        decide
  | connectFailed =>
      refine ⟨?_, ?_, ?_⟩
      · have off := looped.connected
        rw [ready] at off
        exact off
      · rw [ready, if_neg (by decide)] at before
        show uplink.disconnects + 0 = (events ++ [Event.source uplink.id .connectFailed]).count
          (Event.source uplink.id .connected)
        rw [count_concat, if_neg (by simp), before, Nat.add_zero]
      · show uplink.backoff = min (reconnectMin * 2 ^ waits uplink.id _) reconnectMax
        rw [waits, countSince_other (by simp) (by simp)]
        exact looped.backoff
  | packet => exact looped.other (by simp) (by simp) rfl rfl rfl rfl rfl
  | ended => exact looped.ended ready (by simp) (by simp) uplink.reconnect
  | bounced => exact looped.ended ready.1 (by simp) (by simp) false
  | woke =>
      refine ⟨?_, ?_, ?_⟩
      · have off := looped.connected
        rw [ready] at off
        exact off
      · rw [ready, if_neg (by decide)] at before
        show uplink.disconnects + 0 = (events ++ [Event.source uplink.id .woke]).count
          (Event.source uplink.id .connected)
        rw [count_concat, if_neg (by simp), before, Nat.add_zero]
      · show min (uplink.backoff * 2) reconnectMax = min (reconnectMin * 2 ^ waits uplink.id _) _
        rw [waits, countSince_what (by simp), looped.backoff, waits, Nat.pow_succ, ← Nat.mul_assoc]
        omega

structure Tracked (events : List Event) (uplink : Uplink) : Prop where
  spoken : Spoken events uplink.id uplink.stats
  looped : Looped events uplink

theorem Tracked.step {fleet : List Uplink} (tracked : ∀ uplink ∈ fleet, Tracked events uplink)
    (event : Event) (inTurn : InTurn fleet event) :
    ∀ uplink ∈ step fleet event, Tracked (events ++ [event]) uplink := by
  intro uplink member
  cases event with
  | source id move =>
      obtain ⟨before, listed, rfl⟩ := List.mem_map.mp member
      have old := tracked before listed
      by_cases own : before.id = id
      · subst own
        have ready := inTurn before listed rfl
        rw [if_pos rfl]
        refine ⟨?_, old.looped.move ready⟩
        cases move with
        | packet => exact old.spoken.packet
        | _ => exact old.spoken.other (by simp) (by simp) _
      · rw [if_neg own]
        have other : ∀ move' : Uplink.Move, Event.source id move ≠ .source before.id move' := by
          intro move' same
          exact own (Event.source.inj same).1.symm
        refine ⟨old.spoken.other (by simp) (other _) _, ?_⟩
        exact old.looped.other (other _) (other _) rfl rfl rfl rfl rfl
  | tick =>
      obtain ⟨rolled', listed, rfl⟩ := List.mem_map.mp member
      obtain ⟨before, there, rfl⟩ := List.mem_map.mp listed
      have old := tracked before there
      have asked (reconnect : Bool) : Tracked (events ++ [.tick])
          { before with stats := before.stats.rollWindow, reconnect := reconnect } :=
        ⟨old.spoken.tick, old.looped.other (by simp) (by simp) rfl rfl rfl rfl rfl⟩
      split
      · exact asked true
      · exact asked before.reconnect

theorem ids_step (fleet : List Uplink) (event : Event) :
    (step fleet event).map (·.id) = fleet.map (·.id) := by
  have own (uplink : Uplink) (move : Uplink.Move) : (uplink.move move).id = uplink.id := by
    cases move <;> rfl
  cases event with
  | source id move =>
      rw [step, List.map_map]
      apply List.map_congr_left
      intro uplink _
      show (if uplink.id = id then uplink.move move else uplink).id = uplink.id
      split
      · exact own uplink move
      · rfl
  | tick =>
      rw [step, pass, rolled, List.map_map, List.map_map]
      apply List.map_congr_left
      intro uplink _
      show (if _ then _ else _ : Uplink).id = uplink.id
      split <;> rfl

/-- There is one record a source. -/
theorem ids_run (count : Nat) (events : List Event) :
    (run step (start count) events).map (·.id) = List.range count := by
  induction events using List.reverseRecOn with
  | nil => exact (List.map_map ..).trans (List.map_id _)
  | append_singleton before event inductionHypothesis =>
      rw [run_append]
      exact (ids_step _ event).trans inductionHypothesis

/-- After any run in which the tasks take their turns, each record tells what happened to its
source. -/
theorem tracked_run (count : Nat) (events : List Event)
    (inTurn : Throughout step InTurn (start count) events) :
    ∀ uplink ∈ run step (start count) events, Tracked events uplink := by
  induction events using List.reverseRecOn with
  | nil =>
      intro uplink member
      obtain ⟨id, -, rfl⟩ := List.mem_map.mp member
      exact ⟨spoken_start id false, looped_start id⟩
  | append_singleton before event inductionHypothesis =>
      obtain ⟨earlier, last⟩ :=
        (throughout_append step InTurn (start count) before [event]).mp inTurn
      rw [run_append]
      exact Tracked.step (inductionHypothesis earlier) event last.1

/-- After any run in which the tasks take their turns, a source is marked connected exactly while
its loop is streaming, its packets are all counted, it has been disconnected as often as connected
but for the connection that is up, and the next wait is the first one doubled as often as it has
waited since it last connected, up to the longest. -/
theorem lifecycle_run (count : Nat) (events : List Event)
    (inTurn : Throughout step InTurn (start count) events) :
    ∀ uplink ∈ run step (start count) events,
      uplink.stats.connected = decide (uplink.life = .streaming) ∧
      uplink.stats.count.packets = events.count (.source uplink.id .packet) ∧
      uplink.disconnects + (if uplink.life = .streaming then 1 else 0) =
        events.count (.source uplink.id .connected) ∧
      uplink.backoff = min (reconnectMin * 2 ^ waits uplink.id events) reconnectMax := by
  intro uplink member
  obtain ⟨spoken, looped⟩ := tracked_run count events inTurn uplink member
  exact ⟨looped.connected, spoken.packets, looped.disconnects, looped.backoff⟩

/-- A source delivers twice and is lost, and cannot be reached at two more dials. -/
def faltering : List Event :=
  [.source 0 .connected, .source 0 .packet, .tick, .source 0 .packet, .source 0 .ended,
    .source 0 .woke, .source 0 .connectFailed, .source 0 .woke, .tick, .source 0 .connectFailed,
    .source 0 .woke]

/-- It has been waited for 250, 500 and 1000 ms; the next wait is two seconds. -/
theorem lifecycle_run_faltering :
    ∃ uplink ∈ run step (start 1) faltering,
      (uplink.stats.connected = decide (uplink.life = .streaming) ∧
        uplink.stats.count.packets = faltering.count (.source uplink.id .packet) ∧
        uplink.disconnects + (if uplink.life = .streaming then 1 else 0) =
          faltering.count (.source uplink.id .connected) ∧
        uplink.backoff = min (reconnectMin * 2 ^ waits uplink.id faltering) reconnectMax) ∧
      uplink.stats.count.packets = 2 ∧ uplink.disconnects = 1 ∧ uplink.backoff = 2000 := by
  have waited : ∃ uplink ∈ run step (start 1) faltering,
      uplink.stats.count.packets = 2 ∧ uplink.disconnects = 1 ∧ uplink.backoff = 2000 := by decide
  obtain ⟨uplink, member, counted⟩ := waited
  exact ⟨uplink, member, lifecycle_run 1 faltering (by decide) uplink member, counted⟩

/-! ### The sources taken for dead -/

theorem mem_silentSources {limit id : Nat} {sources : List Watched} :
    id ∈ silentSources limit sources ↔
      (∃ src ∈ sources, src.id = id ∧ src.stats.connected = true ∧
        ∃ idle ∈ src.stats.idleFor, limit < idle) ∧
      ∃ src ∈ sources, ∃ idle ∈ src.stats.idleFor, idle ≤ limit := by
  have among : ∀ idle, idle ∈ sources.filterMap (·.stats.idleFor) ↔
      ∃ src ∈ sources, src.stats.idleFor = some idle := fun _ => List.mem_filterMap
  rw [silentSources]
  cases least : (sources.filterMap (·.stats.idleFor)).min? with
  | none =>
      rw [List.min?_eq_none_iff] at least
      refine iff_of_false List.not_mem_nil ?_
      rintro ⟨-, src, member, idle, heard, -⟩
      have listed := (among idle).mpr ⟨src, member, heard⟩
      rw [least] at listed
      exact absurd listed List.not_mem_nil
  | some freshest =>
      obtain ⟨attained, below⟩ := List.min?_eq_some_iff.mp least
      have recent : freshest ≤ limit ↔
          ∃ src ∈ sources, ∃ idle ∈ src.stats.idleFor, idle ≤ limit := by
        constructor
        · intro within
          obtain ⟨src, member, heard⟩ := (among freshest).mp attained
          exact ⟨src, member, freshest, heard, within⟩
        · rintro ⟨src, member, idle, heard, within⟩
          exact (below idle ((among idle).mpr ⟨src, member, heard⟩)).trans within
      dsimp only
      rw [← recent]
      split
      · next within =>
          simp [within, Option.any_eq_true, and_comm, and_left_comm]
      · next old => exact iff_of_false List.not_mem_nil fun both => old both.2

/-- How long a source is taken to have been silent at a tick. -/
theorem Spoken.idleFor_tick (spoken : Spoken events id stats)
    (few : events.count .tick + 1 < 2 ^ 32) :
    stats.rollWindow.idleFor =
      if Heard id events then some (windowNs * (ticksSince id (events ++ [.tick]) - 1))
      else none := by
  have rolled := spoken.tick
  have few' : ticksSince id (events ++ [.tick]) < 2 ^ 32 := by
    have bound := countSince_le (.source id .packet) .tick (events ++ [Event.tick])
    rw [count_concat, if_pos rfl] at bound
    exact Nat.lt_of_le_of_lt bound few
  have counted : stats.rollWindow.count.packets = events.count (.source id .packet) :=
    spoken.packets
  rw [WindowStats.idleFor, counted]
  by_cases heard : Heard id events
  · have some' : events.count (.source id .packet) ≠ 0 :=
      Nat.ne_of_gt (List.count_pos_iff.mpr heard)
    have silent := rolled.silent (List.mem_append_left _ heard) (by simp)
    rw [if_neg some', if_pos heard, silent]
    congr 2
    omega
  · have none' : events.count (.source id .packet) = 0 := List.count_eq_zero.mpr heard
    rw [if_pos none', if_neg heard]

/-- A tick that is taken whole, fewer than 2^32 before it, takes a source for dead exactly if it is
connected, has spoken at all, and three ticks or more have come since, while for some other source
that has spoken it is two at most. -/
theorem flagged_iff (count : Nat) (events : List Event)
    (inTurn : Throughout step InTurn (start count) events)
    (few : events.count .tick + 1 < 2 ^ 32) (id : Nat) :
    id ∈ flagged (run step (start count) events) ↔
      (∃ uplink ∈ run step (start count) events, uplink.id = id ∧ uplink.life = .streaming) ∧
      Heard id events ∧ 3 ≤ ticksSince id (events ++ [.tick]) ∧
      ∃ other < count, Heard other events ∧ ticksSince other (events ++ [.tick]) ≤ 2 := by
  have ids := ids_run count events
  have tracked := tracked_run count events inTurn
  generalize run step (start count) events = fleet at ids tracked
  have among (P : Watched → Prop) : (∃ src ∈ (rolled fleet).map Uplink.watched, P src) ↔
      ∃ uplink ∈ fleet, P ⟨uplink.id, uplink.stats.rollWindow⟩ := by
    simp [rolled, Uplink.watched]
  have idle (uplink : Uplink) (member : uplink ∈ fleet) (idle : Nat) :
      idle ∈ uplink.stats.rollWindow.idleFor ↔ Heard uplink.id events ∧
        idle = windowNs * (ticksSince uplink.id (events ++ [.tick]) - 1) := by
    rw [(tracked uplink member).spoken.idleFor_tick few]
    split
    · next heard => simp [heard, eq_comm]
    · next silent => simp [silent]
  have known (other : Nat) : other < count ↔ ∃ uplink ∈ fleet, uplink.id = other := by
    rw [← List.mem_range, ← ids, List.mem_map]
  rw [flagged, mem_silentSources, among, among]
  constructor
  · rintro ⟨⟨uplink, member, rfl, connected, late, silent, above⟩, first, there, fresh, heard,
      within⟩
    obtain ⟨spoke, rfl⟩ := (idle uplink member late).mp silent
    obtain ⟨speaks, rfl⟩ := (idle first there fresh).mp heard
    have streaming : uplink.life = .streaming := by
      have flag := (tracked uplink member).looped.connected
      rw [show uplink.stats.connected = true from connected] at flag
      exact of_decide_eq_true flag.symm
    unfold silenceLimit windowNs at above within
    have three : 3 ≤ ticksSince uplink.id (events ++ [.tick]) := by omega
    refine ⟨⟨uplink, member, rfl, streaming⟩, spoke, three, first.id, ?_, speaks, by omega⟩
    exact (known first.id).mpr ⟨first, there, rfl⟩
  · rintro ⟨⟨uplink, member, rfl, streaming⟩, spoke, late, other, listed, speaks, fresh⟩
    obtain ⟨first, there, rfl⟩ := (known other).mp listed
    have flag := (tracked uplink member).looped.connected
    rw [streaming] at flag
    refine ⟨⟨uplink, member, rfl, flag, _, (idle uplink member _).mpr ⟨spoke, rfl⟩, ?_⟩,
      first, there, _, (idle first there _).mpr ⟨speaks, rfl⟩, ?_⟩
    · unfold silenceLimit windowNs
      omega
    · unfold silenceLimit windowNs
      omega

/-- Two sources speak once; then one of them speaks in every window and the other does not. -/
def lapsing (windows : Nat) : List Event :=
  [.source 0 .connected, .source 1 .connected, .source 0 .packet] ++
    (List.replicate windows [Event.source 1 .packet, .tick]).flatten

/-- The third tick takes the one that fell silent for dead. -/
theorem flagged_iff_lapsing : 0 ∈ flagged (run step (start 2) (lapsing 2)) :=
  (flagged_iff 2 (lapsing 2) (by decide) (by decide) 0).mpr
    ⟨by decide, by decide, by decide, 1, by decide, by decide, by decide⟩

/-! ### The bounces -/

/-- The next tick asks for the source's connection to be bounced. -/
def Bounces (count id : Nat) (events : List Event) : Prop :=
  id ∈ flagged (run step (start count) events) ∧
    ∃ round, ticksSince id (events ++ [.tick]) =
      silentReconnectFirst + 1 + silentReconnectEvery * round

/-- A bounce was asked for at some tick, and the connection has not been bounced since. -/
def Asked (count id : Nat) (events : List Event) : Prop :=
  ∃ first later, events = first ++ .tick :: later ∧ Bounces count id first ∧
    .source id .bounced ∉ later

theorem asked_concat {count : Nat} {event : Event} :
    Asked count id (events ++ [event]) ↔
      event = .tick ∧ Bounces count id events ∨
        Asked count id events ∧ event ≠ .source id .bounced := by
  constructor
  · rintro ⟨first, later, split, bounces, unmade⟩
    rcases List.eq_nil_or_concat' later with rfl | ⟨earlier, last, rfl⟩
    · obtain ⟨rfl, same⟩ := List.append_inj' split rfl
      obtain rfl := List.singleton_inj.mp same
      exact Or.inl ⟨rfl, bounces⟩
    · rw [← List.cons_append, ← List.append_assoc] at split
      obtain ⟨rfl, same⟩ := List.append_inj' split rfl
      obtain rfl := List.singleton_inj.mp same
      rw [List.mem_append, List.mem_singleton, not_or] at unmade
      exact Or.inr ⟨⟨first, earlier, rfl, bounces, unmade.1⟩, Ne.symm unmade.2⟩
  · rintro (⟨rfl, bounces⟩ | ⟨⟨first, later, rfl, bounces, unmade⟩, other⟩)
    · exact ⟨events, [], rfl, bounces, List.not_mem_nil⟩
    · refine ⟨first, later ++ [event], by simp, bounces, ?_⟩
      rw [List.mem_append, List.mem_singleton, not_or]
      exact ⟨unmade, Ne.symm other⟩

/-- The schedule of the bounces, in ticks since the source last spoke. -/
theorem Spoken.due_iff (spoken : Spoken events uplink.id uplink.stats)
    (heard : Heard uplink.id events) (few : events.count .tick + 1 < 2 ^ 32) :
    Uplink.due { uplink with stats := uplink.stats.rollWindow } = true ↔
      ∃ round, ticksSince uplink.id (events ++ [.tick]) =
        silentReconnectFirst + 1 + silentReconnectEvery * round := by
  have silent := spoken.tick.silent (List.mem_append_left _ heard) (by simp)
  have few' : ticksSince uplink.id (events ++ [.tick]) < 2 ^ 32 := by
    have bound := countSince_le (.source uplink.id .packet) .tick (events ++ [Event.tick])
    rw [count_concat, if_pos rfl] at bound
    exact Nat.lt_of_le_of_lt bound few
  have next : ticksSince uplink.id (events ++ [.tick]) = ticksSince uplink.id events + 1 :=
    countSince_what (by simp) events
  have windows : uplink.stats.rollWindow.silentWindows =
      ticksSince uplink.id (events ++ [.tick]) - 1 := by
    rw [silent]
    omega
  rw [Uplink.due]
  show (uplink.stats.rollWindow.silentWindows == silentReconnectFirst ||
    (decide (silentReconnectFirst < uplink.stats.rollWindow.silentWindows) &&
      (uplink.stats.rollWindow.silentWindows - silentReconnectFirst) % silentReconnectEvery == 0))
      = true ↔ _
  rw [windows]
  simp only [Bool.or_eq_true, beq_iff_eq, Bool.and_eq_true, decide_eq_true_eq]
  unfold silentReconnectFirst silentReconnectEvery
  constructor
  · intro due
    exact ⟨(ticksSince uplink.id (events ++ [.tick]) - 7) / 60, by omega⟩
  · rintro ⟨round, same⟩
    omega

/-- A connection can be bounced exactly if it is up, and a tick since the last bounce found it taken
for dead at six windows of silence, or sixty more, or sixty more than that. Ticks are taken whole,
and are fewer than 2^32. -/
theorem ready_bounced_iff (count : Nat) (events : List Event)
    (inTurn : Throughout step InTurn (start count) events)
    (few : events.count .tick + 1 < 2 ^ 32) :
    ∀ uplink ∈ run step (start count) events,
      uplink.Ready .bounced ↔ uplink.life = .streaming ∧ Asked count uplink.id events := by
  suffices asked : ∀ uplink ∈ run step (start count) events,
      uplink.reconnect = true ↔ Asked count uplink.id events by
    intro uplink member
    exact and_congr_right fun _ => asked uplink member
  induction events using List.reverseRecOn with
  | nil =>
      intro uplink member
      obtain ⟨id, -, rfl⟩ := List.mem_map.mp member
      refine iff_of_false (by simp) ?_
      rintro ⟨first, later, split, -⟩
      simp at split
  | append_singleton before event inductionHypothesis =>
      obtain ⟨earlier, last⟩ :=
        (throughout_append step InTurn (start count) before [event]).mp inTurn
      have few' : before.count .tick + 1 < 2 ^ 32 := by
        rw [count_concat] at few
        omega
      have asked := inductionHypothesis earlier few'
      have tracked := tracked_run count before earlier
      intro uplink member
      rw [run_append] at member
      rw [asked_concat]
      cases event with
      | source id move =>
          obtain ⟨old, listed, rfl⟩ := List.mem_map.mp member
          have was := asked old listed
          have kept (other : Event.source id move ≠ .source old.id .bounced)
              (same : (if old.id = id then old.move move else old).reconnect = old.reconnect) :
              (if old.id = id then old.move move else old).reconnect = true ↔
                Event.source id move = .tick ∧ Bounces count old.id before ∨
                  Asked count old.id before ∧ Event.source id move ≠ .source old.id .bounced := by
            rw [same, was]
            simp [other]
          by_cases own : old.id = id
          · subst own
            rw [if_pos rfl] at kept ⊢
            cases move with
            | bounced =>
                exact iff_of_false (by simp [Uplink.move])
                  (by simp [Uplink.move, Uplink.disconnect])
            | _ => exact kept (by simp) rfl
          · rw [if_neg own] at kept ⊢
            exact kept (fun same => own (Event.source.inj same).1.symm) rfl
      | tick =>
          obtain ⟨rolled', listed, rfl⟩ := List.mem_map.mp member
          obtain ⟨old, there, rfl⟩ := List.mem_map.mp listed
          have was := asked old there
          have due : (old.id ∈ flagged (run step (start count) before) ∧
              Uplink.due { old with stats := old.stats.rollWindow } = true) ↔
                Bounces count old.id before := by
            refine and_congr_right fun flag => ?_
            have heard := ((flagged_iff count before earlier few' old.id).mp flag).2.1
            exact (tracked old there).spoken.due_iff heard few'
          split
          · next now => exact iff_of_true rfl (Or.inl ⟨rfl, due.mp now⟩)
          · next idle =>
              have never : ¬ Bounces count old.id before := fun bounces => idle (due.mpr bounces)
              simpa [never] using was

/-- The seventh tick asks for it to be bounced. -/
theorem ready_bounced_iff_lapsing :
    ∃ uplink ∈ run step (start 2) (lapsing 7), uplink.id = 0 ∧ uplink.Ready .bounced := by
  have silent : ∃ uplink ∈ run step (start 2) (lapsing 7),
      uplink.id = 0 ∧ uplink.life = .streaming := by decide
  obtain ⟨uplink, member, own, streaming⟩ := silent
  refine ⟨uplink, member, own, ?_⟩
  apply (ready_bounced_iff 2 (lapsing 7) (by decide) (by decide) uplink member).mpr
  refine ⟨streaming, lapsing 6 ++ [.source 1 .packet], [], by decide, ?_, by simp⟩
  rw [own]
  exact ⟨by decide, 0, by decide⟩

end Fleet

end Wsarb
