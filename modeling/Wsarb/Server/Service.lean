import Wsarb.State.Waiting
import Wsarb.Upstream.Lifecycle

/-!
Owns the shared state and the upstream sources as one machine: a connection that ends, and a source
that a tick takes for dead, are given up on every key they lead. Owns what a source can still lead
by then.

The loss of a source is one step with the end of its connection, or with the tick.

Does not own: the fetches that follow a loss.
-/

namespace Wsarb

open Wsarb.Library AppState

/-- The shared state, and the sources. -/
structure Service where
  st : Live
  fleet : List Uplink

namespace Service

inductive Event
  | op (op : Op)
  | fleet (event : Fleet.Event)

def giveUp (st : Live) (source : Nat) : Live := st.step (.resyncAfterSourceLoss source)

def lost (service : Service) : Event → List Nat
  | .fleet (.source id .ended) | .fleet (.source id .bounced) => [id]
  | .fleet .tick => Fleet.flagged service.fleet
  | _ => []

def step (service : Service) : Event → Service
  | .op op => { service with st := service.st.step op }
  | .fleet event =>
      { st := (service.lost (.fleet event)).foldl giveUp service.st
        fleet := Fleet.step service.fleet event }

def start (count : Nat) : Service where
  st := AppState.new ((List.range count).map ({ id := · }))
  fleet := Fleet.start count

def Up (service : Service) (source : Nat) : Prop :=
  ∃ uplink ∈ service.fleet, uplink.id = source ∧ uplink.life = .streaming

instance (service : Service) (source : Nat) : Decidable (service.Up source) :=
  inferInstanceAs (Decidable (∃ uplink ∈ _, _ ∧ _))

/-- Frames come in from sources whose connection is up, sources are lost as `step` says only, and
the tasks take their turns. -/
def InTurn (service : Service) : Event → Prop
  | .op (.onUpdate _ message) => service.Up message.source
  | .op (.resyncAfterSourceLoss _) => False
  | .op _ => True
  | .fleet event => Fleet.InTurn service.fleet event

instance (service : Service) (event : Event) : Decidable (InTurn service event) := by
  cases event with
  | op op => cases op <;> unfold InTurn <;> infer_instance
  | fleet event => unfold InTurn; infer_instance

/-- What can make a source lead a key: a frame of it, or a snapshot fetched from it where one source
carries the key alone. -/
def Leads (key : SubKey) (source : Nat) : Event → Prop
  | .op (.onUpdate _ message) => message.key = key ∧ message.source = source
  | .op (.deliverSnapshot _ fetched) =>
      fetched.key = key ∧ fetched.source = source ∧ key.singleSourced = true
  | _ => False

end Service

namespace AppState

variable {st : Live} {key : SubKey} {op : Op} {e : SubEntry Message} {source : Nat}

/-- A key whose leader is let go with its source. -/
def Follows (key : SubKey) : Prop := key.isIncremental = true ∨ key.singleSourced = true

theorem loseSource_not_leads (follows : Follows key) :
    (e.loseSource source key).1.blockLeader ≠ some source := by
  unfold SubEntry.loseSource
  split_ifs with other whole single
  · exact other
  · exact fun same => nomatch same
  · rcases follows with incremental | alone
    · simp [incremental] at whole
    · exact absurd alone single
  · exact fun same => nomatch same

/-- A source that leads after an operation led before, and is not the one just lost; or the
operation made it. -/
theorem leads_step (follows : Follows key) (found : (st.step op).getEntry key = some e)
    (leads : e.blockLeader = some source) :
    (op ≠ .resyncAfterSourceLoss source ∧
        ∃ before, st.getEntry key = some before ∧ before.blockLeader = some source) ∨
      Service.Leads key source (.op op) := by
  have used (now : Nat) (leads : (st.entryOr now key).blockLeader = some source) :
      ∃ before, st.getEntry key = some before ∧ before.blockLeader = some source := by
    rw [entryOr] at leads
    cases there : st.getEntry key with
    | none =>
        rw [there] at leads
        cases leads
    | some before =>
        rw [there] at leads
        exact ⟨before, rfl, leads⟩
  by_cases lost : op = .resyncAfterSourceLoss source
  · subst lost
    rw [getEntry_step] at found
    obtain ⟨before, -, rfl⟩ := Option.map_eq_some_iff.mp found
    exact absurd leads (loseSource_not_leads follows)
  · cases becomes found with
    | kept before apart => exact Or.inl ⟨lost, e, before, leads⟩
    | subscribed absent =>
        rw [attach_blockLeader] at leads
        exact Or.inl ⟨lost, used _ leads⟩
    | pinned => exact Or.inl ⟨lost, used _ leads⟩
    | left before leaves stays => exact Or.inl ⟨lost, _, before, leads⟩
    | @heard now message routed =>
        have leader : ((st.entryOr now key).update key now message.source message.seq
            message).1.blockLeader =
              ((st.entryOr now key).arbitrate key now message.source
                message.seq).1.blockLeader := by
          rw [SubEntry.update_entry]
          split <;> rfl
        rw [leader, SubEntry.arbitrate_blockLeader] at leads
        split at leads
        · exact Or.inr ⟨routed, Option.some.inj leads⟩
        · exact Or.inl ⟨lost, used now leads⟩
    | @rebuilt client fetched before there routed =>
        rw [rebuild_blockLeader] at leads
        split at leads
        · next alone => exact Or.inr ⟨routed, Option.some.inj leads, alone.2⟩
        · exact Or.inl ⟨lost, before, there, leads⟩
    | gaveUp before => exact Or.inl ⟨lost, _, before, leads⟩
    | @lost other before there =>
        refine Or.inl ⟨lost, before, there, ?_⟩
        unfold SubEntry.loseSource at leads
        split_ifs at leads <;> exact leads

/-- Whoever leads after some sources are given up led before, and is none of them. -/
theorem leads_giveUp (follows : Follows key) (sources : List Nat)
    (found : (sources.foldl Service.giveUp st).getEntry key = some e)
    (leads : e.blockLeader = some source) :
    source ∉ sources ∧ ∃ before, st.getEntry key = some before ∧
      before.blockLeader = some source := by
  induction sources generalizing st with
  | nil => exact ⟨List.not_mem_nil, e, found, leads⟩
  | cons first rest inductionHypothesis =>
      obtain ⟨apart, before, there, led⟩ := inductionHypothesis found
      rcases leads_step follows there led with ⟨other, earlier⟩ | made
      · refine ⟨?_, earlier⟩
        rw [List.mem_cons, not_or]
        exact ⟨fun same => other (same ▸ rfl), apart⟩
      · exact made.elim

end AppState

namespace Service

variable {service : Service} {event : Event} {key : SubKey} {source : Nat}

/-- A connection that is up stays up until the source is lost. -/
theorem Up.step (up : service.Up source) (inTurn : service.InTurn event)
    (kept : source ∉ service.lost event) : (service.step event).Up source := by
  obtain ⟨uplink, member, rfl, streaming⟩ := up
  cases event with
  | op op => exact ⟨uplink, member, rfl, streaming⟩
  | fleet event =>
      cases event with
      | tick =>
          have rolled : { uplink with stats := uplink.stats.rollWindow } ∈
              Fleet.rolled service.fleet := List.mem_map_of_mem member
          have passed := List.mem_map_of_mem (f := fun uplink : Uplink =>
            if uplink.id ∈ Fleet.flagged service.fleet ∧ uplink.due then
              { uplink with reconnect := true } else uplink) rolled
          refine ⟨_, passed, ?_, ?_⟩
          · dsimp only
            split <;> rfl
          · dsimp only
            split <;> exact streaming
      | source id move =>
          have moved := List.mem_map_of_mem (f := fun uplink : Uplink =>
            if uplink.id = id then uplink.move move else uplink) member
          refine ⟨_, moved, ?_⟩
          by_cases own : uplink.id = id
          · subst own
            have ready := inTurn uplink member rfl
            rw [if_pos rfl]
            cases move with
            | connected => exact ⟨rfl, rfl⟩
            | packet => exact ⟨rfl, streaming⟩
            | connectFailed => cases streaming.symm.trans ready
            | woke => cases streaming.symm.trans ready
            | ended => exact absurd List.mem_cons_self kept
            | bounced => exact absurd List.mem_cons_self kept
          · rw [if_neg own]
            exact ⟨rfl, streaming⟩

/-- Where a source leads a key whose leader goes with its source, something made it lead since it
was last lost: a frame of the key that it sent, and its connection is still up; or a snapshot of
the key that was fetched from it, where one source carries the key alone. -/
theorem leads_since_lost (count : Nat) (events : List Event)
    (inTurn : Throughout step InTurn (start count) events) (key : SubKey)
    (follows : AppState.Follows key) :
    let service := run step (start count) events
    ∀ e source, service.st.getEntry key = some e → e.blockLeader = some source →
      ∃ first event later, events = first ++ event :: later ∧ Leads key source event ∧
        Throughout step (fun service event => source ∉ service.lost event)
          (run step (start count) (first ++ [event])) later ∧
        ((∃ now message, event = .op (.onUpdate now message)) → service.Up source) := by
  induction events using List.reverseRecOn with
  | nil => exact fun e source found => nomatch found
  | append_singleton before event inductionHypothesis =>
      obtain ⟨earlier, last⟩ :=
        (throughout_append step InTurn (start count) before [event]).mp inTurn
      have turn : InTurn (run step (start count) before) event := last.1
      rw [run_append]
      intro service e source found leads
      have carries (kept : source ∉ (run step (start count) before).lost event)
          (led : ∃ old, (run step (start count) before).st.getEntry key = some old ∧
            old.blockLeader = some source) :
          ∃ first cause later, before ++ [event] = first ++ cause :: later ∧
            Leads key source cause ∧
            Throughout step (fun service event => source ∉ service.lost event)
              (run step (start count) (first ++ [cause])) later ∧
            ((∃ now message, cause = .op (.onUpdate now message)) → service.Up source) := by
        obtain ⟨old, there, led⟩ := led
        obtain ⟨first, cause, later, rfl, made, since, up⟩ :=
          inductionHypothesis earlier old source there led
        refine ⟨first, cause, later ++ [event], by simp, made, ?_, fun frame => ?_⟩
        · rw [throughout_append, ← run_append]
          have same : first ++ [cause] ++ later = first ++ cause :: later := by simp
          rw [same]
          exact ⟨since, kept, trivial⟩
        · exact (up frame).step turn kept
      cases event with
      | op op =>
          rcases AppState.leads_step follows found leads with ⟨-, led⟩ | made
          · exact carries List.not_mem_nil led
          · refine ⟨before, .op op, [], rfl, made, trivial, ?_⟩
            rintro ⟨now, message, same⟩
            obtain rfl := Event.op.inj same
            obtain ⟨-, rfl⟩ := made
            exact turn
      | fleet event =>
          obtain ⟨kept, led⟩ := AppState.leads_giveUp follows _ found leads
          exact carries kept led

/-- The source that led a book is lost, and another opens it anew: that one leads, and is
connected. -/
theorem leads_since_lost_reopened :
    let events := [Event.fleet (.source 0 .connected), .fleet (.source 1 .connected),
      .op (.onUpdate 0 (.l4Snapshot 0 "BTC" 7 "first")), .fleet (.source 0 .ended),
      .op (.onUpdate 0 (.l4Snapshot 1 "BTC" 8 "second"))]
    (run step (start 2) events).Up 1 ∧ ¬ (run step (start 2) events).Up 0 := by
  intro events
  have found : ∃ e, (run step (start 2) events).st.getEntry (.l4Book "BTC") = some e ∧
      e.blockLeader = some 1 := ⟨_, rfl, rfl⟩
  obtain ⟨e, there, leads⟩ := found
  obtain ⟨first, event, later, split, made, -, up⟩ :=
    leads_since_lost 2 events (by decide) (.l4Book "BTC") (Or.inl rfl) e 1 there leads
  refine ⟨up ?_, by decide⟩
  cases event with
  | op op =>
      cases op with
      | onUpdate now message => exact ⟨now, message, rfl⟩
      | deliverSnapshot client fetched => cases made.2.2
      | _ => exact made.elim
  | fleet event => exact made.elim

end Service

end Wsarb
