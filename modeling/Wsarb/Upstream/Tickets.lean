import Wsarb.Upstream.Fetches

/-!
Owns whose wait a snapshot fetch ends. Waits of a client on a key are numbered, and so are the
fetches started for them, which the code does not do: a fetch that ends late ends whatever wait it
finds. Owns exactly when that is never a later one.

Does not own: where a fetch gets its snapshot from.
-/

namespace Wsarb

open Wsarb.Library AppState

namespace Proxy

def Call.ends : Call → Bool
  | .answered .. | .unanswered .. => true
  | _ => false

/-- A call that ends no fetch is refused, or one operation that starts a fetch for each client it
parks. -/
theorem starts (st : Live) {call : Call} (ongoing : call.ends = false) :
    step ⟨st, []⟩ call = ⟨st, []⟩ ∨
      ∃ op, st.Handed op ∧ (step ⟨st, []⟩ call).st = st.step op ∧
        ∀ key client, (key, client) ∈ (step ⟨st, []⟩ call).fetches ↔ st.Parks op key client := by
  have plain (op : Op) (handed : st.Handed op) (quiet : op.parks = false) :
      ∃ other, st.Handed other ∧ st.step op = st.step other ∧
        ∀ key client, (key, client) ∈ ([] : List Fetch) ↔ st.Parks other key client := by
    refine ⟨op, handed, rfl, fun key client => ?_⟩
    refine iff_of_false List.not_mem_nil ?_
    rintro (⟨now, rfl, -⟩ | ⟨source, rfl, -⟩) <;> cases quiet
  cases call with
  | subscribe now client key =>
      unfold step
      dsimp only
      split
      · next handed =>
          unfold handleSubscribe
          dsimp only
          split
          · exact Or.inl rfl
          · refine Or.inr ⟨.subscribe now client key.normalized, handed, rfl, fun sought who => ?_⟩
            have joined : (st.subscribe now client key.normalized).2 = .joined ↔ _ :=
              st.subscribe_joined_iff now
            constructor
            · intro listed
              split at listed
              · next starts =>
                  obtain ⟨rfl, rfl⟩ := Prod.mk.inj (List.mem_singleton.mp listed)
                  obtain ⟨absent, live⟩ := joined.mp starts.1
                  exact Or.inl ⟨now, rfl, starts.2, absent, live⟩
              · exact absurd listed List.not_mem_nil
            · rintro (⟨_, same, incremental, absent, live⟩ | ⟨_, same, -⟩)
              · cases same
                rw [if_pos ⟨joined.mpr ⟨absent, live⟩, incremental⟩]
                exact List.mem_singleton.mpr rfl
              · cases same
      · exact Or.inl rfl
  | lose source =>
      refine Or.inr ⟨.resyncAfterSourceLoss source, trivial, rfl, fun sought who => ?_⟩
      unfold step handleLoss
      dsimp only
      rw [List.append_nil]
      constructor
      · exact fun listed => Or.inr ⟨source, rfl, listed⟩
      · rintro (⟨_, same, -⟩ | ⟨_, same, listed⟩)
        · cases same
        · cases same
          exact listed
  | answered client fetched => cases ongoing
  | unanswered client key => cases ongoing
  | accept ip => exact Or.inr (plain (.registerClient ip) trivial rfl)
  | unsubscribe client key => exact Or.inr (plain (.unsubscribe client key.normalized) trivial rfl)
  | pin now key => exact Or.inr (plain (.pin now key) trivial rfl)
  | frame now message => exact Or.inr (plain (.onUpdate now message) trivial rfl)
  | disconnect client => exact Or.inr (plain (.cleanupClient client) trivial rfl)
  | receive client => exact Or.inr (plain (.receive client) trivial rfl)
  | close client => exact Or.inr (plain (.close client) trivial rfl)

end Proxy

/-! ### Numbered waits -/

/-- A fetch, with the number of the wait it was started for among those of its client on its
key. -/
structure Ticket where
  fetch : Fetch
  number : Nat
  deriving DecidableEq

/-- The shared state, how often each client has begun to wait on each key, and the fetches under
way. -/
structure Numbered where
  st : Live
  begun : Fetch → Nat
  tickets : List Ticket

namespace Numbered

/-- A call, and for one that ends a fetch the number of that fetch. -/
abbrev Call := Proxy.Call × Nat

def start (sources : List Source) : Numbered := ⟨AppState.new sources, fun _ => 0, []⟩

/-- A wait begins, and a fetch is started for it. -/
def issue (d : Numbered) (fetch : Fetch) : Numbered where
  st := d.st
  begun := Function.update d.begun fetch (d.begun fetch + 1)
  tickets := ⟨fetch, d.begun fetch + 1⟩ :: d.tickets

/-- A fetch ends, if it is under way, with what it does to the shared state. -/
def finish (d : Numbered) (ticket : Ticket) (op : Op) : Numbered :=
  if ticket ∈ d.tickets then
    { d with st := d.st.step op, tickets := d.tickets.erase ticket }
  else d

/-- One call. A call that ends no fetch is the callers', and the fetches it starts are numbered. -/
def step (d : Numbered) : Call → Numbered
  | (.answered client fetched, number) =>
      d.finish ⟨(fetched.key, client), number⟩ (.deliverSnapshot client fetched)
  | (.unanswered client key, number) =>
      d.finish ⟨(key, client), number⟩ (.failPending key client)
  | (call, _) =>
      let proxy := Proxy.step ⟨d.st, []⟩ call
      proxy.fetches.foldl issue { d with st := proxy.st }

def ended : Call → Option Ticket
  | (.answered client fetched, number) => some ⟨(fetched.key, client), number⟩
  | (.unanswered client key, number) => some ⟨(key, client), number⟩
  | _ => none

/-- No entry and no client is changed. -/
structure Discarded (st after : Live) : Prop where
  entries : ∀ key, after.getEntry key = st.getEntry key
  clients : after.heap = st.heap

/-- The call ends a fetch that is under way and was started for an earlier wait than its client's
latest on its key. -/
def Outdated (d : Numbered) (call : Call) (ticket : Ticket) : Prop :=
  ended call = some ticket ∧ ticket ∈ d.tickets ∧ ticket.number < d.begun ticket.fetch

/-- What a client waiting on a key is waiting with. -/
def waiting (st : Live) (fetch : Fetch) : Option (Pending Message) :=
  (st.getEntry fetch.1).bind fun e => e.pending.find? (·.client == fetch.2)

/-- The wait goes on as it was: the client is not attached, keeps what is held for it, and is
neither sent anything nor hung up. -/
structure GoesOn (st after : Live) (fetch : Fetch) : Prop where
  waits : waiting after fetch = waiting st fetch
  log : after.log fetch.2 = st.log fetch.2
  kill : (after.heap fetch.2).kill = (st.heap fetch.2).kill

/-- A fetch started for an earlier wait lets the current one go on. -/
def OwnOnly (d : Numbered) (call : Call) : Prop :=
  ∀ ticket, d.Outdated call ticket → (waiting d.st ticket.fetch).isSome = true →
    GoesOn d.st (d.step call).st ticket.fetch

/-- When a fetch started for an earlier wait ends, its client is not waiting on its key. -/
def Timely (d : Numbered) (call : Call) : Prop :=
  ∀ ticket, d.Outdated call ticket → waiting d.st ticket.fetch = none

/-- A fetch started for an earlier wait changes nothing when it ends. -/
def Discards (d : Numbered) (call : Call) : Prop :=
  ∀ ticket, d.Outdated call ticket → Discarded d.st (d.step call).st

variable {d : Numbered} {call : Call}

theorem parked_eq_isSome_waiting (st : Live) (key : SubKey) (client : Nat) :
    st.parked key client = (waiting st (key, client)).isSome := by
  rw [parked, waiting]
  cases st.getEntry key with
  | none => rfl
  | some e =>
      rw [Option.any_some, Option.bind_some, SubEntry.isRebuilding, Bool.eq_iff_iff,
        List.any_eq_true, List.find?_isSome]

/-! ### Whose fetch is under way -/

/-- Nobody is listed twice, and whoever waits on a key has the fetch that was started for that
very wait under way. -/
structure Attended (d : Numbered) : Prop where
  seated : d.st.Seated
  own : ∀ key client, d.st.parked key client = true →
    ⟨(key, client), d.begun (key, client)⟩ ∈ d.tickets

theorem attended_start (sources : List Source) : Attended (start sources) where
  seated := seated_new sources
  own := fun _ _ waits => absurd waits Bool.false_ne_true

@[simp] theorem issue_begun_self (fetch : Fetch) :
    (d.issue fetch).begun fetch = d.begun fetch + 1 := Function.update_self ..

/-- Starting fetches numbers each with its client's latest wait on its key. -/
theorem issued (d : Numbered) (fetches : List Fetch) :
    (fetches.foldl issue d).st = d.st ∧
      (∀ ticket ∈ d.tickets, ticket ∈ (fetches.foldl issue d).tickets) ∧
      (∀ fetch, fetch ∉ fetches → (fetches.foldl issue d).begun fetch = d.begun fetch) ∧
      ∀ fetch ∈ fetches,
        ⟨fetch, (fetches.foldl issue d).begun fetch⟩ ∈ (fetches.foldl issue d).tickets := by
  induction fetches generalizing d with
  | nil => exact ⟨rfl, fun _ => id, fun _ _ => rfl, fun _ listed => absurd listed List.not_mem_nil⟩
  | cons first rest inductionHypothesis =>
      obtain ⟨same, kept, others, own⟩ := inductionHypothesis (d.issue first)
      rw [List.foldl_cons]
      refine ⟨same, fun ticket listed => kept ticket (List.mem_cons_of_mem _ listed), ?_, ?_⟩
      · intro fetch unlisted
        obtain ⟨apart, later⟩ := not_or.mp (mt List.mem_cons.mpr unlisted)
        rw [others fetch later]
        exact Function.update_of_ne apart ..
      · intro fetch listed
        by_cases later : fetch ∈ rest
        · exact own fetch later
        · obtain rfl := (List.mem_cons.mp listed).resolve_right later
          apply kept
          rw [others fetch later, issue_begun_self]
          exact List.mem_cons_self

/-- A call that ends a fetch is its end. -/
theorem step_of_ends {ticket : Ticket} (ends : ended call = some ticket) :
    ∃ op : Op, op.parks = false ∧ d.step call = d.finish ticket op ∧
      ∀ st : Live, st.Seated → (st.step op).parked ticket.fetch.1 ticket.fetch.2 = false := by
  obtain ⟨call, number⟩ := call
  cases call with
  | answered client fetched =>
      obtain rfl := Option.some.inj ends
      exact ⟨.deliverSnapshot client fetched, rfl, rfl,
        fun st seated => seated.not_parked_deliverSnapshot client fetched⟩
  | unanswered client key =>
      obtain rfl := Option.some.inj ends
      exact ⟨.failPending key client, rfl, rfl,
        fun st seated => seated.not_parked_failPending client key⟩
  | _ => cases ends

/-- A call that ends no fetch is the callers', with the fetches it starts numbered. -/
theorem step_of_ongoing (ongoing : ended call = none) :
    call.1.ends = false ∧ d.step call =
      (Proxy.step ⟨d.st, []⟩ call.1).fetches.foldl issue
        { d with st := (Proxy.step ⟨d.st, []⟩ call.1).st } := by
  obtain ⟨call, number⟩ := call
  cases call with
  | answered client fetched => cases ongoing
  | unanswered client key => cases ongoing
  | _ => exact ⟨rfl, rfl⟩

theorem Attended.finish (attended : d.Attended) {ticket : Ticket} {op : Op}
    (quiet : op.parks = false)
    (ends : (d.st.step op).parked ticket.fetch.1 ticket.fetch.2 = false) :
    (d.finish ticket op).Attended := by
  unfold Numbered.finish
  split
  · constructor
    · apply seated_step attended.seated op
      cases op with
      | subscribe now client key => cases quiet
      | _ => trivial
    · intro key client parked
      have differs : (key, client) ≠ ticket.fetch := by
        intro same
        rw [← same] at ends
        exact Bool.false_ne_true (ends.symm.trans parked)
      rcases parked_step parked with before | ⟨now, rfl, -⟩ | ⟨source, rfl, -⟩
      · apply (List.mem_erase_of_ne _).mpr (attended.own key client before)
        rintro rfl
        exact differs rfl
      · cases quiet
      · cases quiet
  · exact attended

/-- Every call keeps everyone's own fetch under way. -/
theorem Attended.step (attended : d.Attended) (call : Call) : (d.step call).Attended := by
  cases ends : ended call with
  | some ticket =>
      obtain ⟨op, quiet, same, clears⟩ := step_of_ends (d := d) ends
      rw [same]
      exact attended.finish quiet (clears d.st attended.seated)
  | none =>
      obtain ⟨ongoing, same⟩ := step_of_ongoing (d := d) ends
      rw [same]
      obtain ⟨st, kept, others, own⟩ :=
        issued { d with st := (Proxy.step ⟨d.st, []⟩ call.1).st }
          (Proxy.step ⟨d.st, []⟩ call.1).fetches
      rcases Proxy.starts d.st ongoing with refused | ⟨op, handed, after, starts⟩
      · rw [refused]
        exact attended
      · constructor
        · rw [st, after]
          exact seated_step attended.seated op handed
        · intro key client parked
          rw [st, after] at parked
          by_cases listed : (key, client) ∈ (Proxy.step ⟨d.st, []⟩ call.1).fetches
          · exact own _ listed
          · rw [others _ listed]
            rcases parked_step parked with before | parks
            · exact kept _ (attended.own key client before)
            · exact absurd ((starts key client).mpr parks) listed

/-! ### Whose wait a fetch ends -/

/-- A snapshot for a client that is not waiting changes nothing. -/
theorem discarded_deliverSnapshot {st : Live} {client : Nat} {fetched : Fetched}
    (alone : st.parked fetched.key client = false) :
    Discarded st (st.step (.deliverSnapshot client fetched)) where
  entries := by
    intro key
    rw [getEntry_step, entryAfter]
    split
    · next same =>
        subst same
        cases found : st.getEntry fetched.key with
        | none => rfl
        | some e =>
            rw [parked, found, Option.any_some] at alone
            rw [Option.map_some, rebuild_of_absent _ _ _ _ _ _ alone]
    · rfl
  clients := by
    rw [AppState.step, deliverSnapshot, deliverSnapshotEntry]
    cases found : st.getEntry fetched.key with
    | none => rfl
    | some e =>
        rw [parked, found, Option.any_some] at alone
        dsimp only
        rw [rebuild_of_absent _ _ _ _ _ _ alone]
        rfl

/-- Giving up a client that is not waiting changes nothing. -/
theorem discarded_failPending {st : Live} {client : Nat} {key : SubKey}
    (alone : st.parked key client = false) :
    Discarded st (st.step (.failPending key client)) := by
  have same : st.step (.failPending key client) = st := by
    rw [AppState.step, failPending]
    cases found : st.getEntry key with
    | none => rfl
    | some e =>
        rw [parked, found, Option.any_some] at alone
        dsimp only
        rw [if_neg (by rw [alone]; exact Bool.false_ne_true)]
  rw [same]
  exact ⟨fun _ => rfl, rfl⟩

/-- The end of a fetch whose client is not waiting changes nothing. -/
theorem discarded_of_ends {ticket : Ticket} (ends : ended call = some ticket)
    (listed : ticket ∈ d.tickets) (alone : waiting d.st ticket.fetch = none) :
    Discarded d.st (d.step call).st := by
  have unparked : d.st.parked ticket.fetch.1 ticket.fetch.2 = false := by
    rw [parked_eq_isSome_waiting, alone]
    rfl
  obtain ⟨call, number⟩ := call
  cases call with
  | answered client fetched =>
      obtain rfl := Option.some.inj ends
      rw [step, finish, if_pos listed]
      exact discarded_deliverSnapshot unparked
  | unanswered client key =>
      obtain rfl := Option.some.inj ends
      rw [step, finish, if_pos listed]
      exact discarded_failPending unparked
  | _ => cases ends

/-- The end of a fetch whose client is waiting ends the wait, whichever it was started for. -/
theorem ends_wait (attended : d.Attended) {ticket : Ticket} (ends : ended call = some ticket)
    (listed : ticket ∈ d.tickets) : waiting (d.step call).st ticket.fetch = none := by
  obtain ⟨op, -, same, clears⟩ := step_of_ends (d := d) ends
  have unparked := clears d.st attended.seated
  rw [parked_eq_isSome_waiting, Option.isSome_eq_false_iff, Option.isNone_iff_eq_none] at unparked
  rw [same, finish, if_pos listed]
  exact unparked

/-- At one call: an earlier wait's fetch lets the current wait go on exactly when there is none. -/
theorem ownOnly_iff_timely (attended : d.Attended) : d.OwnOnly call ↔ d.Timely call := by
  constructor
  · intro own ticket outdated
    by_contra waits
    have some_ : (waiting d.st ticket.fetch).isSome = true := Option.isSome_iff_ne_none.mpr waits
    have goesOn := own ticket outdated some_
    exact waits (goesOn.waits.symm.trans (ends_wait attended outdated.1 outdated.2.1))
  · intro timely ticket outdated waits
    rw [timely ticket outdated] at waits
    cases waits

/-- From any point on, fetches end no wait begun later exactly when none of an earlier wait finds
its client waiting. -/
theorem Attended.throughout_iff (attended : d.Attended) (calls : List Call) :
    Throughout Numbered.step OwnOnly d calls ↔ Throughout Numbered.step Timely d calls := by
  induction calls generalizing d with
  | nil => exact Iff.rfl
  | cons call rest inductionHypothesis =>
      rw [throughout_cons, throughout_cons, ownOnly_iff_timely attended,
        inductionHypothesis (attended.step call)]

/-- What the fetches of earlier waits bring is discarded, where none finds its client waiting. -/
theorem throughout_discards {calls : List Call} (timely : Throughout step Timely d calls) :
    Throughout step Discards d calls := by
  induction calls generalizing d with
  | nil => trivial
  | cons call rest inductionHypothesis =>
      refine ⟨fun ticket outdated => ?_, inductionHypothesis timely.2⟩
      exact discarded_of_ends outdated.1 outdated.2.1 (timely.1 ticket outdated)

/-- In every run: no fetch ever ends a wait begun after the one it was started for if and only if,
whenever such a fetch ends, its client is not waiting on its key; what it then brings is discarded.
And whoever waits has the fetch started for that wait under way. -/
theorem own_only_iff_timely (sources : List Source) (calls : List Call) :
    (Throughout step OwnOnly (start sources) calls ↔
        Throughout step Timely (start sources) calls) ∧
      (Throughout step Timely (start sources) calls →
        Throughout step Discards (start sources) calls) ∧
      ∀ key client, (run step (start sources) calls).st.parked key client = true →
        ⟨(key, client), (run step (start sources) calls).begun (key, client)⟩ ∈
          (run step (start sources) calls).tickets := by
  have attended : (run step (start sources) calls).Attended :=
    Reachable.invariant ⟨calls, rfl⟩ (attended_start sources)
      fun _ call attended => attended.step call
  exact ⟨(attended_start sources).throughout_iff calls, throughout_discards, attended.own⟩

/-- Client 2 waits on a book, leaves it and waits again, while its first fetch is under way. -/
def waitsAgain : List Call :=
  [(.accept "a", 0), (.accept "b", 0), (.subscribe 0 1 (.l4Book "BTC"), 0),
    (.subscribe 1 2 (.l4Book "BTC"), 0), (.unsubscribe 2 (.l4Book "BTC"), 0),
    (.subscribe 2 2 (.l4Book "BTC"), 0)]

/-- The snapshot the first fetch brings, taken at height 5. -/
def late : Fetched := ⟨0, .l4Book "BTC", 5, "snapshot 5", rfl⟩

/-- The first fetch ends, and attaches the client that has begun to wait again since. -/
theorem not_own_only :
    ¬ ∀ (sources : List Source) (calls : List Call),
      Throughout step OwnOnly (start sources) calls := by
  intro always
  have own := always [{ id := 0 }] (waitsAgain ++ [(.answered 2 late, 1)])
  rw [throughout_append] at own
  have goesOn := own.2.1 ⟨(.l4Book "BTC", 2), 1⟩ ⟨rfl, by decide, by decide⟩ (by decide)
  exact absurd (congrArg Option.isSome goesOn.waits) (by decide)

end Numbered

end Wsarb
