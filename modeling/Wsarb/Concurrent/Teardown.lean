import Wsarb.State.Accord

/-!
Owns one client's last subscription against its own cleanup: `subscribe` writes the client's set,
visits the entry, then broadcasts; `cleanup_client` takes the client off the registry, drains its
set, then detaches from each key drained, and the steps of the two fall in any order. Owns exactly
when the client leaves nothing behind.

Does not own: calls of other clients in between.
-/

namespace Wsarb

open Wsarb.Library AppState

/-- What is left of the subscription. -/
inductive Joining
  | calling
  /-- The own set is written, the entry not yet visited. -/
  | entering
  /-- `Subscribe` is due. -/
  | announcing
  | done
  deriving DecidableEq

/-- What is left of the cleanup. -/
inductive Hangup
  | calling
  /-- The client is off the registry, its set not yet drained. -/
  | draining
  /-- These keys are still to be detached from. -/
  | detaching (keys : List SubKey)
  /-- `Unsubscribe` is due. -/
  | withdrawing (dropped : SubKey) (rest : List SubKey)
  /-- The removal of the entry is due. -/
  | removing (dropped : SubKey) (rest : List SubKey)
  deriving DecidableEq

/-- The shared state with the client's two calls. -/
structure Teardown where
  st : Live
  joining : Joining
  hangup : Hangup

inductive Teardown.Turn
  | joins (now : Nat)
  | hangs

namespace Teardown

def start (st : Live) : Teardown := ⟨st, .calling, .calling⟩

/-- Neither call has begun, some operations after start-up. -/
def startAfter (ids : List Nat) (ops : List Op) : Teardown :=
  start (run AppState.step (AppState.new (ids.map ({ id := · }))) ops)

section Machine

variable (client : Nat) (key : SubKey) (d : Teardown)

def joins (now : Nat) : Teardown :=
  match d.joining with
  | .calling =>
      if key ∈ d.st.subscriptions client then { d with joining := .done }
      else { d with st := d.st.insertSubscription client key, joining := .entering }
  | .entering =>
      let (st, needUpstream) := d.st.subscribeEntry now client key
      { d with st := st, joining := if needUpstream then .announcing else .done }
  | .announcing => { d with st := d.st.broadcastCtrl (.subscribe key), joining := .done }
  | .done => d

def hangs : Teardown :=
  match d.hangup with
  | .calling =>
      { d with
        st := { d.st with clients := d.st.clients.filter (· ≠ client) }
        hangup := .draining }
  | .draining =>
      { d with
        st := d.st.modifyClient client fun c => { c with subscriptions := [] }
        hangup := .detaching (d.st.subscriptions client) }
  | .detaching [] => d
  | .detaching (left :: rest) =>
      let (st, dropUpstream) := d.st.detachEntry client left
      { d with
        st := st
        hangup := if dropUpstream then .withdrawing left rest else .detaching rest }
  | .withdrawing dropped rest =>
      { d with st := d.st.broadcastCtrl (.unsubscribe dropped), hangup := .removing dropped rest }
  | .removing dropped rest => { d with st := d.st.removeEntry dropped, hangup := .detaching rest }

def step (d : Teardown) : Turn → Teardown
  | .joins now => d.joins client key now
  | .hangs => d.hangs client

def Finished : Prop := d.joining = .done ∧ d.hangup = .detaching []

/-- The cleanup is still to detach the client from the key, or to remove the key's entry. -/
def Due (asked : SubKey) : Prop :=
  match d.hangup with
  | .calling | .draining => asked ∈ d.st.subscriptions client
  | .detaching keys => asked ∈ keys
  | .withdrawing dropped rest | .removing dropped rest => asked = dropped ∨ asked ∈ rest

/-- The subscription visits the key's entry only while the cleanup is still to deal with it. -/
def Timely : Turn → Prop
  | .joins _ => d.joining = .entering → d.Due client key
  | .hangs => True

end Machine

/-- The key is held upstream for a reason other than the client: it is pinned, or another client
on the registry holds it. -/
def ForOthers (st : Live) (client : Nat) (key : SubKey) : Prop :=
  st.Pinned key ∨ ∃ other ∈ st.clients, other ≠ client ∧ key ∈ st.subscriptions other

/-- The client is on no entry, and no key is held upstream on its account alone. -/
def Gone (st : Live) (client : Nat) : Prop :=
  (∀ asked e, st.getEntry asked = some e →
    client ∉ e.subscribers ∧ ∀ p ∈ e.pending, p.client ≠ client) ∧
  ∀ asked, st.Upstream asked → ForOthers st client asked

variable {client : Nat} {key : SubKey} {d : Teardown}

theorem not_stands_iff (e : SubEntry Message) :
    ¬ e.Stands client ↔ client ∉ e.subscribers ∧ ∀ p ∈ e.pending, p.client ≠ client := by
  rw [SubEntry.Stands, SubEntry.isRebuilding_iff_mem]
  simp only [not_or, not_exists, not_and]

/-! ### Calls nothing interrupts -/

/-- A `subscribe` that nothing interrupts is the operation as one step. -/
theorem run_joins (now : Nat) (calling : d.joining = .calling) :
    (run (step client key) d [.joins now, .joins now, .joins now]).st =
      (d.st.subscribe now client key).1 := by
  show (((d.joins client key now).joins client key now).joins client key now).st = _
  by_cases held : key ∈ d.st.subscriptions client
  · simp [joins, calling, held, AppState.subscribe]
  · cases need : ((d.st.insertSubscription client key).subscribeEntry now client key).2 <;>
      simp [joins, calling, held, need, AppState.subscribe]

/-- A detaching loop that nothing interrupts is `detach` for each key in turn. -/
theorem run_detaching (client : Nat) (key : SubKey) (keys : List SubKey) (d : Teardown)
    (detaching : d.hangup = .detaching keys) :
    ∃ turns, (run (step client key) d (List.replicate turns .hangs)).st =
      keys.foldl (fun st left => st.detach client left) d.st := by
  induction keys generalizing d with
  | nil => exact ⟨0, rfl⟩
  | cons left rest inductionHypothesis =>
      cases drop : (d.st.detachEntry client left).2 with
      | false =>
          obtain ⟨turns, st⟩ := inductionHypothesis (d.hangs client)
            (by simp [hangs, detaching, drop])
          refine ⟨turns + 1, ?_⟩
          rw [List.replicate_succ, run_cons]
          apply st.trans
          simp [hangs, detaching, drop, AppState.detach]
      | true =>
          obtain ⟨turns, st⟩ := inductionHypothesis (((d.hangs client).hangs client).hangs client)
            (by simp [hangs, detaching, drop])
          refine ⟨turns + 3, ?_⟩
          rw [List.replicate_succ, List.replicate_succ, List.replicate_succ, run_cons, run_cons,
            run_cons]
          apply st.trans
          simp [hangs, detaching, drop, AppState.detach]

/-- A `cleanup_client` that nothing interrupts is the operation as one step. -/
theorem run_hangs (calling : d.hangup = .calling) :
    ∃ turns, (run (step client key) d (List.replicate turns .hangs)).st =
      d.st.cleanupClient client := by
  have drained : (d.hangs client).hangs client =
      ⟨{ d.st with clients := d.st.clients.filter (· ≠ client) }.modifyClient client
        fun c => { c with subscriptions := [] }, d.joining,
        .detaching (d.st.subscriptions client)⟩ := by
    simp only [hangs, calling]
    rfl
  obtain ⟨turns, st⟩ := run_detaching client key (d.st.subscriptions client)
    ((d.hangs client).hangs client) (by rw [drained])
  refine ⟨turns + 2, ?_⟩
  rw [List.replicate_succ, List.replicate_succ, run_cons, run_cons]
  apply st.trans
  rw [drained]
  rfl

/-! ### What the steps keep -/

/-- While the cleanup deals with the keys in turn: the client stands only where it is still to be
detached, the others are on the registry and hold what they stand on, and a live key is held for
others or still to be dealt with. -/
structure Settling (client : Nat) (key : SubKey) (d : Teardown) : Prop where
  stands : ∀ asked e, d.st.getEntry asked = some e → e.Stands client → d.Due client asked
  others : ∀ asked e, d.st.getEntry asked = some e → ∀ other, other ≠ client → e.Stands other →
    other ∈ d.st.clients ∧ asked ∈ d.st.subscriptions other
  wanted : ∀ asked, d.st.Upstream asked → ForOthers d.st client asked ∨ d.Due client asked
  entering : d.joining = .entering → d.hangup = .calling ∨ d.hangup = .draining →
    key ∈ d.st.subscriptions client

theorem settling_start {st : Live} (registered : st.Registered) :
    Settling client key (start st) where
  stands := fun asked e found stands => registered.seated.held asked e found client stands
  others := by
    intro asked e found other _ stands
    have holds := registered.seated.held asked e found other stands
    exact ⟨registered.enrolled.connected other asked holds, holds⟩
  wanted := by
    intro asked live
    rcases registered.wanted asked live with pinned | ⟨other, member, holds⟩
    · exact Or.inl (Or.inl pinned)
    · by_cases own : other = client
      · exact Or.inr (own ▸ holds)
      · exact Or.inl (Or.inr ⟨other, member, own, holds⟩)
  entering := fun entering => by cases entering

/-- When both calls are through, nothing of the client is left. -/
theorem Settling.gone (settling : Settling client key d) (finished : d.Finished) :
    Gone d.st client := by
  have nothing : ∀ asked, ¬ d.Due client asked := by
    intro asked due
    rw [Due, finished.2] at due
    exact absurd due List.not_mem_nil
  constructor
  · intro asked e found
    exact (not_stands_iff e).mp fun stands => nothing asked (settling.stands asked e found stands)
  · exact fun asked live => (settling.wanted asked live).resolve_right (nothing asked)

/-- What is held for others stays so where it stays pinned and the others stay and keep their
sets. -/
theorem ForOthers.persists {st after : Live} {asked : SubKey} (held : ForOthers st client asked)
    (pinned : st.Pinned asked → after.Pinned asked)
    (registry : ∀ other, other ≠ client → other ∈ st.clients → other ∈ after.clients)
    (sets : ∀ other, other ≠ client → after.subscriptions other = st.subscriptions other) :
    ForOthers after client asked := by
  rcases held with held | ⟨other, member, differs, holds⟩
  · exact Or.inl (pinned held)
  · exact Or.inr ⟨other, registry other differs member, differs, (sets other differs).symm ▸ holds⟩

/-- A step that leaves the entries and the other clients alone, and nothing less to deal with. -/
theorem Settling.frame (settling : Settling client key d) {after : Teardown}
    (entries : ∀ asked, after.st.getEntry asked = d.st.getEntry asked)
    (registry : ∀ other, other ≠ client → other ∈ d.st.clients → other ∈ after.st.clients)
    (sets : ∀ other, other ≠ client → after.st.subscriptions other = d.st.subscriptions other)
    (due : ∀ asked, d.Due client asked → after.Due client asked)
    (entering : after.joining = .entering → after.hangup = .calling ∨ after.hangup = .draining →
      key ∈ after.st.subscriptions client) : Settling client key after where
  stands := by
    intro asked e found stands
    rw [entries] at found
    exact due asked (settling.stands asked e found stands)
  others := by
    intro asked e found other differs stands
    rw [entries] at found
    obtain ⟨member, holds⟩ := settling.others asked e found other differs stands
    rw [sets other differs]
    exact ⟨registry other differs member, holds⟩
  wanted := by
    intro asked live
    rw [upstream_congr (entries asked)] at live
    refine (settling.wanted asked live).imp (fun held => ?_) (due asked)
    refine held.persists ?_ registry sets
    rintro ⟨e, found, pinned⟩
    exact ⟨e, (entries asked).trans found, pinned⟩
  entering := entering

/-- The other clients' sets do not change when the client's own does. -/
theorem subscriptions_modifyClient (st : Live) (f : Client Message → Client Message) {other : Nat}
    (differs : other ≠ client) :
    (st.modifyClient client f).subscriptions other = st.subscriptions other := by
  rw [subscriptions, heap_modifyClient, if_neg differs, subscriptions]

/-- The subscription enters its key's entry while the cleanup is still to deal with the key. -/
theorem Settling.enter (settling : Settling client key d) (entering : d.joining = .entering)
    (due : d.Due client key) (now : Nat) : Settling client key (d.joins client key now) := by
  have entries := fun asked => d.st.getEntry_subscribeEntry now client key asked
  have live := fun asked => d.st.upstream_subscribeEntry now client key asked
  have used (other : Nat) (stands : (d.st.entryOr now key).Stands other) :
      ∃ e, d.st.getEntry key = some e ∧ e.Stands other := by
    cases found : d.st.getEntry key with
    | none =>
        rw [entryOr_of_none found] at stands
        exact absurd stands ((SubEntry.deserted_new now).nobody other)
    | some e =>
        rw [entryOr_of_some found] at stands
        exact ⟨e, rfl, stands⟩
  have goes : d.joins client key now =
      ⟨(d.st.subscribeEntry now client key).1,
        if (d.st.subscribeEntry now client key).2 then .announcing else .done, d.hangup⟩ := by
    rw [joins, entering]
  rw [goes]
  refine ⟨?_, ?_, ?_, ?_⟩
  · intro asked e found stands
    rw [entries] at found
    split at found
    · next same => exact same ▸ due
    · exact settling.stands asked e found stands
  · intro asked e found other differs stands
    rw [entries] at found
    split at found
    · next same =>
        obtain rfl := Option.some.inj found
        obtain ⟨before, there, stood⟩ :=
          used other (((SubEntry.stands_attach _ _ _ _).mp stands).resolve_right differs)
        exact same ▸ settling.others key before there other differs stood
    · exact settling.others asked e found other differs stands
  · intro asked alive
    by_cases same : asked = key
    · exact Or.inr (same ▸ due)
    · have was := ((live asked).mp alive).resolve_left same
      refine (settling.wanted asked was).imp_left fun held => ?_
      apply held.persists
      · rintro ⟨e, found, pinned⟩
        exact ⟨e, ((entries asked).trans (if_neg same)).trans found, pinned⟩
      · exact fun _ _ member => member
      · exact fun _ _ => rfl
  · intro still
    dsimp only at still
    split at still <;> cases still

/-- A step of the subscription that finds the key still to be dealt with. -/
theorem Settling.joins (settling : Settling client key d) (now : Nat)
    (timely : d.Timely client key (.joins now)) : Settling client key (d.joins client key now) := by
  cases phase : d.joining with
  | calling =>
      rw [Teardown.joins, phase]
      by_cases held : key ∈ d.st.subscriptions client
      · dsimp only
        rw [if_pos held]
        exact settling.frame (fun _ => rfl) (fun _ _ => id) (fun _ _ => rfl) (fun _ => id)
          fun entering => by cases entering
      · dsimp only
        rw [if_neg held]
        have own : (d.st.insertSubscription client key).subscriptions client =
            key :: d.st.subscriptions client := by
          rw [subscriptions, insertSubscription, heap_modifyClient, if_pos rfl]
          rfl
        refine settling.frame (fun _ => rfl) (fun _ _ => id) ?_ ?_ ?_
        · intro other differs
          show (d.st.insertSubscription client key).subscriptions other = _
          rw [insertSubscription, subscriptions_modifyClient _ _ differs]
        · intro asked due
          unfold Due at due ⊢
          cases hangup : d.hangup with
          | calling | draining =>
              simp only [hangup] at due ⊢
              rw [own]
              exact List.mem_cons_of_mem _ due
          | detaching _ | withdrawing _ _ | removing _ _ =>
              simp only [hangup] at due ⊢
              exact due
        · intro _ _
          show key ∈ (d.st.insertSubscription client key).subscriptions client
          rw [own]
          exact List.mem_cons_self
  | entering => exact settling.enter phase (timely phase) now
  | announcing =>
      rw [Teardown.joins, phase]
      exact settling.frame (fun _ => rfl) (fun _ _ => id) (fun _ _ => rfl) (fun _ => id)
        fun entering => by cases entering
  | done =>
      rw [Teardown.joins, phase]
      exact settling

/-- What is due once the cleanup has visited an entry: the removal if it was decided, and the
rest. -/
theorem due_visited (st : Live) (joining : Joining) (left asked : SubKey) (rest : List SubKey)
    (drop : Bool) :
    (Teardown.mk st joining (if drop then .withdrawing left rest else .detaching rest)).Due
      client asked ↔ (drop = true ∧ asked = left) ∨ asked ∈ rest := by
  cases drop <;> simp [Due]

/-- The critical section of `detach` keeps every client's set. -/
theorem subscriptions_detachEntry (st : Live) (client : Nat) (left : SubKey) (other : Nat) :
    (st.detachEntry client left).1.subscriptions other = st.subscriptions other := by
  rw [subscriptions, heap_detachEntry, subscriptions]

/-- An entry after it was there before, with nobody new on it, and without the client if it is the
one that was visited. -/
theorem entry_detachEntry (st : Live) {left asked : SubKey} {e : SubEntry Message}
    (found : (st.detachEntry client left).1.getEntry asked = some e) :
    ∃ before, st.getEntry asked = some before ∧
      (∀ other, e.Stands other → before.Stands other) ∧ (asked = left → ¬ e.Stands client) ∧
        e.pinned = before.pinned := by
  rw [st.getEntry_detachEntry client left asked] at found
  split at found
  · next same =>
      obtain ⟨before, there, rfl⟩ := Option.map_eq_some_iff.mp found
      refine ⟨before, same ▸ there, ?_, ?_, ?_⟩
      · exact fun other stands => ((SubEntry.stands_leave before client other).mp stands).1
      · exact fun _ stands => ((SubEntry.stands_leave before client client).mp stands).2 rfl
      · unfold AppState.leave
        split <;> rfl
  · next apart => exact ⟨e, found, fun _ => id, fun same => absurd same apart, rfl⟩

/-- What is held for others is held after it, where the entry is still there. -/
theorem ForOthers.detachEntry {st : Live} {left asked : SubKey} {e : SubEntry Message}
    (held : ForOthers st client asked)
    (found : (st.detachEntry client left).1.getEntry asked = some e) :
    ForOthers (st.detachEntry client left).1 client asked := by
  obtain ⟨before, there, -, -, same⟩ := entry_detachEntry st found
  apply held.persists
  · rintro ⟨pin, there', pinned⟩
    rw [Option.some.inj (there'.symm.trans there)] at pinned
    exact ⟨e, found, same.trans pinned⟩
  · exact fun other _ member => (clients_detachEntry client left).symm ▸ member
  · exact fun other _ => subscriptions_detachEntry st client left other

/-- An entry that stays when the client leaves it, and stays upstream, is held for others. -/
theorem Settling.held_left (settling : Settling client key d) {left : SubKey}
    (stays : (d.st.detachEntry client left).2 = false) (live : d.st.Upstream left) :
    ForOthers d.st client left := by
  obtain ⟨e, found, upstream⟩ := live
  rw [drop_detachEntry found] at stays
  rcases stays_for stays upstream with pinned | ⟨other, differs, stands⟩
  · exact Or.inl ⟨e, found, pinned⟩
  · obtain ⟨member, holds⟩ := settling.others left e found other differs stands
    exact Or.inr ⟨other, member, differs, holds⟩

/-- The critical section of `detach`. -/
theorem Settling.leave (settling : Settling client key d) {left : SubKey} {rest : List SubKey}
    (detaching : d.hangup = .detaching (left :: rest)) : Settling client key (d.hangs client) := by
  have goes : d.hangs client =
      ⟨(d.st.detachEntry client left).1, d.joining,
        if (d.st.detachEntry client left).2 then .withdrawing left rest else .detaching rest⟩ := by
    rw [hangs, detaching]
  have due (asked : SubKey) : d.Due client asked ↔ asked = left ∨ asked ∈ rest := by
    rw [Due, detaching]
    exact List.mem_cons
  rw [goes]
  refine ⟨?_, ?_, ?_, ?_⟩
  · intro asked e found stands
    obtain ⟨before, there, stood, taken, -⟩ := entry_detachEntry d.st found
    rw [due_visited]
    rcases (due asked).mp (settling.stands asked before there (stood client stands)) with
      same | later
    · exact absurd stands (taken same)
    · exact Or.inr later
  · intro asked e found other differs stands
    obtain ⟨before, there, stood, -, -⟩ := entry_detachEntry d.st found
    rw [clients_detachEntry, subscriptions_detachEntry]
    exact settling.others asked before there other differs (stood other stands)
  · intro asked alive
    rw [due_visited]
    obtain ⟨live, stays⟩ := (d.st.upstream_detachEntry client left asked).mp alive
    obtain ⟨after, foundAfter, -⟩ := alive
    rcases settling.wanted asked live with held | remains
    · exact Or.inl (held.detachEntry foundAfter)
    · rcases (due asked).mp remains with rfl | later
      · have kept : (d.st.detachEntry client asked).2 = false := by simpa using stays
        exact Or.inl ((settling.held_left kept live).detachEntry foundAfter)
      · exact Or.inr (Or.inr later)
  · intro _ early
    cases drop : (d.st.detachEntry client left).2 <;> simp [drop] at early

/-- The removal of an entry, with whoever stands on it. -/
theorem Settling.remove (settling : Settling client key d) {dropped : SubKey} {rest : List SubKey}
    (removing : d.hangup = .removing dropped rest) : Settling client key (d.hangs client) := by
  have goes : d.hangs client = ⟨d.st.removeEntry dropped, d.joining, .detaching rest⟩ := by
    rw [hangs, removing]
  have entries := fun asked => d.st.getEntry_removeEntry dropped asked
  have due (asked : SubKey) : d.Due client asked ↔ asked = dropped ∨ asked ∈ rest := by
    rw [Due, removing]
  have remains (asked : SubKey) (e : SubEntry Message) :
      (d.st.removeEntry dropped).getEntry asked = some e →
        asked ≠ dropped ∧ d.st.getEntry asked = some e := by
    intro found
    rw [entries] at found
    split at found
    · cases found
    · next apart => exact ⟨apart, found⟩
  rw [goes]
  refine ⟨?_, ?_, ?_, ?_⟩
  · intro asked e found stands
    obtain ⟨apart, there⟩ := remains asked e found
    exact ((due asked).mp (settling.stands asked e there stands)).resolve_left apart
  · intro asked e found
    exact settling.others asked e (remains asked e found).2
  · rintro asked ⟨e, found, upstream⟩
    obtain ⟨apart, there⟩ := remains asked e found
    rcases settling.wanted asked ⟨e, there, upstream⟩ with held | later
    · left
      apply held.persists
      · rintro ⟨pin, there', pinned⟩
        exact ⟨pin, ((entries asked).trans (if_neg apart)).trans there', pinned⟩
      · exact fun _ _ member => member
      · exact fun _ _ => rfl
    · exact Or.inr (((due asked).mp later).resolve_left apart)
  · rintro _ (early | early) <;> cases early

/-- Every step of the cleanup. -/
theorem Settling.hangs (settling : Settling client key d) :
    Settling client key (d.hangs client) := by
  cases phase : d.hangup with
  | calling =>
      rw [Teardown.hangs, phase]
      refine settling.frame (fun _ => rfl) ?_ (fun _ _ => rfl) ?_ ?_
      · intro other differs member
        exact List.mem_filter.mpr ⟨member, by simpa using differs⟩
      · intro asked due
        rw [Due, phase] at due
        exact due
      · exact fun entering _ => settling.entering entering (Or.inl phase)
  | draining =>
      rw [Teardown.hangs, phase]
      refine settling.frame (fun _ => rfl) (fun _ _ => id) ?_ ?_ ?_
      · intro other differs
        dsimp only
        exact subscriptions_modifyClient d.st _ differs
      · intro asked due
        rw [Due, phase] at due
        exact due
      · rintro _ (early | early) <;> cases early
  | detaching keys =>
      cases keys with
      | nil =>
          rw [Teardown.hangs, phase]
          exact settling
      | cons left rest => exact settling.leave phase
  | withdrawing dropped rest =>
      rw [Teardown.hangs, phase]
      refine settling.frame (fun _ => rfl) (fun _ _ => id) (fun _ _ => rfl) ?_ ?_
      · intro asked due
        rw [Due, phase] at due
        exact due
      · rintro _ (early | early) <;> cases early
  | removing dropped rest => exact settling.remove phase

theorem Settling.step (settling : Settling client key d) {turn : Turn}
    (timely : d.Timely client key turn) : Settling client key (d.step client key turn) := by
  cases turn with
  | joins now => exact settling.joins now timely
  | hangs => exact settling.hangs

/-! ### Left behind -/

/-- The client stands on the key's entry, and the cleanup is past it. -/
structure Stranded (client : Nat) (key : SubKey) (d : Teardown) : Prop where
  stands : ∃ e, d.st.getEntry key = some e ∧ e.Stands client
  drained : d.hangup ≠ .calling ∧ d.hangup ≠ .draining
  passed : ¬ d.Due client key

/-- The subscription that visits an entry the cleanup is past strands the client there. -/
theorem Settling.stranded (settling : Settling client key d) {turn : Turn}
    (late : ¬ d.Timely client key turn) : Stranded client key (d.step client key turn) := by
  cases turn with
  | hangs => exact absurd trivial late
  | joins now =>
      obtain ⟨entering, passed⟩ := Classical.not_imp.mp late
      have drained : d.hangup ≠ .calling ∧ d.hangup ≠ .draining := by
        constructor
        · intro early
          have holds := settling.entering entering (Or.inl early)
          rw [Due, early] at passed
          exact passed holds
        · intro early
          have holds := settling.entering entering (Or.inr early)
          rw [Due, early] at passed
          exact passed holds
      have goes : d.step client key (.joins now) =
          ⟨(d.st.subscribeEntry now client key).1,
            if (d.st.subscribeEntry now client key).2 then .announcing else .done, d.hangup⟩ := by
        rw [Teardown.step, Teardown.joins, entering]
      rw [goes]
      refine ⟨⟨_, (d.st.getEntry_subscribeEntry now client key key).trans (if_pos rfl), ?_⟩,
        drained, passed⟩
      exact (SubEntry.stands_attach _ _ _ _).mpr (Or.inr rfl)

/-- A client that was left behind stays where it stands. -/
theorem Stranded.step (stranded : Stranded client key d) (turn : Turn) :
    Stranded client key (d.step client key turn) := by
  obtain ⟨⟨e, found, stands⟩, ⟨called, drained⟩, passed⟩ := stranded
  -- The set of the client is drained: what is due is read off the phase alone.
  have same {after : Teardown} (phase : after.hangup = d.hangup) : ¬ after.Due client key := by
    rw [Due] at passed ⊢
    rw [phase]
    cases hangup : d.hangup <;> simp_all
  cases turn with
  | joins now =>
      rw [Teardown.step]
      cases joining : d.joining with
      | calling =>
          rw [Teardown.joins, joining]
          dsimp only
          split
          · exact ⟨⟨e, found, stands⟩, ⟨called, drained⟩, same rfl⟩
          · exact ⟨⟨e, found, stands⟩, ⟨called, drained⟩, same rfl⟩
      | entering =>
          rw [Teardown.joins, joining]
          refine ⟨⟨_, (d.st.getEntry_subscribeEntry now client key key).trans (if_pos rfl), ?_⟩,
            ⟨called, drained⟩, same rfl⟩
          exact (SubEntry.stands_attach _ _ _ _).mpr (Or.inr rfl)
      | announcing =>
          rw [Teardown.joins, joining]
          exact ⟨⟨e, found, stands⟩, ⟨called, drained⟩, same rfl⟩
      | done =>
          rw [Teardown.joins, joining]
          exact ⟨⟨e, found, stands⟩, ⟨called, drained⟩, passed⟩
  | hangs =>
      rw [Teardown.step]
      cases hangup : d.hangup with
      | calling => exact absurd hangup called
      | draining => exact absurd hangup drained
      | detaching keys =>
          cases keys with
          | nil =>
              rw [Teardown.hangs, hangup]
              exact ⟨⟨e, found, stands⟩, ⟨called, drained⟩, passed⟩
          | cons left rest =>
              rw [Due, hangup] at passed
              obtain ⟨other, later⟩ := not_or.mp (mt List.mem_cons.mpr passed)
              have untouched := (d.st.getEntry_detachEntry client left key).trans (if_neg other)
              rw [Teardown.hangs, hangup]
              refine ⟨⟨e, untouched.trans found, stands⟩, ?_, ?_⟩
              · dsimp only
                cases (d.st.detachEntry client left).2 <;> simp
              · rw [due_visited]
                exact not_or.mpr ⟨fun both => other both.2, later⟩
      | withdrawing dropped rest =>
          rw [Due, hangup] at passed
          rw [Teardown.hangs, hangup]
          exact ⟨⟨e, found, stands⟩, ⟨by simp, by simp⟩, passed⟩
      | removing dropped rest =>
          rw [Due, hangup] at passed
          obtain ⟨other, later⟩ := not_or.mp passed
          have untouched := (d.st.getEntry_removeEntry dropped key).trans (if_neg other)
          rw [Teardown.hangs, hangup]
          exact ⟨⟨e, untouched.trans found, stands⟩, ⟨by simp, by simp⟩, later⟩

theorem Stranded.run (stranded : Stranded client key d) (turns : List Turn) :
    Stranded client key (Library.run (Teardown.step client key) d turns) := by
  induction turns generalizing d with
  | nil => exact stranded
  | cons turn rest inductionHypothesis => exact inductionHypothesis (stranded.step turn)

theorem Stranded.not_gone (stranded : Stranded client key d) : ¬ Gone d.st client := by
  intro gone
  obtain ⟨e, found, stands⟩ := stranded.stands
  exact (not_stands_iff e).mpr (gone.1 key e found) stands

/-! ### Runs -/

/-- From any point on, nothing of the client is left in the end exactly when the subscription
visits its entry in time. -/
theorem Settling.gone_iff (settling : Settling client key d) (turns : List Turn)
    (finished : (Library.run (Teardown.step client key) d turns).Finished) :
    Gone (Library.run (Teardown.step client key) d turns).st client ↔
      Throughout (Teardown.step client key) (Timely client key) d turns := by
  induction turns generalizing d with
  | nil => exact iff_of_true (settling.gone finished) trivial
  | cons turn rest inductionHypothesis =>
      rw [throughout_cons]
      by_cases timely : d.Timely client key turn
      · rw [and_iff_right timely]
        exact inductionHypothesis (settling.step timely) finished
      · have stranded := (settling.stranded timely).run rest
        exact iff_of_false stranded.not_gone fun both => timely both.1

/-- From any state the operations can reach, whatever the order of the steps of a client's last
subscription and its cleanup: once both are through, nothing of it is left if and only if the
subscription visits the key's entry before the cleanup is past it. -/
theorem gone_iff_timely (ids : List Nat) (ops : List Op)
    (connected : Throughout AppState.step Connected (AppState.new (ids.map ({ id := · }))) ops)
    (client : Nat) (key : SubKey) (turns : List Turn)
    (finished : (run (step client key) (startAfter ids ops) turns).Finished) :
    Gone (run (step client key) (startAfter ids ops) turns).st client ↔
      Throughout (step client key) (Timely client key) (startAfter ids ops) turns := by
  have registered := registered_of_connected ids ops connected
  exact (settling_start registered).gone_iff turns finished

/-- The subscription writes to the set before it is drained and visits the entry after, while the
cleanup has the key still before it. -/
theorem gone_iff_timely_overlapping :
    Gone (run (step 1 (.trades "BTC")) (startAfter [0] [.registerClient "a"])
      [.hangs, .joins 0, .hangs, .joins 0, .hangs, .joins 0, .hangs, .hangs]).st 1 := by
  refine (gone_iff_timely [0] [.registerClient "a"] (by decide) 1 (.trades "BTC") _
    ⟨by decide, by decide⟩).mpr ?_
  have due : (run (step 1 (.trades "BTC")) (startAfter [0] [.registerClient "a"])
      [.hangs, .joins 0, .hangs]).Due 1 (.trades "BTC") := by
    show SubKey.trades "BTC" ∈ [SubKey.trades "BTC"]
    exact List.mem_cons_self
  exact ⟨trivial, fun entering => absurd entering (by decide), trivial, fun _ => due, trivial,
    fun entering => absurd entering (by decide), trivial, trivial, trivial⟩

/-- The set is drained before the subscription writes to it: the client stays on the entry, which
is held upstream for it. -/
theorem not_gone :
    ¬ ∀ (ids : List Nat) (ops : List Op),
      Throughout AppState.step Connected (AppState.new (ids.map ({ id := · }))) ops →
      ∀ (client : Nat) (key : SubKey) (turns : List Turn),
        (run (step client key) (startAfter ids ops) turns).Finished →
        Gone (run (step client key) (startAfter ids ops) turns).st client := by
  intro always
  have gone := always [0] [.registerClient "a"] (by decide) 1 (.trades "BTC")
    [.hangs, .hangs, .joins 0, .joins 0, .joins 0] ⟨by decide, by decide⟩
  exact absurd (gone.1 (.trades "BTC") _ rfl).1 (by decide)

end Teardown

end Wsarb
