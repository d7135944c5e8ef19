import Wsarb.Concurrent.Desk

/-!
Owns what the interleaving of registrations does to a subscription. Between the decision
to drop a key and the removal of its entry, the entry stands there empty; a client that
subscribes onto it in that time is removed with it, or is unsubscribed upstream. Otherwise
a client that holds a key stands on a live entry, and the sources have been asked for it.
-/

namespace Wsarb

open Wsarb.Library AppState

namespace Desk

/-- A connected client that has not been hung up and holds a key stands on the key's entry,
which is live upstream, and the last request about the key to every source was to
subscribe. -/
def Kept (desk : Desk) : Prop :=
  ∀ client ∈ desk.st.clients, (desk.st.heap client).kill = false →
    ∀ key ∈ desk.st.subscriptions client,
      (∃ e, desk.st.getEntry key = some e ∧ e.upstreamSubscribed = true ∧ e.Stands client) ∧
      ∀ sent ∈ desk.st.requests, lastRequest key sent = some (.subscribe key)

/-- Nobody visits an entry that another client's call is about to remove. -/
def Apart (desk : Desk) : Move → Prop
  | .proceed _ client =>
      ∀ key, desk.phase client = .entering key → ∀ other, ¬ (desk.phase other).Drops key
  | _ => True

/-- What the steps keep, with calls at any point. -/
structure Sound (desk : Desk) : Prop where
  /-- An entry about to be removed is deserted. -/
  dropped : ∀ client key, (desk.phase client).Drops key →
    ∀ e, desk.st.getEntry key = some e → e.Deserted
  /-- Whoever holds a key and has visited its entry stands on it. -/
  held : ∀ client key, key ∈ desk.st.subscriptions client → desk.phase client ≠ .entering key →
    (desk.st.heap client).kill = false →
    ∃ e, desk.st.getEntry key = some e ∧ e.upstreamSubscribed = true ∧ e.Stands client
  /-- A live key has been asked for, or is about to be. -/
  asked : ∀ key, desk.st.Upstream key →
    (∀ sent ∈ desk.st.requests, lastRequest key sent = some (.subscribe key)) ∨
      ∃ client, desk.phase client = .announcing key
  /-- What a call has still to detach from is no longer held. -/
  left : ∀ client, ∀ key ∈ (desk.phase client).leaves, key ∉ desk.st.subscriptions client

variable {desk : Desk}

theorem Sound.kept (sound : Sound desk) (quiet : desk.Quiescent) : desk.Kept := by
  intro client _ alive key holds
  have stands := sound.held client key holds (by rw [quiet client]; exact fun same => by cases same)
    alive
  refine ⟨stands, ?_⟩
  obtain ⟨e, found, live, -⟩ := stands
  rcases sound.asked key ⟨e, found, live⟩ with asked | ⟨other, announcing⟩
  · exact asked
  · rw [quiet other] at announcing
    cases announcing

theorem sound_start (ids : List Nat) (pins : List SubKey) : Sound (start ids pins) := by
  have begun : (start ids pins).st.Tuned ∧
      ∀ client, (start ids pins).st.subscriptions client = [] := by
    apply start_keeps (P := fun st => st.Tuned ∧ ∀ client, st.subscriptions client = [])
    · exact ⟨tuned_start ids, fun _ => rfl⟩
    · refine fun st key ⟨tuned, nothing⟩ => ⟨tuned.announced (announces_pin 0 key), ?_⟩
      intro client
      rw [subscriptions, heap_pin]
      exact nothing client
  obtain ⟨tuned, nothing⟩ := begun
  refine ⟨?_, ?_, ?_, ?_⟩
  · exact fun client key drops => drops.elim
  · intro client key holds
    rw [nothing client] at holds
    exact absurd holds List.not_mem_nil
  · intro key live
    exact Or.inl fun sent member => (tuned key sent member).mpr live
  · exact fun client key leaves => absurd leaves List.not_mem_nil

/-! ### Calls begin -/

/-- A call that begins by rewriting the client's own set. -/
theorem Sound.begin (sound : Sound desk) {client : Nat} {phase : Phase} (clients : List Nat)
    {f : Client Message → Client Message} (idle : desk.phase client = .idle)
    (alive : ∀ c, (f c).kill = c.kill) (drops : ∀ key, ¬ phase.Drops key)
    (holds : ∀ key ∈ (f (desk.st.heap client)).subscriptions, phase ≠ .entering key →
      key ∈ desk.st.subscriptions client)
    (leaves : ∀ key ∈ phase.leaves, key ∉ (f (desk.st.heap client)).subscriptions) :
    Sound (desk.next ({ desk.st with clients := clients }.modifyClient client f) client phase) := by
  have own : ({ desk.st with clients := clients }.modifyClient client f).heap client =
      f (desk.st.heap client) := Function.update_self ..
  have others : ∀ other, other ≠ client →
      ({ desk.st with clients := clients }.modifyClient client f).heap other =
        desk.st.heap other := fun other differs => Function.update_of_ne differs ..
  refine ⟨?_, ?_, ?_, ?_⟩
  · intro other key dropping e found
    rw [phase_next] at dropping
    split at dropping
    · exact absurd dropping (drops key)
    · exact sound.dropped other key dropping e found
  · intro other key held visited living
    rw [phase_next] at visited
    rw [subscriptions] at held
    show ∃ e, desk.st.getEntry key = some e ∧ _
    by_cases same : other = client
    · subst same
      rw [if_pos rfl] at visited
      refine sound.held other key (holds key ?_ visited) ?_ ?_
      · rwa [← own]
      · rw [idle]
        exact fun same => by cases same
      · rwa [← alive, ← own]
    · rw [if_neg same] at visited
      have untouched := others other same
      refine sound.held other key ?_ visited ?_
      · rwa [subscriptions, ← untouched]
      · rwa [← untouched]
  · intro key live
    rcases sound.asked key live with asked | ⟨other, announcing⟩
    · exact Or.inl asked
    · have differs : other ≠ client := by
        rintro rfl
        rw [idle] at announcing
        cases announcing
      exact Or.inr ⟨other, by rw [phase_next, if_neg differs, announcing]⟩
  · intro other key leaving held
    rw [phase_next] at leaving
    rw [subscriptions] at held
    by_cases same : other = client
    · subst same
      rw [if_pos rfl] at leaving
      exact leaves key leaving (by rwa [← own])
    · rw [if_neg same] at leaving
      apply sound.left other key leaving
      rwa [subscriptions, ← others other same]

theorem Sound.subscribe (sound : Sound desk) (client : Nat) (key : SubKey) :
    Sound (desk.subscribe client key) := by
  unfold Desk.subscribe
  split
  · next begins =>
      refine sound.begin desk.st.clients begins.1 (fun _ => rfl) (fun _ => id) ?_ ?_
      · intro other held visited
        exact (List.mem_cons.mp held).resolve_left fun same => visited (by rw [same])
      · exact fun other leaving => absurd leaving List.not_mem_nil
  · exact sound

theorem Sound.unsubscribe (sound : Sound desk) (client : Nat) (key : SubKey) :
    Sound (desk.unsubscribe client key) := by
  unfold Desk.unsubscribe
  split
  · next begins =>
      refine sound.begin desk.st.clients begins.1 (fun _ => rfl) (fun _ => id) ?_ ?_
      · exact fun other held _ => List.mem_of_mem_filter held
      · intro other leaving held
        have differs : other ≠ key := by simpa using (List.mem_filter.mp held).2
        exact differs (List.mem_singleton.mp leaving)
  · exact sound

theorem Sound.cleanup (sound : Sound desk) (client : Nat) : Sound (desk.cleanup client) := by
  unfold Desk.cleanup
  split
  · next idle =>
      refine sound.begin (desk.st.clients.filter (· ≠ client)) idle (fun _ => rfl) (fun _ => id)
        ?_ ?_
      · exact fun other held => absurd held List.not_mem_nil
      · exact fun other _ => List.not_mem_nil
  · exact sound

/-! ### Calls go on -/

/-- A live key that no call of this client is to announce has been asked for, or another
client's call is to announce it. -/
theorem Sound.asked_elsewhere (sound : Sound desk) {client : Nat}
    (silent : ∀ key, desk.phase client ≠ .announcing key) {key : SubKey}
    (live : desk.st.Upstream key) :
    (∀ sent ∈ desk.st.requests, lastRequest key sent = some (.subscribe key)) ∨
      ∃ other, other ≠ client ∧ desk.phase other = .announcing key := by
  rcases sound.asked key live with asked | ⟨other, announcing⟩
  · exact Or.inl asked
  · refine Or.inr ⟨other, fun same => ?_, announcing⟩
    subst same
    exact silent key announcing

/-- A client whose call is past its entry stands on every entry it holds. -/
theorem Sound.held_past (sound : Sound desk) {client : Nat}
    (past : ∀ key, desk.phase client ≠ .entering key) {other : Nat} {key : SubKey}
    (holds : key ∈ desk.st.subscriptions other)
    (visited : other = client ∨ desk.phase other ≠ .entering key)
    (alive : (desk.st.heap other).kill = false) :
    ∃ e, desk.st.getEntry key = some e ∧ e.upstreamSubscribed = true ∧ e.Stands other := by
  apply sound.held other key holds _ alive
  rcases visited with own | visited
  · exact own ▸ past key
  · exact visited

/-- A call that has written the client's own set and goes on. -/
theorem Sound.goOn (sound : Sound desk) {client : Nat} {st : Live} {phase : Phase}
    (heap : st.heap = desk.st.heap)
    (dropped : ∀ other key, (if other = client then phase else desk.phase other).Drops key →
      ∀ e, st.getEntry key = some e → e.Deserted)
    (held : ∀ other key, key ∈ desk.st.subscriptions other →
      (other = client ∨ desk.phase other ≠ .entering key) →
      (desk.st.heap other).kill = false →
      ∃ e, st.getEntry key = some e ∧ e.upstreamSubscribed = true ∧ e.Stands other)
    (asked : ∀ key, st.Upstream key →
      (∀ sent ∈ st.requests, lastRequest key sent = some (.subscribe key)) ∨
        phase = .announcing key ∨
        ∃ other, other ≠ client ∧ desk.phase other = .announcing key)
    (left : ∀ key ∈ phase.leaves, key ∉ desk.st.subscriptions client) :
    Sound (desk.next st client phase) := by
  have sets : ∀ other, st.subscriptions other = desk.st.subscriptions other := by
    intro other
    rw [subscriptions, heap, subscriptions]
  refine ⟨?_, ?_, ?_, ?_⟩
  · intro other key dropping
    rw [phase_next] at dropping
    exact dropped other key dropping
  · intro other key holds visited alive
    rw [phase_next] at visited
    refine held other key (sets other ▸ holds) ?_ (heap ▸ alive)
    by_cases same : other = client
    · exact Or.inl same
    · rw [if_neg same] at visited
      exact Or.inr visited
  · intro key live
    rcases asked key live with asked | announces | ⟨other, differs, announcing⟩
    · exact Or.inl asked
    · exact Or.inr ⟨client, by rw [phase_next, if_pos rfl, announces]⟩
    · exact Or.inr ⟨other, by rw [phase_next, if_neg differs, announcing]⟩
  · intro other key leaving
    rw [phase_next] at leaving
    show key ∉ st.subscriptions other
    rw [sets]
    split at leaving
    · next same => exact same ▸ left key leaving
    · exact sound.left other key leaving

/-- The critical section of `subscribe`, on an entry nobody is about to remove. -/
theorem Sound.enter (sound : Sound desk) {now client : Nat} {key : SubKey}
    (entering : desk.phase client = .entering key)
    (apart : ∀ other, ¬ (desk.phase other).Drops key) :
    Sound (desk.proceed now client) := by
  have entries := fun other => desk.st.getEntry_subscribeEntry now client key other
  have live := fun other => desk.st.upstream_subscribeEntry now client key other
  have need := desk.st.subscribeEntry_need now client key
  have notDropping : ∀ other, ¬ (if (desk.st.subscribeEntry now client key).2 then
      Phase.announcing key else .idle).Drops other := by
    intro other
    split <;> exact id
  have silent : ∀ sought, desk.phase client ≠ .announcing sought := by simp [entering]
  have goes : desk.proceed now client = desk.next (desk.st.subscribeEntry now client key).1 client
      (if (desk.st.subscribeEntry now client key).2 then .announcing key else .idle) := by
    rw [Desk.proceed, entering]
  rw [goes]
  refine sound.goOn rfl ?_ ?_ ?_ ?_
  · intro other dropped dropping e found
    split at dropping
    · exact absurd dropping (notDropping dropped)
    · by_cases same : dropped = key
      · exact absurd (same ▸ dropping) (apart other)
      · exact sound.dropped other dropped dropping e
          (((entries dropped).trans (if_neg same)).symm.trans found)
  · intro other held holds visited alive
    by_cases same : held = key
    · subst same
      refine ⟨_, (entries held).trans (if_pos rfl), attach_upstreamSubscribed _ _ _, ?_⟩
      rw [SubEntry.stands_attach]
      rcases visited with own | visited
      · exact Or.inr own
      · obtain ⟨e, found, -, stands⟩ := sound.held other held holds visited alive
        left
        rwa [entryOr_of_some found]
    · simp only [entries held, if_neg same]
      refine sound.held other held holds ?_ alive
      rcases visited with own | visited
      · rw [own, entering]
        exact fun entered => same (Phase.entering.inj entered).symm
      · exact visited
  · intro sought alive
    by_cases needed : (desk.st.subscribeEntry now client key).2 = true
    · by_cases same : sought = key
      · right
        left
        rw [if_pos needed, same]
      · have was := ((live sought).mp alive).resolve_left same
        exact (sound.asked_elsewhere silent was).imp_right Or.inr
    · have was : desk.st.Upstream sought := by
        rcases (live sought).mp alive with rfl | was
        · exact not_not.mp (mt need.mpr needed)
        · exact was
      exact (sound.asked_elsewhere silent was).imp_right Or.inr
  · intro other leaving
    split at leaving <;> exact absurd leaving List.not_mem_nil

/-- A broadcast about a key, whose call was to announce it or to withdraw a deserted key. -/
theorem Sound.broadcast (sound : Sound desk) {client : Nat} {req : SubRequest} {phase : Phase}
    (visited : ∀ key, desk.phase client ≠ .entering key)
    (matches_ : desk.st.Upstream req.key → req = .subscribe req.key)
    (announced : ∀ key, desk.phase client = .announcing key → key = req.key)
    (drops : ∀ key, phase.Drops key → (desk.phase client).Drops key)
    (leaves : phase.leaves ⊆ (desk.phase client).leaves) :
    Sound (desk.next (desk.st.broadcastCtrl req) client phase) := by
  refine sound.goOn rfl ?_ ?_ ?_ fun key leaving => sound.left client key (leaves leaving)
  · intro other key dropping e found
    split at dropping
    · next same => exact sound.dropped client key (drops key dropping) e found
    · exact sound.dropped other key dropping e found
  · exact fun other key => sound.held_past visited
  · intro key live
    rw [requests_broadcastCtrl]
    by_cases about : req.key = key
    · left
      intro sent member
      obtain ⟨before, -, rfl⟩ := List.mem_map.mp member
      subst about
      rw [lastRequest_concat, if_pos rfl, ← matches_ live]
    · rcases sound.asked key live with asked | ⟨other, announcing⟩
      · left
        intro sent member
        obtain ⟨before, old, rfl⟩ := List.mem_map.mp member
        rw [lastRequest_concat, if_neg about]
        exact asked before old
      · refine Or.inr (Or.inr ⟨other, ?_, announcing⟩)
        rintro rfl
        exact about (announced key announcing).symm

/-- The critical section of `detach`. -/
theorem Sound.leave (sound : Sound desk) {now client : Nat} {key : SubKey} {rest : List SubKey}
    (detaching : desk.phase client = .detaching (key :: rest)) :
    Sound (desk.proceed now client) := by
  have live := fun other => desk.st.upstream_detachEntry client key other
  have entries := fun other => desk.st.getEntry_detachEntry client key other
  have goes : desk.proceed now client = desk.next (desk.st.detachEntry client key).1 client
      (if (desk.st.detachEntry client key).2 then .withdrawing key rest else .detaching rest) := by
    rw [Desk.proceed, detaching]
  have gone : key ∉ desk.st.subscriptions client :=
    sound.left client key (by rw [detaching]; exact List.mem_cons_self)
  have past : ∀ held, desk.phase client ≠ .entering held := by simp [detaching]
  have silent : ∀ sought, desk.phase client ≠ .announcing sought := by simp [detaching]
  rw [goes]
  refine sound.goOn ?_ ?_ ?_ ?_ ?_
  · exact heap_detachEntry client key
  · intro other dropped dropping e found
    rw [entries] at found
    by_cases same : dropped = key
    · subst same
      rw [if_pos rfl] at found
      obtain ⟨before, entry, rfl⟩ := Option.map_eq_some_iff.mp found
      split at dropping
      · split at dropping
        · next drop => exact SubEntry.deserted_leave _ _ (drop_detachEntry entry ▸ drop)
        · exact dropping.elim
      · exact (sound.dropped other dropped dropping before entry).leave client
    · rw [if_neg same] at found
      refine sound.dropped other dropped ?_ e found
      split at dropping
      · split at dropping
        · exact absurd (Eq.symm dropping) same
        · exact dropping.elim
      · exact dropping
  · intro other held holds visited alive
    have stands := sound.held_past past holds visited alive
    by_cases same : held = key
    · subst same
      obtain ⟨e, found, alive, stands⟩ := stands
      have differs : other ≠ client := by
        rintro rfl
        exact gone holds
      have still := (SubEntry.stands_leave e client other).mpr ⟨stands, differs⟩
      refine ⟨(AppState.leave e client).1, ?_, ?_, still⟩
      · rw [entries, if_pos rfl, found, Option.map_some]
      · -- A drop would have left the entry deserted, with this client on it.
        rw [leave_upstreamSubscribed, alive, Bool.true_and, Bool.not_eq_true']
        by_contra drop
        exact (SubEntry.deserted_leave e client (by simpa using drop)).nobody other still
    · simp only [entries held, if_neg same]
      exact stands
  · intro sought alive
    rw [requests_detachEntry]
    exact (sound.asked_elsewhere silent ((live sought).mp alive).1).imp_right Or.inr
  · intro other leaving
    apply sound.left client other
    rw [detaching]
    split at leaving <;> exact List.mem_cons_of_mem _ leaving

/-- The removal of an entry. -/
theorem Sound.remove (sound : Sound desk) {now client : Nat} {key : SubKey} {rest : List SubKey}
    (removing : desk.phase client = .removing key rest) : Sound (desk.proceed now client) := by
  have entries := fun other => desk.st.getEntry_removeEntry key other
  have deserted := sound.dropped client key (by rw [removing]; rfl)
  have past : ∀ held, desk.phase client ≠ .entering held := by simp [removing]
  have silent : ∀ sought, desk.phase client ≠ .announcing sought := by simp [removing]
  rw [Desk.proceed, removing]
  refine sound.goOn rfl ?_ ?_ ?_ ?_
  · intro other dropped dropping e found
    rw [entries] at found
    split at found
    · cases found
    · refine sound.dropped other dropped ?_ e found
      split at dropping
      · exact dropping.elim
      · exact dropping
  · intro other held holds visited alive
    have stands := sound.held_past past holds visited alive
    by_cases same : held = key
    · subst same
      obtain ⟨e, found, -, stands⟩ := stands
      exact absurd stands ((deserted e found).nobody other)
    · simp only [entries held, if_neg same]
      exact stands
  · intro sought live
    have differs : sought ≠ key := by
      rintro rfl
      obtain ⟨e, found, -⟩ := live
      rw [entries, if_pos rfl] at found
      cases found
    have was := (upstream_congr ((entries sought).trans (if_neg differs))).mp live
    exact (sound.asked_elsewhere silent was).imp_right Or.inr
  · intro other leaving
    exact sound.left client other (by rw [removing]; exact leaving)

theorem Sound.proceed (sound : Sound desk) {now client : Nat}
    (apart : desk.Apart (.proceed now client)) : Sound (desk.proceed now client) := by
  cases phase : desk.phase client with
  | idle => rwa [Desk.proceed, phase]
  | entering key => exact sound.enter phase (apart key phase)
  | announcing key =>
      rw [Desk.proceed, phase]
      refine sound.broadcast ?_ (fun _ => rfl) ?_ (fun _ => False.elim) (List.nil_subset _)
      · rw [phase]
        exact fun _ same => by cases same
      · intro other announcing
        rw [phase] at announcing
        exact (Phase.announcing.inj announcing).symm
  | detaching keys =>
      cases keys with
      | nil =>
          have past : ∀ held, desk.phase client ≠ .entering held := by simp [phase]
          have silent : ∀ sought, desk.phase client ≠ .announcing sought := by simp [phase]
          rw [Desk.proceed, phase]
          refine sound.goOn rfl ?_ ?_ ?_ fun _ leaving => absurd leaving List.not_mem_nil
          · intro other key dropping
            split at dropping
            · exact dropping.elim
            · exact sound.dropped other key dropping
          · exact fun other key => sound.held_past past
          · exact fun key live => (sound.asked_elsewhere silent live).imp_right Or.inr
      | cons key rest => exact sound.leave phase
  | withdrawing key rest =>
      rw [Desk.proceed, phase]
      refine sound.broadcast ?_ ?_ ?_ ?_ ?_
      · rw [phase]
        exact fun _ same => by cases same
      · rintro ⟨e, found, live⟩
        have deserted := sound.dropped client key (by rw [phase]; rfl) e found
        rw [deserted.notLive] at live
        cases live
      · intro other announcing
        rw [phase] at announcing
        cases announcing
      · rw [phase]
        exact fun _ => id
      · rw [phase]
        exact List.Subset.refl _
  | removing key rest => exact sound.remove phase

/-! ### Every step -/

theorem Sound.register (sound : Sound desk) (ip : String) :
    Sound { desk with st := (desk.st.registerClient ip).1 } := by
  have heap := fun other => Function.update_apply desk.st.heap desk.st.nextClientId
    (Client.new ip : Client Message) other
  refine ⟨sound.dropped, ?_, sound.asked, ?_⟩
  · intro client key holds visited alive
    have same : (desk.st.registerClient ip).1.heap client = _ := heap client
    rw [subscriptions, same] at holds
    replace alive : ((desk.st.registerClient ip).1.heap client).kill = false := alive
    rw [same] at alive
    split at holds
    · exact absurd holds List.not_mem_nil
    · next differs =>
        rw [if_neg differs] at alive
        exact sound.held client key holds visited alive
  · intro client key leaving holds
    have same : (desk.st.registerClient ip).1.heap client = _ := heap client
    rw [subscriptions, same] at holds
    split at holds
    · exact absurd holds List.not_mem_nil
    · exact sound.left client key leaving holds

theorem Sound.traffic (sound : Sound desk) {op : Op} (traffic : op.isTraffic = true) :
    Sound { desk with st := desk.st.step op } := by
  refine ⟨?_, ?_, ?_, ?_⟩
  · intro client key drops e found
    exact deserted_of_traffic traffic (sound.dropped client key drops) found
  · intro client key holds visited alive
    replace holds : key ∈ (desk.st.step op).subscriptions client := holds
    rw [subscriptions_of_traffic traffic] at holds
    have living : (desk.st.heap client).kill = false := by
      by_contra killed
      have killed' := steadily_step steady_kill traffic (by simpa using killed)
      exact Bool.false_ne_true (alive.symm.trans killed')
    obtain ⟨e, found, live, stands⟩ := sound.held client key holds visited living
    rcases stands_of_traffic traffic found stands with killed | ⟨after, found', still⟩
    · exact absurd (alive.symm.trans killed) Bool.false_ne_true
    · refine ⟨after, found', ?_, still⟩
      obtain ⟨after', found'', live'⟩ := (upstream_of_traffic traffic key).mpr ⟨e, found, live⟩
      obtain rfl := Option.some.inj (found'.symm.trans found'')
      exact live'
  · intro key live
    show (∀ sent ∈ (desk.st.step op).requests, _) ∨ _
    rw [requests_of_traffic traffic]
    exact sound.asked key ((upstream_of_traffic traffic key).mp live)
  · intro client key leaving
    show key ∉ (desk.st.step op).subscriptions client
    rw [subscriptions_of_traffic traffic]
    exact sound.left client key leaving

theorem Sound.step (sound : Sound desk) (move : Move) (apart : desk.Apart move) :
    Sound (desk.step move) := by
  cases move with
  | register ip => exact sound.register ip
  | subscribe client key => exact sound.subscribe client key
  | unsubscribe client key => exact sound.unsubscribe client key
  | cleanup client => exact sound.cleanup client
  | proceed now client => exact sound.proceed apart
  | traffic op =>
      show Sound (if op.isTraffic then _ else desk)
      split
      · next traffic => exact sound.traffic traffic
      · exact sound

/-- In every run in which no client visits an entry that another's call is about to remove,
every quiescent state keeps every subscription. -/
theorem kept_of_apart (ids : List Nat) (pins : List SubKey) (moves : List Move)
    (apart : Throughout step Apart (start ids pins) moves)
    (quiet : (run step (start ids pins) moves).Quiescent) :
    (run step (start ids pins) moves).Kept := by
  have sound : Sound (run step (start ids pins) moves) :=
    run_keeps (fun _ move sound => sound.step move) moves (sound_start ids pins) apart
  exact sound.kept quiet

/-! ### Clients that are lost -/

theorem removes (desk : Desk) (now : Nat) {client : Nat} {key : SubKey} {rest : List SubKey}
    (removing : desk.phase client = .removing key rest) :
    (desk.proceed now client).st.getEntry key = none ∧
      (desk.proceed now client).st.heap = desk.st.heap := by
  rw [Desk.proceed, removing]
  refine ⟨?_, rfl⟩
  show (desk.st.removeEntry key).getEntry key = none
  rw [getEntry_removeEntry, if_pos rfl]

/-- A client that visits an entry another call is about to remove loses it, and holds the
key for nothing. -/
theorem lost_of_not_apart {client other now : Nat} {key : SubKey}
    (entering : desk.phase client = .entering key) (drops : (desk.phase other).Drops key) :
    ∃ turns, (run step desk (.proceed now client ::
        List.replicate turns (.proceed now other))).st.getEntry key = none ∧
      (run step desk (.proceed now client ::
        List.replicate turns (.proceed now other))).st.heap = desk.st.heap := by
  have differs : other ≠ client := by
    rintro rfl
    rw [entering] at drops
    exact drops
  have visited : (desk.proceed now client).phase other = desk.phase other :=
    desk.phase_step_of_other (.proceed now client) fun same =>
      differs (Option.some.inj same).symm
  have kept : (desk.proceed now client).st.heap = desk.st.heap := by
    rw [Desk.proceed, entering]
    rfl
  cases phase : desk.phase other with
  | withdrawing dropped rest =>
      rw [phase] at drops visited
      obtain rfl : dropped = key := drops
      have goes : (desk.proceed now client).proceed now other =
          (desk.proceed now client).next
            ((desk.proceed now client).st.broadcastCtrl (.unsubscribe dropped)) other
            (.removing dropped rest) := by
        rw [Desk.proceed.eq_def (desk.proceed now client), visited]
      obtain ⟨gone, same⟩ := removes ((desk.proceed now client).proceed now other) now
        (by rw [goes, phase_next, if_pos rfl])
      refine ⟨2, gone, same.trans ?_⟩
      rw [goes]
      exact kept
  | removing dropped rest =>
      rw [phase] at drops visited
      obtain rfl : dropped = key := drops
      obtain ⟨gone, same⟩ := removes (desk.proceed now client) now visited
      exact ⟨1, gone, same.trans kept⟩
  | _ => rw [phase] at drops; exact drops.elim

/-! ### Runs -/

/-- Client 1 holds a key alone, and client 2 is connected. -/
def alone : List Move :=
  [.register "a", .register "b", .subscribe 1 (.trades "BTC"), .proceed 1 1, .proceed 1 1]

/-- In a run that is the doing of clients 1 and 2, the others stay idle. -/
theorem idle_of_others {client : Nat} (first : client ≠ 1) (second : client ≠ 2)
    {moves : List Move}
    (callers : ∀ move ∈ moves, move.caller = none ∨ move.caller = some 1 ∨ move.caller = some 2) :
    (run step (start [0, 1] []) moves).phase client = .idle := by
  rw [phase_run_of_others]
  · rfl
  · intro move member same
    rcases callers move member with none | one | two
    · rw [none] at same
      cases same
    · exact first (Option.some.inj (same.symm.trans one))
    · exact second (Option.some.inj (same.symm.trans two))

/-- Where clients 1 and 2 drop nothing, nobody else does in such a run. -/
theorem drops_nothing {key : SubKey} (moves : List Move)
    (callers : ∀ move ∈ moves, move.caller = none ∨ move.caller = some 1 ∨ move.caller = some 2)
    (one : ¬ ((run step (start [0, 1] []) moves).phase 1).Drops key)
    (two : ¬ ((run step (start [0, 1] []) moves).phase 2).Drops key) (other : Nat) :
    ¬ ((run step (start [0, 1] []) moves).phase other).Drops key := by
  by_cases first : other = 1
  · exact first ▸ one
  · by_cases second : other = 2
    · exact second ▸ two
    · rw [idle_of_others first second callers]
      exact id

/-- Client 2 subscribes once client 1's call is through. -/
theorem kept_of_apart_in_turn :
    (run step (start [0, 1] []) (alone ++ [.unsubscribe 1 (.trades "BTC"), .proceed 2 1,
      .proceed 2 1, .proceed 2 1, .proceed 2 1, .subscribe 2 (.trades "BTC"), .proceed 3 2,
      .proceed 3 2])).Kept := by
  refine kept_of_apart [0, 1] [] _ ?_ ?_
  · refine ⟨trivial, trivial, trivial, fun _ _ => ?_, ?_, trivial, ?_, ?_, ?_, ?_, trivial,
      fun _ _ => ?_, ?_, trivial⟩
    · exact drops_nothing (alone.take 3) (by decide) id id
    · exact fun _ announcing => by cases announcing
    · exact fun _ detaching => by cases detaching
    · exact fun _ withdrawing => by cases withdrawing
    · exact fun _ removing => by cases removing
    · exact fun _ detaching => by cases detaching
    · exact drops_nothing (alone ++ [.unsubscribe 1 (.trades "BTC"), .proceed 2 1, .proceed 2 1,
        .proceed 2 1, .proceed 2 1, .subscribe 2 (.trades "BTC")]) (by decide) id id
    · exact fun _ announcing => by cases announcing
  · intro client
    by_cases first : client = 1
    · subst first
      rfl
    · by_cases second : client = 2
      · subst second
        rfl
      · exact idle_of_others first second (by decide)

/-- Client 2 subscribes between client 1's decision to drop the key and its removal. -/
theorem subscriber_lost_with_entry :
    ¬ ∀ (ids : List Nat) (pins : List SubKey) (moves : List Move),
      (run step (start ids pins) moves).Quiescent → (run step (start ids pins) moves).Kept := by
  intro always
  have kept := always [0, 1] [] (alone ++ [.unsubscribe 1 (.trades "BTC"), .proceed 2 1,
    .subscribe 2 (.trades "BTC"), .proceed 3 2, .proceed 3 2, .proceed 4 1, .proceed 4 1,
    .proceed 4 1]) ?_
  · obtain ⟨⟨e, found, -⟩, -⟩ := kept 2 (by decide) rfl (.trades "BTC") (by decide)
    cases found
  · intro client
    by_cases first : client = 1
    · subst first
      rfl
    · by_cases second : client = 2
      · subst second
        rfl
      · exact idle_of_others first second (by decide)

end Desk

end Wsarb
