import Wsarb.State.Roster

/-!
Owns the agreement of the five views of a subscription: each client's own set of keys, the
lists of the entries, the registry, the live and pinned flags, and the requests sent to the
sources. Every operation keeps it, where a client subscribes only while it is registered.

Does not own: operations that interleave.
-/

namespace Wsarb

open Wsarb.Library

namespace AppState

/-! ### Requests that take turns -/

/-- The requests about a key in turn: `Subscribe` first, then `Unsubscribe`, and so on. -/
def turnOf (key : SubKey) (i : Nat) : SubRequest :=
  if i % 2 = 0 then .subscribe key else .unsubscribe key

/-- The requests about a key alternate, beginning with `Subscribe`. -/
def Alternate (key : SubKey) (requests : List SubRequest) : Prop :=
  ∀ i req, (requests.filter (·.key = key))[i]? = some req → req = turnOf key i

/-- The last of an odd number of alternating requests is to subscribe. -/
theorem Alternate.last {key : SubKey} {requests : List SubRequest}
    (alternate : Alternate key requests) :
    lastRequest key requests = some (.subscribe key) ↔
      (requests.filter (·.key = key)).length % 2 = 1 := by
  rw [lastRequest, List.getLast?_eq_getElem?]
  rcases Nat.eq_zero_or_pos (requests.filter (·.key = key)).length with none | some
  · rw [List.getElem?_eq_none (by omega), none]
    simp
  · have inside : (requests.filter (·.key = key)).length - 1 <
        (requests.filter (·.key = key)).length := by omega
    have last := List.getElem?_eq_getElem inside
    rw [last, alternate _ _ last, Option.some.injEq, turnOf]
    split
    · exact iff_of_true rfl (by omega)
    · exact iff_of_false (by simp) (by omega)

/-- One more request, of the other kind than the last one about its key. -/
theorem Alternate.concat {key : SubKey} {requests : List SubRequest} {req : SubRequest}
    (alternate : Alternate key requests)
    (turns : req.key = key → (lastRequest key requests = some (.subscribe key) ↔
      req ≠ .subscribe key)) : Alternate key (requests ++ [req]) := by
  intro i sent found
  rw [List.filter_append] at found
  by_cases about : req.key = key
  · rw [List.filter_cons_of_pos (by simpa using about), List.filter_nil] at found
    rcases Nat.lt_trichotomy i (requests.filter (·.key = key)).length with old | new | beyond
    · rw [List.getElem?_append_left old] at found
      exact alternate i sent found
    · rw [new, List.getElem?_concat_length] at found
      obtain rfl := Option.some.inj found
      have kind := alternate.last.symm.trans (turns about)
      rw [← new] at kind
      unfold turnOf
      split
      · by_contra other
        have odd := kind.mpr other
        omega
      · have odd : i % 2 = 1 := by omega
        cases req with
        | subscribe asked => exact absurd (congrArg _ about) (kind.mp odd)
        | unsubscribe asked => exact congrArg _ about
    · rw [List.getElem?_eq_none (by rw [List.length_append]; exact beyond)] at found
      cases found
  · rw [List.filter_cons_of_neg (by simpa using about), List.filter_nil, List.append_nil] at found
    exact alternate i sent found

/-- The requests agree with the live flags and alternate. -/
def Paced (st : Live) : Prop :=
  st.Tuned ∧ ∀ key, ∀ sent ∈ st.requests, Alternate key sent

variable {st : Live}

theorem Paced.announced {st after : Live} (paced : st.Paced) (announces : st.Announces after) :
    after.Paced := by
  refine ⟨paced.1.announced announces, fun key sent member => ?_⟩
  cases announces with
  | silent requests _ => exact paced.2 key sent (requests ▸ member)
  | asks req requests _ before _ =>
      rw [requests] at member
      obtain ⟨old, sentOld, rfl⟩ := List.mem_map.mp member
      refine (paced.2 key old sentOld).concat fun about => ?_
      subst about
      rw [paced.1 _ old sentOld, before]

theorem paced_new (ids : List Nat) : Paced (AppState.new (ids.map ({ id := · }))) := by
  refine ⟨tuned_start ids, fun key sent member => ?_⟩
  simp only [requests, AppState.new, List.map_map, List.mem_map] at member
  obtain ⟨id, -, rfl⟩ := member
  intro i req found
  cases found

/-! ### Who is connected -/

/-- The operation is nobody's subscription, or that of a client on the registry. -/
def Connected (st : Live) : Op → Prop
  | .subscribe _ client _ => client ∈ st.clients
  | _ => True

instance (op : Op) : Decidable (st.Connected op) :=
  match op with
  | .subscribe _ client _ => inferInstanceAs (Decidable (client ∈ _))
  | .registerClient _ | .pin .. | .unsubscribe .. | .onUpdate .. | .deliverSnapshot ..
  | .failPending .. | .resyncAfterSourceLoss _ | .cleanupClient _ | .receive _ | .close _ =>
      isTrue trivial

/-- The handles on the registry are out, and only who is on the registry holds anything. -/
structure Enrolled (st : Live) : Prop where
  out : ∀ client ∈ st.clients, client < st.nextClientId
  connected : ∀ client, ∀ key ∈ st.subscriptions client, client ∈ st.clients

theorem enrolled_new (sources : List Source) : Enrolled (AppState.new sources) where
  out := fun _ member => absurd member List.not_mem_nil
  connected := fun _ _ member => absurd member List.not_mem_nil

theorem Enrolled.step (enrolled : st.Enrolled) (op : Op) (connected : st.Connected op) :
    (st.step op).Enrolled where
  out := by
    intro client member
    rw [clients_step] at member
    rw [nextClientId_step]
    cases op with
    | registerClient ip =>
        rcases List.mem_cons.mp member with rfl | old
        · exact Nat.lt_succ_self _
        · exact Nat.lt_succ_of_lt (enrolled.out client old)
    | cleanupClient who => exact enrolled.out client (List.mem_of_mem_filter member)
    | _ => exact enrolled.out client member
  connected := by
    intro client key holds
    have old := enrolled.connected client key
    rw [subscriptions_step] at holds
    rw [clients_step]
    cases op with
    | registerClient ip =>
        rw [subscriptionsAfter] at holds
        split at holds
        · exact absurd holds List.not_mem_nil
        · exact List.mem_cons_of_mem _ (old holds)
    | subscribe now who subscribed =>
        rw [subscriptionsAfter] at holds
        split at holds
        · next own => exact own.1 ▸ connected
        · exact old holds
    | unsubscribe who left =>
        rw [subscriptionsAfter] at holds
        split at holds
        · exact old (List.mem_of_mem_filter holds)
        · exact old holds
    | cleanupClient who =>
        rw [subscriptionsAfter] at holds
        split at holds
        · exact absurd holds List.not_mem_nil
        · next other =>
            apply List.mem_filter.mpr
            exact ⟨old holds, by simpa using other⟩
    | _ => exact old holds

/-! ### Who is served -/

/-- Whoever is on the registry, holds a key and has not been hung up stands on the key's
entry. -/
def Served (st : Live) : Prop :=
  ∀ client ∈ st.clients, (st.heap client).kill = false → ∀ key ∈ st.subscriptions client,
    ∃ e, st.getEntry key = some e ∧ e.Stands client

theorem Served.traffic (served : st.Served) {op : Op} (traffic : op.isTraffic = true) :
    (st.step op).Served := by
  intro client member alive key holds
  rw [subscriptions_of_traffic traffic] at holds
  have enrolled : client ∈ st.clients := by
    rw [clients_step] at member
    cases op <;> first | exact member | cases traffic
  have living : (st.heap client).kill = false := by
    by_contra killed
    have still := steadily_step steady_kill traffic (by simpa using killed)
    exact Bool.false_ne_true (alive.symm.trans still)
  obtain ⟨e, found, stands⟩ := served client enrolled living key holds
  rcases stands_of_traffic traffic found stands with killed | after
  · exact absurd (alive.symm.trans killed) Bool.false_ne_true
  · exact after

/-- A client that keeps a key keeps its place when another one leaves. -/
theorem Served.leaving (served : st.Served) {client who : Nat} {key : SubKey} {leaves : Prop}
    [Decidable leaves] (member : client ∈ st.clients) (alive : (st.heap client).kill = false)
    (holds : key ∈ st.subscriptions client) (other : leaves → client ≠ who) :
    ∃ e, (if leaves then detached who (st.getEntry key) else st.getEntry key) = some e ∧
      e.Stands client := by
  obtain ⟨e, found, stands⟩ := served client member alive key holds
  split
  · next left =>
      rw [found]
      exact SubEntry.stands_detached e who stands (other left)
  · exact ⟨e, found, stands⟩

theorem Served.step (served : st.Served) (enrolled : st.Enrolled) (op : Op) :
    (st.step op).Served := by
  cases request : op.isTraffic with
  | true => exact served.traffic request
  | false =>
      intro client member alive key holds
      rw [subscriptions_step] at holds
      have old : ¬ st.Registers client op := by
        rintro ⟨⟨ip, rfl⟩, rfl⟩
        rw [subscriptionsAfter, if_pos rfl] at holds
        exact absurd holds List.not_mem_nil
      rw [kill_of_request request old] at alive
      simp only [getEntry_step]
      cases op with
      | registerClient ip =>
          have other : client ≠ st.nextClientId := fun same => old ⟨⟨ip, rfl⟩, same⟩
          rw [subscriptionsAfter, if_neg other] at holds
          exact served client (enrolled.connected client key holds) alive key holds
      | subscribe now who subscribed =>
          rw [clients_step] at member
          simp only [subscriptionsAfter, entryAfter] at holds ⊢
          split
          · next attaches =>
              obtain ⟨rfl, absent⟩ := attaches
              refine ⟨_, rfl, (SubEntry.stands_attach _ _ _ _).mpr ?_⟩
              by_cases own : client = who
              · exact Or.inr own
              · rw [if_neg fun both => own both.1] at holds
                obtain ⟨e, found, stands⟩ := served client member alive subscribed holds
                left
                rwa [entryOr_of_some found]
          · next stays =>
              apply served client member alive key
              split at holds
              · next own =>
                  rcases List.mem_cons.mp holds with same | before
                  · subst same
                    exact absurd ⟨rfl, own.2⟩ stays
                  · exact before
              · exact holds
      | pin now pinned =>
          rw [clients_step] at member
          simp only [entryAfter]
          obtain ⟨e, found, stands⟩ := served client member alive key holds
          split
          · refine ⟨_, rfl, ?_⟩
            rwa [entryOr_of_some found]
          · exact ⟨e, found, stands⟩
      | unsubscribe who left =>
          rw [clients_step] at member
          simp only [subscriptionsAfter, entryAfter] at holds ⊢
          refine served.leaving member alive ?_ ?_
          · split at holds
            · exact List.mem_of_mem_filter holds
            · exact holds
          · rintro ⟨rfl, -⟩ rfl
            rw [if_pos rfl] at holds
            simpa using (List.mem_filter.mp holds).2
      | cleanupClient who =>
          rw [clients_step] at member
          have other : client ≠ who := by simpa using (List.mem_filter.mp member).2
          simp only [subscriptionsAfter, if_neg other, entryAfter] at holds ⊢
          exact served.leaving (List.mem_of_mem_filter member) alive holds fun _ => other
      | _ => cases request

/-! ### Which keys are live -/

def Pinned (st : Live) (key : SubKey) : Prop :=
  ∃ e, st.getEntry key = some e ∧ e.pinned = true

theorem loseSource_pinned (source : Nat) (key : SubKey) (e : SubEntry Message) :
    (e.loseSource source key).1.pinned = e.pinned := by
  unfold SubEntry.loseSource
  split_ifs <;> rfl

theorem rebuild_pinned (e : SubEntry Message) (key : SubKey) (client source height : Nat)
    (snapshot : Message) :
    (e.rebuild key client source height snapshot).1.pinned = e.pinned := by
  unfold SubEntry.rebuild
  split <;> rfl

/-- An entry that is pinned or has anybody on it is live. -/
def Justified (e : SubEntry Message) : Prop :=
  e.pinned = true ∨ (∃ client, e.Stands client) → e.upstreamSubscribed = true

theorem justified_new (now : Nat) : Justified (SubEntry.new now) := by
  rintro (pinned | ⟨client, stands⟩)
  · cases pinned
  · exact absurd stands ((SubEntry.deserted_new now).nobody client)

/-- An entry with the flags of a justified one and nobody new on it is justified. -/
theorem Justified.congr {e after : SubEntry Message} (justified : Justified e)
    (pinned : after.pinned = e.pinned) (live : after.upstreamSubscribed = e.upstreamSubscribed)
    (stands : ∀ client, after.Stands client → e.Stands client) : Justified after := by
  intro reason
  rw [live]
  apply justified
  rcases reason with held | ⟨client, standsAfter⟩
  · exact Or.inl (pinned ▸ held)
  · exact Or.inr ⟨client, stands client standsAfter⟩

theorem justified_step (justified : ∀ key e, st.getEntry key = some e → Justified e) (op : Op)
    (key : SubKey) (e : SubEntry Message) (found : (st.step op).getEntry key = some e) :
    Justified e := by
  have used := fun now => entryOr_of (P := Justified) justified_new (justified key) now
  cases becomes found with
  | kept before apart => exact justified key e before
  | subscribed absent => exact fun _ => attach_upstreamSubscribed _ _ _
  | pinned => exact fun _ => rfl
  | @left _ who before entry leaves stays =>
      exact (justified key before entry).congr rfl rfl fun client stands =>
        ((SubEntry.stands_without before who client).mp stands).1
  | @heard now message routed =>
      exact (used now).congr (SubEntry.update_pinned ..) (SubEntry.update_upstreamSubscribed ..)
        fun client => (SubEntry.stands_update ..).1
  | @rebuilt who fetched before entry routed =>
      exact (justified key before entry).congr (rebuild_pinned before key who _ _ _)
        (rebuild_arbitration before key who _ _ _).2.2.2.2 fun client => (stands_rebuild _ _ _ _).mp
  | @gaveUp who before entry =>
      exact (justified key before entry).congr rfl rfl fun client => (stands_givenUp who).1
  | @lost source before entry =>
      exact (justified key before entry).congr (loseSource_pinned source key before)
        (loseSource_upstreamSubscribed source key before) fun client => (stands_loseSource _).mp

/-- A live key is pinned, or a client on the registry holds it. -/
def Wanted (st : Live) (key : SubKey) : Prop :=
  st.Pinned key ∨ ∃ client ∈ st.clients, key ∈ st.subscriptions client

theorem pinned_of_traffic {op : Op} (traffic : op.isTraffic = true) {key : SubKey}
    (pinned : st.Pinned key) : (st.step op).Pinned key := by
  obtain ⟨e, found, held⟩ := pinned
  have same := st.getEntry_step op key
  cases op with
  | onUpdate now message =>
      simp only [entryAfter, entryOr_of_some found] at same
      split at same
      · exact ⟨_, same, (SubEntry.update_pinned ..).trans held⟩
      · exact ⟨e, same.trans found, held⟩
  | deliverSnapshot who fetched =>
      simp only [entryAfter, found, Option.map_some] at same
      split at same
      · exact ⟨_, same, (rebuild_pinned e key who _ _ _).trans held⟩
      · exact ⟨e, same, held⟩
  | failPending failed who =>
      simp only [entryAfter, found, Option.map_some] at same
      split at same
      · exact ⟨_, same, held⟩
      · exact ⟨e, same, held⟩
  | resyncAfterSourceLoss source =>
      simp only [entryAfter, found, Option.map_some] at same
      exact ⟨_, same, (loseSource_pinned source key e).trans held⟩
  | receive who => exact ⟨e, same.trans found, held⟩
  | close who => exact ⟨e, same.trans found, held⟩
  | _ => cases traffic

/-- An entry that stays live when a client leaves it is pinned, or somebody else is on it. -/
theorem stays_for {e : SubEntry Message} {client : Nat} (stays : (leave e client).2 = false)
    (live : e.upstreamSubscribed = true) :
    e.pinned = true ∨ ∃ other, other ≠ client ∧ e.Stands other := by
  unfold leave at stays
  split at stays
  · cases stays
  · next occupied =>
      by_cases pinned : e.pinned = true
      · exact Or.inl pinned
      · right
        have listed : (without e client).members ≠ [] := by
          intro none
          obtain ⟨attached, parked⟩ := List.append_eq_nil_iff.mp none
          exact occupied (by
            simp only [abandoned, attached, List.map_eq_nil_iff.mp parked, List.isEmpty_nil]
            simpa [without, live] using pinned)
        obtain ⟨other, member⟩ := List.exists_mem_of_ne_nil _ listed
        obtain ⟨stands, differs⟩ :=
          (SubEntry.stands_without e client other).mp ((SubEntry.mem_members _ other).mp member)
        exact ⟨other, differs, stands⟩

/-- A wanted key stays wanted where it stays pinned and whoever holds it goes on to. -/
theorem Wanted.persists {after : Live} {key : SubKey} (wanted : st.Wanted key)
    (pinned : st.Pinned key → after.Pinned key)
    (stay : ∀ client ∈ st.clients, key ∈ st.subscriptions client →
      client ∈ after.clients ∧ key ∈ after.subscriptions client) : after.Wanted key := by
  rcases wanted with held | ⟨client, member, holds⟩
  · exact Or.inl (pinned held)
  · exact Or.inr ⟨client, stay client member holds⟩

/-- A live key whose entry an operation does not touch stays wanted. -/
theorem wanted_of_untouched {after : Live} {key : SubKey}
    (wanted : st.Upstream key → st.Wanted key) (entry : after.getEntry key = st.getEntry key)
    (live : after.Upstream key)
    (stay : ∀ client ∈ st.clients, key ∈ st.subscriptions client →
      client ∈ after.clients ∧ key ∈ after.subscriptions client) : after.Wanted key := by
  refine (wanted ((upstream_congr entry).mp live)).persists ?_ stay
  rintro ⟨e, found, held⟩
  exact ⟨e, entry.trans found, held⟩

/-- A key that a client leaves and that stays live is wanted by others. -/
theorem wanted_of_leaving (held : st.Held) (enrolled : st.Enrolled) {after : Live} {who : Nat}
    {key : SubKey} (left : after.getEntry key = detached who (st.getEntry key))
    (stay : ∀ other, other ≠ who → other ∈ st.clients → key ∈ st.subscriptions other →
      other ∈ after.clients ∧ key ∈ after.subscriptions other)
    (live : after.Upstream key) : after.Wanted key := by
  obtain ⟨e, found, alive⟩ := live
  obtain ⟨before, entry, stays, rfl⟩ := detached_eq_some (left.symm.trans found)
  rcases stays_for stays alive with pinned | ⟨other, differs, stands⟩
  · exact Or.inl ⟨_, found, pinned⟩
  · have holds := held key before entry other stands
    exact Or.inr ⟨other, stay other differs (enrolled.connected other key holds) holds⟩

section Requested

variable {now who : Nat} {key requested : SubKey}

theorem wanted_subscribe (wanted : st.Upstream key → st.Wanted key) (connected : who ∈ st.clients)
    (live : (st.step (.subscribe now who requested)).Upstream key) :
    (st.step (.subscribe now who requested)).Wanted key := by
  by_cases same : requested = key
  · right
    refine ⟨who, by rw [clients_step]; exact connected, ?_⟩
    rw [subscriptions_step, subscriptionsAfter, ← same]
    split
    · exact List.mem_cons_self
    · next stays =>
        by_contra absent
        exact stays ⟨rfl, absent⟩
  · have entry := st.getEntry_step (.subscribe now who requested) key
    rw [entryAfter, if_neg fun both => same both.1] at entry
    apply wanted_of_untouched wanted entry live
    intro client member holds
    rw [clients_step, subscriptions_step, subscriptionsAfter]
    refine ⟨member, ?_⟩
    split
    · exact List.mem_cons_of_mem _ holds
    · exact holds

theorem wanted_pin (wanted : st.Upstream key → st.Wanted key)
    (live : (st.step (.pin now requested)).Upstream key) :
    (st.step (.pin now requested)).Wanted key := by
  have entry := st.getEntry_step (.pin now requested) key
  rw [entryAfter] at entry
  split at entry
  · exact Or.inl ⟨_, entry, rfl⟩
  · apply wanted_of_untouched wanted entry live
    intro client member holds
    rw [clients_step, subscriptions_step]
    exact ⟨member, holds⟩

theorem wanted_unsubscribe (wanted : st.Upstream key → st.Wanted key) (held : st.Held)
    (enrolled : st.Enrolled) (live : (st.step (.unsubscribe who requested)).Upstream key) :
    (st.step (.unsubscribe who requested)).Wanted key := by
  have stay : ∀ other, (requested = key → other ≠ who) → other ∈ st.clients →
      key ∈ st.subscriptions other → other ∈ (st.step (.unsubscribe who requested)).clients ∧
        key ∈ (st.step (.unsubscribe who requested)).subscriptions other := by
    intro other apart member holds
    rw [clients_step, subscriptions_step, subscriptionsAfter]
    refine ⟨member, ?_⟩
    split
    · next own =>
        apply List.mem_filter.mpr
        exact ⟨holds, by simpa using fun same : key = requested => apart same.symm own⟩
    · exact holds
  have entry := st.getEntry_step (.unsubscribe who requested) key
  rw [entryAfter] at entry
  split at entry
  · exact wanted_of_leaving held enrolled entry (fun other apart => stay other fun _ => apart) live
  · next stays =>
      apply wanted_of_untouched wanted entry live
      intro client member holds
      exact stay client (fun same own => stays ⟨same, own ▸ holds⟩) member holds

theorem wanted_cleanupClient (wanted : st.Upstream key → st.Wanted key) (held : st.Held)
    (enrolled : st.Enrolled) (live : (st.step (.cleanupClient who)).Upstream key) :
    (st.step (.cleanupClient who)).Wanted key := by
  have stay : ∀ other, other ≠ who → other ∈ st.clients → key ∈ st.subscriptions other →
      other ∈ (st.step (.cleanupClient who)).clients ∧
        key ∈ (st.step (.cleanupClient who)).subscriptions other := by
    intro other apart member holds
    rw [clients_step, subscriptions_step, subscriptionsAfter, if_neg apart]
    exact ⟨List.mem_filter.mpr ⟨member, by simpa using apart⟩, holds⟩
  have entry := st.getEntry_step (.cleanupClient who) key
  rw [entryAfter] at entry
  split at entry
  · exact wanted_of_leaving held enrolled entry stay live
  · next stays =>
      apply wanted_of_untouched wanted entry live
      intro client member holds
      exact stay client (fun own => stays (own ▸ holds)) member holds

end Requested

theorem wanted_step (wanted : ∀ key, st.Upstream key → st.Wanted key) (held : st.Held)
    (enrolled : st.Enrolled) (op : Op) (connected : st.Connected op) (key : SubKey)
    (live : (st.step op).Upstream key) : (st.step op).Wanted key := by
  have traffic : op.isTraffic = true → (st.step op).Wanted key := by
    intro traffic
    have before := wanted key ((upstream_of_traffic traffic key).mp live)
    apply before.persists (pinned_of_traffic traffic)
    intro client member holds
    rw [clients_step, subscriptions_of_traffic traffic]
    cases op <;> first | exact ⟨member, holds⟩ | cases traffic
  cases op with
  | registerClient ip =>
      apply wanted_of_untouched (wanted key) (st.getEntry_step _ key) live
      intro client member holds
      have other : client ≠ st.nextClientId := Nat.ne_of_lt (enrolled.out client member)
      rw [clients_step, subscriptions_step, subscriptionsAfter, if_neg other]
      exact ⟨List.mem_cons_of_mem _ member, holds⟩
  | subscribe now who requested => exact wanted_subscribe (wanted key) connected live
  | pin now requested => exact wanted_pin (wanted key) live
  | unsubscribe who requested => exact wanted_unsubscribe (wanted key) held enrolled live
  | cleanupClient who => exact wanted_cleanupClient (wanted key) held enrolled live
  | onUpdate now message => exact traffic rfl
  | deliverSnapshot who fetched => exact traffic rfl
  | failPending key who => exact traffic rfl
  | resyncAfterSourceLoss source => exact traffic rfl
  | receive who => exact traffic rfl
  | close who => exact traffic rfl

/-! ### The five views -/

/-- The five views of a subscription agree. -/
structure Accord (st : Live) : Prop where
  once : ∀ key e, st.getEntry key = some e → e.members.Nodup
  listed : ∀ key e, st.getEntry key = some e → ∀ client ∈ e.members,
    client ∈ st.clients ∧ key ∈ st.subscriptions client
  served : ∀ client ∈ st.clients, (st.heap client).kill = false →
    ∀ key ∈ st.subscriptions client, ∃ e, st.getEntry key = some e ∧ client ∈ e.members
  live : ∀ key e, st.getEntry key = some e → e.pinned = true ∨ e.members ≠ [] →
    e.upstreamSubscribed = true
  wanted : ∀ key e, st.getEntry key = some e → e.upstreamSubscribed = true →
    e.pinned = true ∨ ∃ client ∈ st.clients, key ∈ st.subscriptions client
  alternate : ∀ key, ∀ sent ∈ st.requests, Alternate key sent
  last : ∀ key, ∀ sent ∈ st.requests,
    lastRequest key sent = some (.subscribe key) ↔
      ∃ e, st.getEntry key = some e ∧ e.upstreamSubscribed = true

/-- What the operations keep. -/
structure Registered (st : Live) : Prop where
  seated : st.Seated
  enrolled : st.Enrolled
  served : st.Served
  justified : ∀ key e, st.getEntry key = some e → Justified e
  wanted : ∀ key, st.Upstream key → st.Wanted key
  paced : st.Paced

theorem registered_new (ids : List Nat) :
    Registered (AppState.new (ids.map ({ id := · }))) where
  seated := seated_new _
  enrolled := enrolled_new _
  served := fun _ member => absurd member List.not_mem_nil
  justified := fun _ _ found => nomatch found
  wanted := fun _ ⟨_, found, _⟩ => nomatch found
  paced := paced_new ids

theorem Registered.step (registered : st.Registered) (op : Op) (connected : st.Connected op) :
    (st.step op).Registered where
  seated := by
    apply seated_step registered.seated op
    cases op with
    | subscribe now client key => exact registered.enrolled.out client connected
    | _ => trivial
  enrolled := registered.enrolled.step op connected
  served := registered.served.step registered.enrolled op
  justified := justified_step registered.justified op
  wanted := wanted_step registered.wanted registered.seated.held registered.enrolled op connected
  paced := announced_step (P := Paced) Paced.announced registered.paced op

theorem Registered.accord (registered : st.Registered) : st.Accord where
  once := registered.seated.once
  listed := by
    intro key e found client member
    have holds := registered.seated.held key e found client ((e.mem_members client).mp member)
    exact ⟨registered.enrolled.connected client key holds, holds⟩
  served := by
    intro client member alive key holds
    obtain ⟨e, found, stands⟩ := registered.served client member alive key holds
    exact ⟨e, found, (e.mem_members client).mpr stands⟩
  live := by
    intro key e found reason
    refine registered.justified key e found (reason.imp_right fun listed => ?_)
    obtain ⟨client, member⟩ := List.exists_mem_of_ne_nil _ listed
    exact ⟨client, (e.mem_members client).mp member⟩
  wanted := by
    intro key e found live
    refine (registered.wanted key ⟨e, found, live⟩).imp_left ?_
    rintro ⟨other, found', pinned⟩
    rwa [Option.some.inj (found.symm.trans found')]
  alternate := registered.paced.2
  last := registered.paced.1

/-- What the operations keep holds after any of them, with no client subscribing before it is
registered or after it is cleaned up. -/
theorem registered_of_connected (ids : List Nat) (ops : List Op)
    (connected : Throughout step Connected (AppState.new (ids.map ({ id := · }))) ops) :
    (run step (AppState.new (ids.map ({ id := · }))) ops).Registered :=
  run_keeps (fun _ op registered => registered.step op) ops (registered_new ids) connected

/-- After any operations in any order, with no client subscribing before it is registered or
after it is cleaned up, the five views agree. -/
theorem accord_of_connected (ids : List Nat) (ops : List Op)
    (connected : Throughout step Connected (AppState.new (ids.map ({ id := · }))) ops) :
    (run step (AppState.new (ids.map ({ id := · }))) ops).Accord :=
  (registered_of_connected ids ops connected).accord

/-- The first subscriber leaves a second one parked, which is then given up and cleaned up. -/
theorem accord_of_connected_given_up :
    (run step (AppState.new ([0, 1].map ({ id := · }))) [.registerClient "a", .registerClient "b",
      .subscribe 1 1 (.l4Book "BTC"), .subscribe 2 2 (.l4Book "BTC"), .cleanupClient 1,
      .failPending (.l4Book "BTC") 2, .cleanupClient 2]).Accord :=
  accord_of_connected [0, 1] _ (by decide)

end AppState

end Wsarb
